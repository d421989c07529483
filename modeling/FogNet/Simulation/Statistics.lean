import FogNet.Drop
import FogNet.Event
import FogNet.Sum

/-!
# Statistics

What a simulation counts and sums up.

## Main statements

* `Average.record_count` — a mean is over as many durations as were recorded
* `dropsFor_countDrop` — a drop counts for its own reason
-/

namespace FogNet

/-! ## Averages -/

/-- How many durations were seen, and the sum of their seconds. -/
structure Average where
  count : Nat := 0
  totalSeconds : Float := 0.0

namespace Average

def record (a : Average) (d : Duration) : Average :=
  { count := a.count + 1, totalSeconds := a.totalSeconds + d.toSeconds }

@[simp] theorem record_count (a : Average) (d : Duration) : (a.record d).count = a.count + 1 := rfl

/-- The mean in seconds, if there is any duration. -/
def meanSeconds (a : Average) : Option Float :=
  if 0 < a.count then some (a.totalSeconds / Float.ofNat a.count) else none

end Average

/-- A loop of an application. -/
structure LoopKey where
  app : AppId
  loop : LoopId
  deriving DecidableEq, Repr

namespace LoopKey

/-- By application, then by number. -/
def order : LoopKey → LoopKey → Ordering :=
  compareLex (compareOn LoopKey.app) (compareOn LoopKey.loop)

instance : Ord LoopKey := ⟨order⟩

instance : Std.TransOrd LoopKey :=
  inferInstanceAs (Std.TransCmp (compareLex (compareOn LoopKey.app) (compareOn LoopKey.loop)))

instance : Std.LawfulEqOrd LoopKey where
  eq_of_compare {a b} h := by
    change order a b = .eq at h
    simp only [order, compareLex_eq_eq] at h
    have ha := Std.LawfulEqOrd.eq_of_compare (show compare a.app b.app = .eq from h.1)
    have hl := Std.LawfulEqOrd.eq_of_compare (show compare a.loop b.loop = .eq from h.2)
    cases a; cases b; simp_all

end LoopKey

/-! ## Statistics -/

structure Statistics where
  eventsProcessed : Nat := 0
  /-- Processed events by their priority. -/
  byPriority : SortedMap Priority Nat := SortedMap.empty
  actionsGenerated : Nat := 0
  timersSet : Nat := 0
  sensorEmissions : Nat := 0
  transmissions : Nat := 0
  /-- The sum of latency in seconds times size in bytes over all transmissions. -/
  networkUsage : Float := 0.0
  /-- Messages that reached a cloud device. -/
  cloudTraffic : Nat := 0
  executions : Nat := 0
  actuatorDeliveries : Nat := 0
  drops : SortedMap DropReason Nat := SortedMap.empty
  /-- The time from the emission at a sensor to an actuator at the end of a loop. -/
  loopLatency : SortedMap LoopKey Average := SortedMap.empty
  /-- The time of execution by tuple type. -/
  cpuTime : SortedMap TupleType Average := SortedMap.empty

namespace Statistics

def eventsOf (s : Statistics) (p : Priority) : Nat := (s.byPriority.get? p).getD 0

def dropsFor (s : Statistics) (reason : DropReason) : Nat := (s.drops.get? reason).getD 0

def messagesDropped (s : Statistics) : Nat := sumOf s.drops.values

def meanLoopLatency (s : Statistics) (key : LoopKey) : Option Float :=
  (s.loopLatency.get? key).bind Average.meanSeconds

def meanCpuTime (s : Statistics) (tupleType : TupleType) : Option Float :=
  (s.cpuTime.get? tupleType).bind Average.meanSeconds

/-- Counts a processed event. -/
def countEvent (s : Statistics) (p : Priority) : Statistics :=
  { s with
    eventsProcessed := s.eventsProcessed + 1
    byPriority := s.byPriority.upsert p 0 fun n => n + 1 }

def countActions (s : Statistics) (count : Nat) : Statistics :=
  { s with actionsGenerated := s.actionsGenerated + count }

def countTimer (s : Statistics) : Statistics := { s with timersSet := s.timersSet + 1 }

def countEmission (s : Statistics) : Statistics :=
  { s with sensorEmissions := s.sensorEmissions + 1 }

/-- Counts a message of some bytes on a link with some seconds of latency. -/
def countTransmission (s : Statistics) (seconds : Float) (bytes : Nat) : Statistics :=
  { s with
    transmissions := s.transmissions + 1
    networkUsage := s.networkUsage + seconds * Float.ofNat bytes }

def countCloudTraffic (s : Statistics) : Statistics := { s with cloudTraffic := s.cloudTraffic + 1 }

/-- Counts an execution and its duration. -/
def countExecution (s : Statistics) (tupleType : TupleType) (d : Duration) : Statistics :=
  { s with
    executions := s.executions + 1
    cpuTime := s.cpuTime.upsert tupleType {} fun a => a.record d }

def countDelivery (s : Statistics) : Statistics :=
  { s with actuatorDeliveries := s.actuatorDeliveries + 1 }

def countDrop (s : Statistics) (reason : DropReason) : Statistics :=
  { s with drops := s.drops.upsert reason 0 fun n => n + 1 }

/-- Records that a loop was closed. -/
def countLoop (s : Statistics) (key : LoopKey) (d : Duration) : Statistics :=
  { s with loopLatency := s.loopLatency.upsert key {} fun a => a.record d }

/-- A drop counts for its own reason. -/
theorem dropsFor_countDrop (s : Statistics) (reason other : DropReason) :
    (s.countDrop reason).dropsFor other
      = s.dropsFor other + if other = reason then 1 else 0 := by
  unfold dropsFor countDrop SortedMap.upsert
  simp only [SortedMap.get?_insert]
  by_cases h : other = reason <;> simp [h]

theorem eventsOf_countEvent (s : Statistics) (p other : Priority) :
    (s.countEvent p).eventsOf other = s.eventsOf other + if other = p then 1 else 0 := by
  unfold eventsOf countEvent SortedMap.upsert
  simp only [SortedMap.get?_insert]
  by_cases h : other = p <;> simp [h]

end Statistics

end FogNet
