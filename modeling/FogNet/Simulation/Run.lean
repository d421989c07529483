import FogNet.Simulation.Perform

/-!
# Running a simulation

A simulation starts with the start of its machines, a request for each sensor and the first interval
of each sensor. From then on it takes the first task of its queue, again and again, until the next
one is later than the end of the run.

Nothing keeps a simulation from scheduling ever more tasks at one instant, so a run is given a
budget of steps.

## Main statements

* `advance_budget` — a larger budget does not change how a run ended
* `advance_now` — a finished run has reached its end, and all that is left in the queue is later
-/

namespace FogNet

namespace Simulation

/-! ## The start -/

/-- Carries out what a machine starts with. -/
def startMachine (s : Simulation) (m : Machine) : Except Overflow Simulation :=
  s.performAll m.id m.start

/-- The request for the microservices that serve a sensor. -/
def sensorRequest (sensor : Sensor) (app : Application) : Request :=
  { id := sensor.id
    app := sensor.app
    gateway := sensor.gateway
    placed := SortedMap.empty.insert app.clientModule sensor.gateway }

/-- Submits the request of a sensor and starts its first interval. -/
def startSensor (s : Simulation) (sensor : Sensor) : Except Overflow Simulation :=
  match s.network.application? sensor.app with
  | none => .ok s
  | some app =>
    let s := match s.network.topology.orchestratorFor sensor.gateway with
      | none => s
      | some orchestrator => s.scheduleNow orchestrator
          (.device (.placementRequestSubmitted (sensorRequest sensor app)))
    s.scheduleAfter sensor.gateway sensor.interval (.sensorTick sensor.id)

/-- Starts the simulation, which happens once. -/
def start (s : Simulation) : Except Overflow Simulation :=
  if s.started then .ok s
  else do
    let s := { s with started := true }
    let s ← s.machines.values.foldlM startMachine s
    s.sensors.values.foldlM startSensor s

/-- Schedules an event from outside. -/
def inject (s : Simulation) (device : DeviceId) (delay : Duration) (event : Event) :
    Except Overflow Simulation :=
  s.scheduleAfter device delay (.device event)

/-! ## Steps -/

/-- A sensor emits a message, if its application has an edge for it. -/
def emit (s : Simulation) (sensor : Sensor) (app : Application) : Except Overflow Simulation :=
  let s := { s with lastMessage := s.lastMessage + 1 }
  match app.sensorMessage? sensor.tupleType s.lastMessage s.now with
  | none => .ok s
  | some message =>
    let s := s.count Statistics.countEmission
    s.scheduleAfter sensor.gateway sensor.latency
      (.device (.messageArrived { message with destinationDevice := some sensor.gateway }))

/-- The interval of a sensor is over: it emits, and the next interval begins. -/
def tick (s : Simulation) (id : SensorId) : Except Overflow Simulation :=
  match s.sensors.get? id with
  | none => .ok s
  | some sensor =>
    match s.network.application? sensor.app with
    | none => .ok s
    | some app => do
      let s ← s.emit sensor app
      s.scheduleAfter sensor.gateway sensor.interval (.sensorTick id)

/-- An instance has processed a message: its outputs arrive at its own device. -/
def complete (s : Simulation) (target : InstanceId) (message : Message) : Simulation :=
  match s.network.application? message.app with
  | none => s
  | some app =>
    let (outputs, generator) :=
      app.resultants message.destination message (s.lastMessage + 1) s.generator
    let s := { s with generator, lastMessage := s.lastMessage + outputs.length }
    outputs.foldl (fun s output => s.scheduleNow target.device (.device (.messageArrived output))) s

/-- An event happens to a device, if there is such a device. -/
def happen (s : Simulation) (device : DeviceId) (event : Event) : Except Overflow Simulation :=
  match s.machine? device with
  | none => .ok s
  | some m =>
    let handled := { m with now := s.now }.handle s.network event
    let log := handled.metrics.reverse ++ s.log
    match handled.value with
    | none => .error ⟨log⟩
    | some (actions, m) =>
      let s := { s with machines := s.machines.insert device m, log }
      (s.count fun t => t.countActions actions.length).performAll device actions

/-- Processes a task. -/
def process (s : Simulation) (key : Key) (task : Task) : Except Overflow Simulation :=
  match task with
  | .sensorTick sensor => s.tick sensor
  | .executionCompleted target message => .ok (s.complete target message)
  | .device event => s.happen key.device event

/-- Takes the first task of the queue; the time is now that of the task. -/
def take (s : Simulation) (key : Key) (task : Task) : Simulation :=
  { s with
    queue := s.queue.dropFirst
    now := key.time
    statistics := s.statistics.countEvent task.priority }

/-- The task to process next, if it is not later than `stop`. -/
def next? (s : Simulation) (stop : Duration) : Option (Key × Task) :=
  s.queue.first?.filter fun e => e.1.time ≤ stop

/-! ## Runs -/

/-- How a run ends. -/
inductive Outcome where
  | finished (s : Simulation)
  /-- A duration left its range. -/
  | overflow (left : Overflow)
  /-- The budget of steps was used up. -/
  | exhausted (s : Simulation)

/-- The simulation at the end of a run, when there is nothing more to process. -/
def settle (s : Simulation) (stop : Duration) : Simulation := { s with now := max s.now stop }

/-- Processes tasks up to `stop`, at most `budget` of them. -/
def advance (stop : Duration) : (budget : Nat) → Simulation → Outcome
  | budget, s =>
    match s.next? stop with
    | none => .finished (s.settle stop)
    | some (key, task) =>
      match budget with
      | 0 => .exhausted s
      | budget + 1 =>
        match (s.take key task).process key task with
        | .error left => .overflow left
        | .ok s => advance stop budget s

/-- Starts the simulation, if it has not started, and runs it up to `stop`. -/
def runUntil (s : Simulation) (stop : Duration) (budget : Nat) : Outcome :=
  match s.start with
  | .error left => .overflow left
  | .ok s => advance stop budget s

/-! ## Laws -/

/-- A larger budget does not change how a run ended. -/
theorem advance_budget {stop : Duration} {budget more : Nat} (hle : budget ≤ more)
    {s s' : Simulation} (h : advance stop budget s = .finished s') :
    advance stop more s = .finished s' := by
  induction more generalizing budget s with
  | zero =>
    obtain rfl : budget = 0 := by omega
    exact h
  | succ more ih =>
    unfold advance at h ⊢
    split
    · next hn => simpa [hn] using h
    · next key task hn =>
      simp only [hn] at h
      cases budget with
      | zero => simp at h
      | succ budget =>
        simp only at h ⊢
        cases hp : (s.take key task).process key task with
        | error left => simp [hp] at h
        | ok s₁ =>
          simp only [hp] at h ⊢
          exact ih (by omega) h

/-- A finished run has reached its end, and the first of what is left in the queue is later. -/
theorem advance_now {stop : Duration} {budget : Nat} {s s' : Simulation}
    (h : advance stop budget s = .finished s') :
    stop ≤ s'.now ∧ ∀ key task, s'.queue.first? = some (key, task) → stop < key.time := by
  induction budget generalizing s with
  | zero =>
    unfold advance at h
    split at h
    · next hn =>
      rw [← Outcome.finished.inj h]
      refine ⟨Nat.le_max_right _ _, fun key task hf => ?_⟩
      have hf : s.queue.first? = some (key, task) := hf
      simp [next?, hf, Option.filter] at hn
      exact hn
    · simp at h
  | succ budget ih =>
    unfold advance at h
    split at h
    · next hn =>
      rw [← Outcome.finished.inj h]
      refine ⟨Nat.le_max_right _ _, fun key task hf => ?_⟩
      have hf : s.queue.first? = some (key, task) := hf
      simp [next?, hf, Option.filter] at hn
      exact hn
    · simp only at h
      split at h
      · simp at h
      · exact ih h

end Simulation

end FogNet
