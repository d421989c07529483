import FogNet.Number.Fixed
import FogNet.Simulation.Run

/-!
# Reports

What is told about a simulation when it has run: what it counted, where the instances are, how long
the loops took, and what could not be placed. The summary is the report as text.

## Main statements

* `mem_hosts` — only devices with instances are listed as hosts
* `run_budget` — a larger budget does not change how a run ended
-/

namespace FogNet

/-- A device that hosts instances. -/
structure Host where
  device : DeviceId
  name : String
  role : Role
  /-- How many instances there are, by application and microservice. -/
  instances : List (AppId × Name × Nat)

/-- The time a loop of an application took. -/
structure LoopTime where
  app : AppId
  loop : LoopId
  modules : List Name
  /-- In seconds; there is none for a loop that never closed. -/
  mean : Option Float

structure Report where
  seed : UInt64
  simulated : Duration
  statistics : Statistics
  hosts : List Host
  loops : List LoopTime
  /-- How many requests wait at an orchestrator. -/
  pendingRequests : Nat

/-! ## From a simulation -/

namespace Simulation

/-- Runs the simulation for some duration from now. -/
def runFor (s : Simulation) (d : Duration) (budget : Nat) : Outcome :=
  match s.later d with
  | .error left => .overflow left
  | .ok stop => s.runUntil stop budget

theorem run_budget {s s' : Simulation} {d : Duration} {budget more : Nat} (hle : budget ≤ more)
    (h : s.runFor d budget = .finished s') : s.runFor d more = .finished s' := by
  unfold runFor at h ⊢
  split at h
  · simp at h
  · unfold runUntil at h ⊢
    split at h
    · simp at h
    · exact advance_budget hle h

/-- The machines with instances. -/
def hosts (s : Simulation) : List Machine :=
  s.machines.values.filter fun m => 0 < m.deployment.instanceCount

theorem mem_hosts {s : Simulation} {m : Machine} :
    m ∈ s.hosts ↔ m ∈ s.machines.values ∧ 0 < m.deployment.instanceCount := by
  simp [hosts]

/-- The loops of all applications, in the order of the applications. -/
def loopTimes (s : Simulation) : List LoopTime :=
  s.network.applications.values.flatMap fun app =>
    app.numberedLoops.map fun (loop, modules) =>
      { app := app.id, loop, modules, mean := s.statistics.meanLoopLatency ⟨app.id, loop⟩ }

def pendingRequests (s : Simulation) : Nat :=
  sumOf (s.machines.values.filterMap fun m => m.orchestrator.map fun o => o.pending.length)

/-- Reports on a simulation that was set up with a seed. -/
def report (s : Simulation) (seed : UInt64) : Report :=
  { seed
    simulated := s.now
    statistics := s.statistics
    hosts := s.hosts.map fun m =>
      { device := m.id, name := m.device.name, role := m.role
        instances := m.deployment.placements }
    loops := s.loopTimes
    pendingRequests := s.pendingRequests }

end Simulation

namespace Report

/-- How many instances of a microservice there are on all devices. -/
def instancesOf (r : Report) (app : AppId) (microservice : Name) : Nat :=
  sumOf ((r.hosts.flatMap Host.instances).filterMap fun (a, name, count) =>
    if a = app ∧ name = microservice then some count else none)

/-! ## Summaries -/

/-- Seconds, to the millisecond. -/
def seconds (x : Float) : String := Number.fixed 3 x ++ "s"

/-- A line that names a value. -/
def line (label value : String) : String := "  " ++ label ++ ": " ++ value

def count (label : String) (n : Nat) : String := line label (toString n)

/-- The head of the summary. The time that the run itself took stands there, if it is known. -/
def headLines (r : Report) (wallClock : Option Float) : List String :=
  ["", "📊 Simulation Report", "====================", "",
    line "Seed" (toString r.seed),
    line "Simulated time" (seconds r.simulated.toSeconds)]
  ++ (wallClock.map fun x => line "Wall clock" (seconds x)).toList
  ++ [count "Events processed" r.statistics.eventsProcessed,
    count "Actions generated" r.statistics.actionsGenerated]

def messageLines (r : Report) : List String :=
  ["", "📨 Messages:",
    count "Sensor emissions" r.statistics.sensorEmissions,
    count "Transmissions" r.statistics.transmissions,
    count "Executions" r.statistics.executions,
    count "Actuator deliveries" r.statistics.actuatorDeliveries,
    count "Cloud traffic" r.statistics.cloudTraffic,
    line "Network usage" (Number.fixed 3 r.statistics.networkUsage),
    count "Dropped" r.statistics.messagesDropped]
  ++ r.statistics.drops.entries.map fun (reason, n) => "  " ++ count reason.name n

def hostLines (h : Host) : List String :=
  ("  " ++ h.name ++ " [" ++ toString h.device ++ "] (" ++ h.role.name ++ ")")
    :: h.instances.map fun (app, microservice, n) =>
      "    " ++ app ++ "/" ++ microservice ++ " x" ++ toString n

def placementLines (r : Report) : List String :=
  ["", "🗺️  Placements:"]
  ++ (if r.hosts.isEmpty then ["  (none)"] else r.hosts.flatMap hostLines)
  ++ (if 0 < r.pendingRequests then
      ["  ⚠️  " ++ toString r.pendingRequests ++ " placement request(s) still pending"]
    else [])

def loopLine (l : LoopTime) : String :=
  "  " ++ l.app ++ " #" ++ toString l.loop ++ " [" ++ " → ".intercalate l.modules ++ "]: "
    ++ (match l.mean with
      | some mean => seconds mean
      | none => "never closed")

def loopLines (r : Report) : List String := ["", "⏱️  Loops:"] ++ r.loops.map loopLine

def cpuTimeLines (r : Report) : List String :=
  if r.statistics.cpuTime.entries.isEmpty then []
  else
    ["", "⚙️  CPU time per tuple type:"]
    ++ r.statistics.cpuTime.entries.filterMap fun (tupleType, average) =>
      average.meanSeconds.map fun mean => line tupleType (seconds mean)

/-- The report as text, each line with its end. -/
def summary (r : Report) (wallClock : Option Float) : String :=
  let lines := r.headLines wallClock ++ r.messageLines ++ r.placementLines ++ r.loopLines
    ++ r.cpuTimeLines ++ [""]
  String.join (lines.map (· ++ "\n"))

end Report

end FogNet
