import FogNet.CommandLine.LogFilter
import FogNet.CommandLine.Options
import FogNet.Report
import FogNet.Scenario.Demo
import FogNet.Scenario.Document

/-!
# Planned runs

What the options of a command line come to: a scenario, with what the options change of it, and the
seed of its simulation.

## Main statements

* `plan_demo` — without a document the demo is planned
* `seed_of_options` — a seed that is given counts before that of the scenario
-/

namespace FogNet.CommandLine

/-! ## Errors -/

/-- Why a command line is not carried out. -/
inductive CommandError where
  | logLevel
  | scenario (path : String) (error : ScenarioError)
  | simulation (error : ScenarioError)
  /-- The measurements cannot be written. -/
  | metrics (path reason : String)
  deriving DecidableEq, Repr

namespace CommandError

/-- What was being done. -/
def context : CommandError → String
  | logLevel => "Invalid --log-level"
  | scenario path _ => "Failed to load scenario " ++ path
  | simulation _ => "Failed to create simulator"
  | metrics path _ => "Failed to write metrics to " ++ path

def cause : CommandError → String
  | logLevel => "invalid filter directive"
  | scenario _ error => error.message
  | simulation error => error.message
  | metrics _ reason => reason

/-- The error as text, each line with its end. All lines of the cause are indented. -/
def text (e : CommandError) : String :=
  "Error: " ++ e.context ++ "\n\nCaused by:\n    "
    ++ "\n    ".intercalate (e.cause.splitOn "\n") ++ "\n"

end CommandError

/-! ## Plans -/

structure Plan where
  scenario : Scenario
  seed : UInt64

namespace Options

/-- The scenario before any change: that of the document, or the demo. -/
def base (o : Options) (document : Option String) : Except CommandError Scenario :=
  match o.config with
  | none => .ok (Scenario.demo (o.gateways.getD 2) (o.clients.getD 2))
  | some path =>
    match document with
    | none => .error (.scenario path .unreadable)
    | some text => (Scenario.parse text).mapError (.scenario path)

/-- Changes what the options tell to. -/
def adjust (o : Options) (s : Scenario) : Scenario :=
  { s with
    durationSeconds := o.duration.getD s.durationSeconds
    placementIntervalMs := o.placementIntervalMs.getD s.placementIntervalMs
    strategy := o.strategy.getD s.strategy }

/-- The plan, with a fresh seed if there is none. -/
def plan (o : Options) (document : Option String) (fresh : UInt64) : Except CommandError Plan :=
  if (o.logLevel.all LogFilter.isFilter) = true then
    (o.base document).map fun s =>
      { scenario := o.adjust s, seed := (o.seed.or s.seed).getD fresh }
  else .error .logLevel

/-- Without a document the demo is planned. -/
theorem plan_demo {o : Options} (document : Option String) (fresh : UInt64)
    (hc : o.config = none) (hl : o.logLevel = none) :
    o.plan document fresh = .ok
      { scenario := o.adjust (Scenario.demo (o.gateways.getD 2) (o.clients.getD 2)),
        seed := o.seed.getD fresh } := by
  simp [plan, base, hc, hl, Scenario.demo, Except.map]

/-- A seed that is given counts before that of the scenario. -/
theorem seed_of_options {o : Options} {document : Option String} {fresh seed : UInt64} {p : Plan}
    (hs : o.seed = some seed) (h : o.plan document fresh = .ok p) : p.seed = seed := by
  unfold plan at h
  split at h
  · cases hb : o.base document with
    | error e => simp [hb, Except.map] at h
    | ok s =>
      simp only [hb, Except.map, hs, Except.ok.injEq] at h
      rw [← h]
      rfl
  · cases h

end Options

namespace Plan

/-- The simulation before its start. -/
def simulation (p : Plan) : Except CommandError Simulation :=
  (p.scenario.simulation p.seed).mapError .simulation

/-- Runs the simulation for the duration of the scenario. -/
def run (p : Plan) (s : Simulation) (budget : Nat) : Simulation.Outcome :=
  s.runFor p.scenario.duration budget

end Plan

end FogNet.CommandLine
