import FogNet.CommandLine.Plan
import FogNet.Exposition.Text

/-!
# The program

Reads the command line and the scenario, runs the simulation, and writes the summary and the
measurements. All that is decided is decided elsewhere.
-/

namespace FogNet.CommandLine

/-- More steps than a run can take. -/
def stepBudget : Nat := 0x10000000000000000

/-- The exit codes. -/
def failureCode : UInt32 := 1

def usageCode : UInt32 := 2

def overflowCode : UInt32 := 101

def printLines (lines : List String) : IO Unit := lines.forM fun line => IO.println line

/-- The document of the scenario, if there is one to be read. -/
def readDocument (o : Options) : IO (Option String) := do
  match o.config with
  | none => return none
  | some path =>
    try
      return some (← IO.FS.readFile path)
    catch _ =>
      return none

def fail (e : CommandError) : IO UInt32 := do
  IO.eprint e.text
  return failureCode

/-- Writes the measurements, if a file is given for them. -/
def writeMetrics (o : Options) (log : List Metric) : IO UInt32 := do
  match o.metricsOut with
  | none => return 0
  | some path =>
    try
      let lines := Exposition.lines (.ofMetrics log)
      IO.FS.writeFile path (String.join (lines.map (· ++ "\n")))
      return 0
    catch e =>
      fail (.metrics path (toString e))

/-- Runs a planned simulation and tells about it. -/
def runPlan (o : Options) (p : Plan) (s : Simulation) : IO UInt32 := do
  let started ← IO.monoNanosNow
  match p.run s stepBudget with
  | .finished s =>
    let ended ← IO.monoNanosNow
    IO.print ((s.report p.seed).summary (some (Duration.toSeconds (ended - started))))
    writeMetrics o s.log.reverse
  | .overflow _ =>
    IO.eprintln "overflow when adding durations"
    return overflowCode
  | .exhausted _ =>
    IO.eprintln "too many steps"
    return failureCode

def execute (o : Options) : IO UInt32 := do
  let document ← readDocument o
  let fresh := UInt64.ofNat (← IO.rand 0 0xFFFFFFFFFFFFFFFF)
  match o.plan document fresh with
  | .error e => fail e
  | .ok p =>
    match p.simulation with
    | .error e => fail e
    | .ok s => runPlan o p s

end FogNet.CommandLine

open FogNet.CommandLine in
/-- Carries out the command line and answers with the exit code. -/
def main (words : List String) : IO UInt32 := do
  match parse words with
  | none =>
    usage.forM fun line => IO.eprintln line
    return usageCode
  | some .help =>
    printLines usage
    return 0
  | some .version =>
    IO.println version
    return 0
  | some (.run o) => execute o
