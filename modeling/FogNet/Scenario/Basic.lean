import FogNet.Simulation.Run

/-!
# Scenarios

A scenario describes a whole simulation: devices, applications, sensors and actuators, how long it
runs and how its orchestrators place. `simulation` sets it up, unless something in the description
does not fit together.

## Main statements

* `ApplicationEntry.model_id` — an entry describes the application of its id
* `simulation_ok_cases` — what a simulation is made of, and in which order it is set up
-/

namespace FogNet

/-! ## Devices -/

/-- A device as a scenario describes it. -/
structure DeviceEntry where
  id : DeviceId
  name : String
  role : Role
  mips : Nat
  ramMb : Nat := 0
  storageMb : Nat := 0
  parent : Option DeviceId := none
  /-- Counts only for a device with a parent. -/
  uplinkLatencyMs : Nat := 0
  level : Option String := none
  bandwidth : PerLink (Option Binary64) := PerLink.const none

namespace DeviceEntry

def linkBandwidth (d : DeviceEntry) (kind : LinkKind) : Float :=
  ((d.bandwidth.get kind).map Binary64.toFloat).getD defaultBandwidth

def device (d : DeviceEntry) : Device :=
  { id := d.id
    name := d.name
    role := d.role
    parent := d.parent
    level := d.level
    capacity := { cpuMips := d.mips, ramMb := d.ramMb, storageMb := d.storageMb }
    uplinkLatency := if d.parent.isSome then Duration.ofMillis d.uplinkLatencyMs else 0
    bandwidth := ⟨d.linkBandwidth .uplink, d.linkBandwidth .downlink, d.linkBandwidth .cluster⟩ }

end DeviceEntry

/-! ## Errors -/

/-- What is wrong with a scenario. -/
inductive ScenarioError where
  /-- The document of the scenario cannot be read. -/
  | unreadable
  /-- The document does not describe a scenario. -/
  | malformed
  | word (error : UnknownWord)
  | topology (error : TopologyError)
  | setup (error : SetupError)
  /-- A selectivity names a microservice that its application does not have. -/
  | unknownMicroservice (app : AppId) (microservice : Name)
  deriving DecidableEq, Repr

namespace ScenarioError

def message : ScenarioError → String
  | unreadable => "Failed to read scenario"
  | malformed => "Invalid scenario"
  | word error => error.message
  | topology error => error.message
  | setup error => error.message
  | unknownMicroservice app microservice =>
    "Application " ++ app ++ ": selectivity for unknown microservice " ++ microservice

end ScenarioError

/-! ## Applications -/

/-- An application as a scenario describes it: its selectivities are listed apart. -/
structure ApplicationEntry where
  application : Application
  /-- Each with its microservice; of two for the same tuple types the later counts. -/
  selectivities : List (Name × Selectivity) := []

namespace ApplicationEntry

/-- Adds a listed selectivity to an application. -/
def addListed (app : Application) (listed : Name × Selectivity) :
    Except ScenarioError Application :=
  match app.addSelectivity listed.1 listed.2 with
  | some app => .ok app
  | none => .error (.unknownMicroservice app.id listed.1)

/-- The application that an entry describes. -/
def model (a : ApplicationEntry) : Except ScenarioError Application :=
  a.selectivities.foldlM addListed a.application

theorem addListed_id {app app' : Application} {listed : Name × Selectivity}
    (h : addListed app listed = .ok app') : app'.id = app.id := by
  unfold addListed Application.addSelectivity at h
  cases hm : Application.addToFirst listed.1 listed.2 app.microservices with
  | none => simp [hm] at h
  | some ms =>
    simp only [hm, Option.map_some, Except.ok.injEq] at h
    rw [← h]

theorem foldlM_addListed_id : ∀ (listed : List (Name × Selectivity)) {app app' : Application},
    listed.foldlM addListed app = .ok app' → app'.id = app.id
  | [], app, app', h => by
    rw [List.foldlM_nil] at h
    rw [← Except.ok.inj h]
  | s :: rest, app, app', h => by
    rw [List.foldlM_cons] at h
    cases hs : addListed app s with
    | error e => simp [hs, bind, Except.bind] at h
    | ok next =>
      simp only [hs, bind, Except.bind] at h
      rw [foldlM_addListed_id rest h, addListed_id hs]

/-- An entry describes the application of its id. -/
theorem model_id {a : ApplicationEntry} {app : Application} (h : a.model = .ok app) :
    app.id = a.application.id := foldlM_addListed_id a.selectivities h

end ApplicationEntry

/-! ## Scenarios -/

structure Scenario where
  /-- Decides what is not decided elsewhere. -/
  seed : Option UInt64 := none
  durationSeconds : Nat := 60
  placementIntervalMs : Nat := 1000
  /-- The name of the placement strategy. -/
  strategy : String := Strategy.edgeward.name
  clusterLevels : List String := []
  clusterLatencyMs : Nat := 0
  devices : List DeviceEntry
  applications : List ApplicationEntry
  sensors : List Sensor := []
  actuators : List Actuator := []

namespace Scenario

def duration (s : Scenario) : Duration := Duration.ofSeconds s.durationSeconds

def layout (s : Scenario) : Layout :=
  { devices := s.devices.map DeviceEntry.device
    levels := s.clusterLevels
    clusterLatency := Duration.ofMillis s.clusterLatencyMs }

def topology (s : Scenario) : Except ScenarioError Topology :=
  match Topology.build s.layout with
  | .ok t => .ok t
  | .error e => .error (.topology e)

/-- The applications in the order of their entries. -/
def models (s : Scenario) : Except ScenarioError (List Application) :=
  s.applications.mapM ApplicationEntry.model

def policy (s : Scenario) : Except ScenarioError Policy :=
  match Strategy.parse s.strategy with
  | .ok strategy => .ok { placementInterval := Duration.ofMillis s.placementIntervalMs, strategy }
  | .error e => .error (.word e)

def network (s : Scenario) : Except ScenarioError Network := do
  let topology ← s.topology
  let models ← s.models
  let policy ← s.policy
  return { topology, applications := .ofList models, policy }

/-- Attaches the sensors and then the actuators. -/
def attachAll (s : Scenario) (sim : Simulation) : Except SetupError Simulation := do
  let sim ← s.sensors.foldlM Simulation.addSensor sim
  s.actuators.foldlM Simulation.addActuator sim

/-- The simulation of a scenario before its start. -/
def simulation (s : Scenario) (seed : UInt64) : Except ScenarioError Simulation :=
  match s.network with
  | .error e => .error e
  | .ok network =>
    match s.attachAll (Simulation.create network seed) with
    | .error e => .error (.setup e)
    | .ok sim => .ok sim

theorem simulation_ok_cases {s : Scenario} {seed : UInt64} {sim : Simulation}
    (h : s.simulation seed = .ok sim) :
    ∃ network, s.network = .ok network
      ∧ s.attachAll (Simulation.create network seed) = .ok sim := by
  unfold simulation at h
  split at h
  · cases h
  · next network hn =>
    split at h
    · cases h
    · next sim' ha => exact ⟨network, hn, Except.ok.inj h ▸ ha⟩

end Scenario

end FogNet
