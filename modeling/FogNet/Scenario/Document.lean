import FogNet.Scenario.Basic
import FogNet.Toml.Decode

/-!
# Scenarios as documents

The keys of a scenario document. Devices, applications, sensors and actuators are records, and none
of them has other keys than those that are read here.
-/

namespace FogNet

open Toml.Decoder Toml.FieldReader

/-! ## Words and counts -/

/-- A number of 32 bits, as identifiers are. -/
def readId : Toml.Decoder Nat := natural 32

/-- A number of 64 bits. -/
def readCount : Toml.Decoder Nat := natural 64

def readRole : Toml.Decoder Role :=
  oneOf (Role.all.map fun r => (r.name, r))

def readDirection : Toml.Decoder Direction :=
  oneOf (Direction.all.map fun d => (d.name, d))

def readEdgeKind : Toml.Decoder EdgeKind :=
  oneOf (EdgeKind.all.map fun k => (k.name, k))

/-! ## Devices -/

def readDevice : Toml.Decoder DeviceEntry := record do
  return {
    id := ← required "id" readId
    name := ← required "name" string
    role := ← required "role" readRole
    mips := ← required "mips" readCount
    ramMb := ← withDefault "ram_mb" readCount 0
    storageMb := ← withDefault "storage_mb" readCount 0
    parent := ← optional "parent" readId
    uplinkLatencyMs := ← withDefault "uplink_latency_ms" readCount 0
    level := ← optional "level" string
    bandwidth := {
      uplink := ← optional "uplink_bandwidth" double
      downlink := ← optional "downlink_bandwidth" double
      cluster := ← optional "cluster_bandwidth" double } }

/-! ## Applications -/

def readMicroservice : Toml.Decoder Microservice := record do
  return {
    name := ← required "name" string
    mips := ← required "mips" readCount
    ramMb := ← withDefault "ram_mb" readCount 0
    sizeMb := ← withDefault "size_mb" readCount 0 }

/--
An edge. Its tuple type is its source unless it is given; an edge of a sensor keeps its source as
the tuple type. Only edges between microservices have a direction of their own.
-/
def readEdge : Toml.Decoder Edge := record do
  let kind ← required "kind" readEdgeKind
  let source ← required "source" string
  let destination ← required "destination" string
  let tupleType ← withDefault "tuple_type" string source
  let direction ← withDefault "direction" readDirection .up
  let cpuLength ← required "cpu_length" readCount
  let size ← required "nw_length" readCount
  match kind with
  | .sensor => return .ofSensor source destination cpuLength size
  | .module => return { kind, source, destination, tupleType, direction, cpuLength, size }
  | .actuator => return .toActuator source destination tupleType cpuLength size

/-- A selectivity and its microservice. Every input leads to an output unless a value is given. -/
def readSelectivity : Toml.Decoder (Name × Selectivity) := record do
  let microservice ← required "microservice" string
  let input ← required "input" string
  let output ← required "output" string
  let fraction ← withDefault "value" double (Binary64.ofFloat 1.0)
  return (microservice, { input, output, fraction })

def readApplication : Toml.Decoder ApplicationEntry := record do
  let id ← required "id" string
  let user ← withDefault "user" readId 0
  let clientModule ← withDefault "client_module" string defaultClientModule
  let microservices ← required "microservices" (list readMicroservice)
  let edges ← required "edges" (list readEdge)
  let selectivities ← withDefault "selectivities" (list readSelectivity) []
  let loops ← withDefault "loops" (list (list string)) []
  return {
    application := { id, user, clientModule, microservices, edges, loops }
    selectivities }

/-! ## Sensors and actuators -/

def readSensor : Toml.Decoder Sensor := record do
  return {
    id := ← required "id" readId
    gateway := ← required "gateway" readId
    app := ← required "app" string
    tupleType := ← required "tuple_type" string
    interval := Duration.ofMillis (← withDefault "interval_ms" readCount 5000)
    latency := Duration.ofMillis (← withDefault "latency_ms" readCount 6) }

def readActuator : Toml.Decoder Actuator := record do
  return {
    id := ← required "id" readId
    device := ← required "device" readId
    app := ← required "app" string
    actuatorType := ← required "actuator_type" string
    latency := Duration.ofMillis (← withDefault "latency_ms" readCount 1) }

/-! ## Scenarios -/

namespace Scenario

def read : Toml.Decoder Scenario := record do
  let seed ← optional "seed" readCount
  return {
    seed := seed.map UInt64.ofNat
    durationSeconds := ← withDefault "duration_secs" readCount 60
    placementIntervalMs := ← withDefault "placement_interval_ms" readCount 1000
    strategy := ← withDefault "strategy" string Strategy.edgeward.name
    clusterLevels := ← withDefault "cluster_levels" (list string) []
    clusterLatencyMs := ← withDefault "cluster_latency_ms" readCount 0
    devices := ← required "devices" (list readDevice)
    applications := ← required "applications" (list readApplication)
    sensors := ← withDefault "sensors" (list readSensor) []
    actuators := ← withDefault "actuators" (list readActuator) [] }

/-- The scenario that a document describes. -/
def parse (text : String) : Except ScenarioError Scenario :=
  match (Toml.parse? text).bind fun t => read (.table .header t) with
  | some s => .ok s
  | none => .error .malformed

end Scenario

end FogNet
