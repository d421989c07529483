import FogNet.Scenario.Basic

/-!
# The demo scenario

A cloud, a proxy below it, gateways below the proxy, and clients below each gateway. Every client
has a sensor and a display of one application, whose messages go from the sensor through the client,
`ingest` and `analyse` back to the client and its display.

A gateway has room for what serves one client. With a second client `analyse` moves up to the proxy.

## Main statements

* `devices_length`, `sensors_length`, `actuators_length` — how many devices, sensors and actuators
  there are
-/

namespace FogNet.Scenario

namespace Demo

/-! ## Devices -/

def cloudId : DeviceId := 0

def proxyId : DeviceId := 1

/-- The gateways are numbered from ten. -/
def gatewayId (gateway : Nat) : DeviceId := 10 + gateway

/-- The clients of all gateways, some for each, are numbered from a hundred. -/
def clientId (clients gateway client : Nat) : DeviceId := 100 + gateway * clients + client

/-- The label of the gateways, which form a cluster. -/
def gatewayLevel : String := "gw"

def device (id : DeviceId) (name : String) (role : Role) (mips : Nat) : DeviceEntry :=
  { id, name, role, mips, ramMb := mips, storageMb := 10000 }

/-- The device below another one. -/
def below (parent : DeviceId) (latencyMs : Nat) (d : DeviceEntry) : DeviceEntry :=
  { d with parent := some parent, uplinkLatencyMs := latencyMs }

def cloud : DeviceEntry := device cloudId "cloud" .cloud 44800

def proxy : DeviceEntry := below cloudId 100 (device proxyId "proxy" .fon 4000)

def gateway (gateway : Nat) : DeviceEntry :=
  below proxyId 4
    (device (gatewayId gateway) (gatewayLevel ++ "-" ++ toString gateway) .fcn 2800)

def client (clients gateway client : Nat) : DeviceEntry :=
  below (gatewayId gateway) 2
    (device (clientId clients gateway client)
      ("client-" ++ toString gateway ++ "-" ++ toString client) .client 500)

/-- A gateway with its clients. -/
def site (clients i : Nat) : List DeviceEntry :=
  gateway i :: (List.range clients).map (client clients i)

def devices (gateways clients : Nat) : List DeviceEntry :=
  cloud :: proxy :: (List.range gateways).flatMap (site clients)

/-! ## The application -/

def appId : AppId := "demo"

def sensorType : TupleType := "SENSOR"

def actuatorType : Name := "DISPLAY"

def moduleEdge (source destination : Name) (tupleType : TupleType) (direction : Direction)
    (cpuLength size : Nat) : Edge :=
  { kind := .module, source, destination, tupleType, direction, cpuLength, size }

def application : Application :=
  { id := appId
    user := 1
    microservices := [⟨defaultClientModule, 1000, 0, 0, []⟩, ⟨"ingest", 500, 0, 0, []⟩,
      ⟨"analyse", 1000, 0, 0, []⟩]
    edges := [.ofSensor sensorType defaultClientModule 1000 2000,
      moduleEdge defaultClientModule "ingest" "RAW" .up 2000 1000,
      moduleEdge "ingest" "analyse" "INGESTED" .up 2000 1000,
      moduleEdge "analyse" defaultClientModule "RESULT" .down 500 500,
      .toActuator defaultClientModule actuatorType "SHOW" 100 100]
    loops := [[sensorType, defaultClientModule, "ingest", "analyse", defaultClientModule,
      actuatorType]] }

/-- Every input leads to an output. -/
def always (microservice : Name) (input output : TupleType) : Name × Selectivity :=
  (microservice, { input, output, fraction := Binary64.ofFloat 1.0 })

def selectivities : List (Name × Selectivity) :=
  [always defaultClientModule sensorType "RAW", always "ingest" "RAW" "INGESTED",
    always "analyse" "INGESTED" "RESULT", always defaultClientModule "RESULT" "SHOW"]

/-! ## Sensors and actuators -/

/-- The clients with their numbers, counted through all gateways. -/
def clientIds (gateways clients : Nat) : List (Nat × DeviceId) :=
  (List.range gateways).flatMap fun i =>
    (List.range clients).map fun j => (i * clients + j, clientId clients i j)

def sensors (gateways clients : Nat) : List Sensor :=
  (clientIds gateways clients).map fun (number, device) =>
    { id := number, gateway := device, app := appId, tupleType := sensorType }

def actuators (gateways clients : Nat) : List Actuator :=
  (clientIds gateways clients).map fun (number, device) =>
    { id := number, device, app := appId, actuatorType }

end Demo

/-- The demo with some gateways and some clients for each. -/
def demo (gateways clients : Nat) : Scenario :=
  { clusterLevels := [Demo.gatewayLevel]
    clusterLatencyMs := 2
    devices := Demo.devices gateways clients
    applications := [⟨Demo.application, Demo.selectivities⟩]
    sensors := Demo.sensors gateways clients
    actuators := Demo.actuators gateways clients }

/-! ## Counts -/

namespace Demo

theorem devices_length (gateways clients : Nat) :
    (devices gateways clients).length = 2 + gateways * (clients + 1) := by
  simp [devices, site, List.length_flatMap, List.map_const']
  omega

theorem clientIds_length (gateways clients : Nat) :
    (clientIds gateways clients).length = gateways * clients := by
  simp [clientIds, List.length_flatMap, List.map_const']

theorem sensors_length (gateways clients : Nat) :
    (sensors gateways clients).length = gateways * clients := by
  simp [sensors, clientIds_length]

theorem actuators_length (gateways clients : Nat) :
    (actuators gateways clients).length = gateways * clients := by
  simp [actuators, clientIds_length]

end Demo

end FogNet.Scenario
