import FogNet.Endpoint
import FogNet.Machine.Handle
import FogNet.Simulation.Queue
import FogNet.Simulation.Statistics

/-!
# The state of a simulation

A simulation owns the time, the machines, the sensors and actuators, and the queue of what is to
come. It is set up by attaching sensors and actuators, which is refused where they have no place.

## Main statements

* `addSensor_ok_cases`, `addActuator_ok_cases` — when setup succeeds, and what it changes
* `schedule_queue` — what a simulation schedules is in its queue
-/

namespace FogNet

/-- What is wrong with the setup of a simulation. -/
inductive SetupError where
  | topology (error : TopologyError)
  | node (error : NodeError)
  | unknownApplication (app : AppId)
  | unknownDevice (device : DeviceId)
  | noOrchestrator (gateway : DeviceId)
  | unknownSensorType (app : AppId) (tupleType : TupleType)
  | duplicateSensor (sensor : SensorId)
  | duplicateActuator (actuator : ActuatorId)
  | zeroInterval (sensor : SensorId)
  deriving DecidableEq, Repr

namespace SetupError

def sensorText (sensor : SensorId) : String := "SensorId(" ++ toString sensor ++ ")"

def actuatorText (actuator : ActuatorId) : String := "ActuatorId(" ++ toString actuator ++ ")"

def message : SetupError → String
  | topology error => error.message
  | node error => error.message
  | unknownApplication app => "Application " ++ app ++ " is not registered"
  | unknownDevice device => "Device " ++ toString device ++ " is not part of the topology"
  | noOrchestrator gateway => "No orchestrating device above gateway " ++ toString gateway
  | unknownSensorType app tupleType =>
    "Application " ++ app ++ " has no sensor edge for tuple type " ++ tupleType
  | duplicateSensor sensor => "Sensor " ++ sensorText sensor ++ " registered twice"
  | duplicateActuator actuator => "Actuator " ++ actuatorText actuator ++ " registered twice"
  | zeroInterval sensor => "Sensor " ++ sensorText sensor ++ " has a zero emission interval"

end SetupError

structure Simulation where
  network : Network
  /-- One machine for each device of the topology. -/
  machines : SortedMap DeviceId Machine
  sensors : SortedMap SensorId Sensor := SortedMap.empty
  actuators : SortedMap ActuatorId Actuator := SortedMap.empty
  queue : Queue := SortedMap.empty
  /-- How many tasks were scheduled. -/
  scheduled : Nat := 0
  now : Duration := 0
  /-- Decides on outputs of microservices. -/
  generator : Generator
  /-- The last number that a message was given. -/
  lastMessage : MessageId := 0
  statistics : Statistics := {}
  started : Bool := false
  /-- All measurements, the latest first. -/
  log : List Metric := []

/-- What is left of a simulation in which a duration left its range: its measurements. -/
structure Overflow where
  /-- The latest first. -/
  log : List Metric

namespace Simulation

/-- A simulation of a network before any setup. -/
def create (network : Network) (seed : UInt64) : Simulation :=
  { network
    machines := SortedMap.ofList (network.topology.devices.map fun d =>
      (d.id, Machine.ofDevice network d))
    generator := Generator.ofSeed seed }

def machine? (s : Simulation) (id : DeviceId) : Option Machine := s.machines.get? id

def pendingEvents (s : Simulation) : Nat := s.queue.size

/-! ## Time -/

/-- The time some duration from now. -/
def later (s : Simulation) (delay : Duration) : Except Overflow Duration :=
  match Duration.add? s.now delay with
  | some time => .ok time
  | none => .error ⟨s.log⟩

/-- Schedules a task of a device. -/
def schedule (s : Simulation) (device : DeviceId) (time : Duration) (task : Task) : Simulation :=
  { s with
    queue := s.queue.insert ⟨time, task.priority, device, s.scheduled + 1⟩ task
    scheduled := s.scheduled + 1 }

/-- Schedules a task some duration from now. -/
def scheduleAfter (s : Simulation) (device : DeviceId) (delay : Duration) (task : Task) :
    Except Overflow Simulation :=
  (s.later delay).map fun time => s.schedule device time task

/-- Schedules a task for the present instant. -/
def scheduleNow (s : Simulation) (device : DeviceId) (task : Task) : Simulation :=
  s.schedule device s.now task

/-- Takes a measurement. -/
def record (s : Simulation) (m : Metric) : Simulation := { s with log := m :: s.log }

/-- Changes the statistics. -/
def count (s : Simulation) (f : Statistics → Statistics) : Simulation :=
  { s with statistics := f s.statistics }

/-- What a simulation schedules is in its queue, at a key of its own. -/
theorem schedule_queue (s : Simulation) (device : DeviceId) (time : Duration) (task : Task) :
    (s.schedule device time task).queue.get? ⟨time, task.priority, device, s.scheduled + 1⟩
      = some task :=
  SortedMap.get?_insert_self _ _ _

theorem scheduleAfter_ok_cases {s s' : Simulation} {device : DeviceId} {delay : Duration}
    {task : Task} (h : s.scheduleAfter device delay task = .ok s') :
    s.now + delay < Duration.limit ∧ s' = s.schedule device (s.now + delay) task := by
  unfold scheduleAfter later at h
  cases ht : Duration.add? s.now delay with
  | none => simp [ht, Except.map] at h
  | some time =>
    obtain ⟨hlt, rfl⟩ := Duration.add?_eq_some_iff.mp ht
    simp only [ht, Except.map, Except.ok.injEq] at h
    exact ⟨hlt, h.symm⟩

/-! ## Setup -/

/-- The application and the gateway of a sensor, if the sensor has a place in the simulation. -/
def placeForSensor (s : Simulation) (sensor : Sensor) : Except SetupError Machine :=
  if s.sensors.contains sensor.id then .error (.duplicateSensor sensor.id)
  else if sensor.interval = 0 then .error (.zeroInterval sensor.id)
  else
    match s.network.application? sensor.app with
    | none => .error (.unknownApplication sensor.app)
    | some app =>
      if (app.sensorEdge? sensor.tupleType).isNone then
        .error (.unknownSensorType sensor.app sensor.tupleType)
      else
        match s.machine? sensor.gateway with
        | none => .error (.unknownDevice sensor.gateway)
        | some gateway =>
          if (s.network.topology.orchestratorFor sensor.gateway).isNone then
            .error (.noOrchestrator sensor.gateway)
          else .ok gateway

/-- Attaches a sensor to its gateway, which gets the client module of the application. -/
def addSensor (s : Simulation) (sensor : Sensor) : Except SetupError Simulation :=
  match s.placeForSensor sensor with
  | .error e => .error e
  | .ok gateway =>
    match gateway.registerClient s.network sensor.app with
    | .error e => .error (.node e)
    | .ok gateway =>
      .ok { s with
        machines := s.machines.insert sensor.gateway gateway
        sensors := s.sensors.insert sensor.id sensor }

/-- Attaches an actuator to its device. -/
def addActuator (s : Simulation) (actuator : Actuator) : Except SetupError Simulation :=
  if s.actuators.contains actuator.id then .error (.duplicateActuator actuator.id)
  else if !s.network.applications.contains actuator.app then
    .error (.unknownApplication actuator.app)
  else
    match s.machine? actuator.device with
    | none => .error (.unknownDevice actuator.device)
    | some m =>
      let attached := m.attach
        { id := actuator.id, app := actuator.app, actuatorType := actuator.actuatorType }
      .ok { s with
        machines := s.machines.insert actuator.device attached
        actuators := s.actuators.insert actuator.id actuator }

theorem placeForSensor_ok_cases {s : Simulation} {sensor : Sensor} {m : Machine}
    (h : s.placeForSensor sensor = .ok m) :
    s.sensors.contains sensor.id = false ∧ s.machine? sensor.gateway = some m := by
  unfold placeForSensor at h
  split at h
  · simp at h
  · next hnew =>
    split at h
    · simp at h
    · split at h
      · simp at h
      · split at h
        · simp at h
        · split at h
          · simp at h
          · next gateway hm =>
            split at h
            · simp at h
            · exact ⟨by simpa using hnew, Except.ok.inj h ▸ hm⟩

theorem addSensor_ok_cases {s s' : Simulation} {sensor : Sensor}
    (h : s.addSensor sensor = .ok s') :
    ∃ m m', s.placeForSensor sensor = .ok m ∧ m.registerClient s.network sensor.app = .ok m'
      ∧ s' = { s with
          machines := s.machines.insert sensor.gateway m'
          sensors := s.sensors.insert sensor.id sensor } := by
  unfold addSensor at h
  split at h
  · simp at h
  · next m hm =>
    split at h
    · simp at h
    · next m' hm' => exact ⟨m, m', hm, hm', (Except.ok.inj h).symm⟩

theorem addActuator_ok_cases {s s' : Simulation} {actuator : Actuator}
    (h : s.addActuator actuator = .ok s') :
    s.actuators.contains actuator.id = false ∧ s.network.applications.contains actuator.app = true
      ∧ ∃ m, s.machine? actuator.device = some m ∧ s' = { s with
          machines := s.machines.insert actuator.device
            (m.attach ⟨actuator.id, actuator.app, actuator.actuatorType⟩)
          actuators := s.actuators.insert actuator.id actuator } := by
  unfold addActuator at h
  split at h
  · simp at h
  · next hd =>
    split at h
    · simp at h
    · next ha =>
      split at h
      · simp at h
      · next m hm =>
        exact ⟨by simpa using hd, by simpa using ha, m, hm, (Except.ok.inj h).symm⟩

end Simulation

end FogNet
