import FogNet.Identifier
import FogNet.Duration

/-!
# Sensors and actuators

Where messages come from and where the loops of an application end. Both are attached to a device
and belong to one application.
-/

namespace FogNet

/-- A source that emits a message in regular intervals. -/
structure Sensor where
  id : SensorId
  /-- The device the sensor is attached to, which also hosts the client module. -/
  gateway : DeviceId
  app : AppId
  tupleType : TupleType
  /-- The time between two emissions; the first comes one interval after the start. -/
  interval : Duration := Duration.ofSeconds 5
  /-- The latency from the sensor to its gateway. -/
  latency : Duration := Duration.ofMillis 6
  deriving DecidableEq, Repr

/-- A sink for messages. -/
structure Actuator where
  id : ActuatorId
  device : DeviceId
  app : AppId
  actuatorType : Name
  /-- The latency from the device to the actuator. -/
  latency : Duration := Duration.ofMillis 1
  deriving DecidableEq, Repr

end FogNet
