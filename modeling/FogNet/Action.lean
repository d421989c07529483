import FogNet.Drop
import FogNet.Event

/-!
# Actions

A device answers an event with actions: commands that are carried out for it.
-/

namespace FogNet

/-- What a device sets a timer for. -/
inductive Timer where
  /-- The next placement cycle. -/
  | placementCycle
  /-- The end of the transmission on a link. -/
  | linkFree (link : LinkKind)
  deriving DecidableEq, Repr

namespace Timer

def name : Timer → String
  | placementCycle => "placement_cycle"
  | linkFree link => "link_free:" ++ link.name

/-- What happens when the timer fires. -/
def event : Timer → Event
  | placementCycle => .placementTimer
  | linkFree link => .linkFreed link

end Timer

/-- A command of a device. -/
inductive Action where
  /-- Put a message on a link. It arrives after the transmission and the latency of the link. -/
  | transmit (target : DeviceId) (link : LinkKind) (message : Message)
      (transmission latency : Duration)
  /-- Let an event happen to a device, without delay. -/
  | deliver (target : DeviceId) (event : Event)
  | setTimer (timer : Timer) (duration : Duration)
  /-- Let an event happen to this device, without delay. -/
  | enqueueInternal (event : Event)
  /-- Let an instance process a message. -/
  | execute (target : InstanceId) (message : Message)
  | deliverToActuator (actuator : ActuatorId) (message : Message)
  | recordDrop (message : MessageId) (reason : DropReason)
  | recordCloudTraffic (message : MessageId)

namespace Action

/-- The name of the kind of action. -/
def kindName : Action → String
  | transmit .. => "Transmit"
  | deliver .. => "Deliver"
  | setTimer .. => "SetTimer"
  | enqueueInternal .. => "EnqueueInternal"
  | execute .. => "Execute"
  | deliverToActuator .. => "DeliverToActuator"
  | recordDrop .. => "RecordDrop"
  | recordCloudTraffic .. => "RecordCloudTraffic"

end Action

end FogNet
