import FogNet.Identifier
import FogNet.SortedMap
import FogNet.Duration

/-!
# Messages

A message carries data along an edge of an application. Besides its addressing it keeps a ledger of
the places where it, and the messages it descends from, were processed, and the instances that
processed them. A response finds its way back through them.

## Main statements

* `deviceFor_recordTraversal` — the ledger answers with the latest place
* `pin?_setPin` — what is pinned after a pin was set
-/

namespace FogNet

/-- The way a message travels. -/
inductive Direction where
  /-- Towards the cloud. -/
  | up
  /-- Towards the edge. -/
  | down
  /-- To an actuator attached to the device where the message is. -/
  | actuator
  deriving DecidableEq, Repr, Inhabited

namespace Direction

def name : Direction → String
  | up => "up"
  | down => "down"
  | actuator => "actuator"

def all : List Direction := [up, down, actuator]

/-- The direction a word names; capitals do not matter. -/
def parse (word : String) : Except UnknownWord Direction :=
  match asciiLowercase word with
  | "up" => .ok up
  | "down" => .ok down
  | "actuator" => .ok actuator
  | _ => .error (.direction word)

end Direction

/-- A unit of application data on its way. -/
structure Message where
  id : MessageId
  app : AppId
  user : UserId
  tupleType : TupleType
  direction : Direction
  source : Name
  destination : Name
  /-- Processing demand, in million instructions. -/
  cpuLength : Nat := 0
  /-- Size on the network, in bytes. -/
  size : Nat := 0
  outputSize : Nat := 0
  /-- The device that resolved the destination. -/
  sourceDevice : Option DeviceId := none
  /-- The device the message travels to, once it is resolved. -/
  destinationDevice : Option DeviceId := none
  /-- The one actuator the message is for, if it is for one only. -/
  actuator : Option ActuatorId := none
  /-- The sensor message that the message descends from. -/
  root : MessageId := id
  /-- When that sensor message was emitted. -/
  emittedAt : Duration := 0
  /-- Where the message and its ancestors were processed, oldest first. -/
  traversed : List (DeviceId × Name) := []
  /-- The instances that processed them, by microservice. -/
  pins : SortedMap Name InstanceId := SortedMap.empty

namespace Message

/-- Notes that a microservice on a device processed the message. -/
def recordTraversal (m : Message) (device : DeviceId) (microservice : Name) : Message :=
  { m with traversed := m.traversed ++ [(device, microservice)] }

/-- The device where a microservice was last processed. -/
def deviceFor (m : Message) (microservice : Name) : Option DeviceId :=
  (m.traversed.reverse.find? fun place => place.2 == microservice).map Prod.fst

/-- The instance pinned for a microservice. -/
def pin? (m : Message) (microservice : Name) : Option InstanceId := m.pins.get? microservice

def setPin (m : Message) (microservice : Name) (target : InstanceId) : Message :=
  { m with pins := m.pins.insert microservice target }

/-- Takes over the ledger, the pins and the root of a parent message. -/
def inherit (m parent : Message) : Message :=
  { m with
    traversed := parent.traversed
    pins := parent.pins
    root := parent.root
    emittedAt := parent.emittedAt }

/-- The ledger answers with the latest place. -/
theorem deviceFor_recordTraversal (m : Message) (device : DeviceId) (microservice other : Name) :
    (m.recordTraversal device microservice).deviceFor other
      = if microservice = other then some device else m.deviceFor other := by
  by_cases h : microservice = other <;> simp [recordTraversal, deviceFor, h]

theorem pin?_setPin (m : Message) (microservice other : Name) (target : InstanceId) :
    (m.setPin microservice target).pin? other
      = if other = microservice then some target else m.pin? other :=
  m.pins.get?_insert microservice other target

end Message

end FogNet
