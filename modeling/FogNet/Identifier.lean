/-!
# Identifiers and words

The identifiers that devices, messages and the rest of the network are known by, and the error for
a word that names none of the roles, strategies or directions.
-/

namespace FogNet

abbrev DeviceId := Nat

abbrev MessageId := Nat

abbrev RequestId := Nat

abbrev SensorId := Nat

abbrev ActuatorId := Nat

/-- The owner of an application. -/
abbrev UserId := Nat

/-- A loop of an application, by its place in the application's list of loops. -/
abbrev LoopId := Nat

abbrev AppId := String

/-- The name of a microservice. -/
abbrev Name := String

/-- The tuple type that a message carries and an edge expects. -/
abbrev TupleType := String

/-- One launched instance: the hosting device and its launch number there. -/
structure InstanceId where
  device : DeviceId
  serial : Nat
  deriving DecidableEq, Repr, Inhabited

namespace InstanceId

def text (i : InstanceId) : String := toString i.device ++ "#" ++ toString i.serial

end InstanceId

/-! ## Words -/

/-- A word that names nothing of its kind. -/
inductive UnknownWord where
  | role (word : String)
  | strategy (word : String)
  | direction (word : String)
  deriving DecidableEq, Repr

namespace UnknownWord

def message : UnknownWord → String
  | role word => "Unknown device role: " ++ word
  | strategy word => "Unknown placement strategy: " ++ word
  | direction word => "Unknown message direction: " ++ word

end UnknownWord

/-- The word with its ASCII capitals made small; other characters stay. -/
def asciiLowercase (word : String) : String := word.map Char.toLower

end FogNet
