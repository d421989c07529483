import FogNet.Identifier
import FogNet.SortedMap

/-!
# Placement requests and their results
-/

namespace FogNet

/-- Where microservices are, or are to be, by name. -/
abbrev Assignment := SortedMap Name DeviceId

/-- The wish to place the microservices of an application for one point of ingress. -/
structure Request where
  id : RequestId
  app : AppId
  /-- The device that the request comes from. -/
  gateway : DeviceId
  /-- What is placed before placement begins. -/
  placed : Assignment := SortedMap.empty

/-- An assignment for each request that could be placed completely. -/
abbrev Placement := SortedMap RequestId Assignment

/-- One instance that placement decided on, and the request it is for. -/
structure Slot where
  request : RequestId
  app : AppId
  microservice : Name
  deriving DecidableEq, Repr

namespace Slot

def text (s : Slot) : String := toString s.request ++ "_" ++ s.app ++ "_" ++ s.microservice

end Slot

end FogNet
