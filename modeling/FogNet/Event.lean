import FogNet.Message
import FogNet.Placement.Request
import FogNet.Topology.Device

/-!
# Events

Everything that can happen to a device. At one instant events are handled by priority: consequences
of what happened before come first, new input from outside comes last.
-/

namespace FogNet

/-! ## Priorities -/

/-- The classes of events at one instant, the most urgent first. -/
inductive Priority where
  /-- Consequences of what happened before, and commands between devices. -/
  | internal
  /-- What a device set a timer for. -/
  | timer
  /-- Arriving messages. -/
  | network
  /-- Emissions of sensors. -/
  | client
  deriving DecidableEq, Repr, Inhabited

namespace Priority

def name : Priority → String
  | internal => "internal"
  | timer => "timer"
  | network => "network"
  | client => "client"

def all : List Priority := [internal, timer, network, client]

/-- The place in the order of priorities. -/
def rank : Priority → Nat
  | internal => 0
  | timer => 1
  | network => 2
  | client => 3

theorem rank_injective {a b : Priority} (h : a.rank = b.rank) : a = b := by
  cases a <;> cases b <;> first | rfl | exact absurd h (by decide)

instance : Ord Priority := ⟨fun a b => compare a.rank b.rank⟩

instance : Std.TransOrd Priority := inferInstanceAs (Std.TransCmp (compareOn rank))

instance : Std.LawfulEqOrd Priority where
  eq_of_compare h := rank_injective (Std.LawfulEqOrd.eq_of_compare h)

end Priority

/-! ## Events -/

/-- What can happen to a device. -/
inductive Event where
  /-- It is time to place what is pending. -/
  | placementTimer
  /-- The transmission on a link is over. -/
  | linkFreed (link : LinkKind)
  /-- A message arrived, over a link or from an instance here. -/
  | messageArrived (message : Message)
  /-- A request was submitted to this orchestrator. -/
  | placementRequestSubmitted (request : Request)
  /-- A microservice is now hosted by a device. -/
  | serviceDiscoveryUpdate (microservice : Name) (host : DeviceId)
  | activateApplication (app : AppId)
  /-- The application may get its instances here. -/
  | applicationReady (app : AppId)
  /-- One instance is to be launched here. -/
  | launchMicroservice (app : AppId) (microservice : Name)

namespace Event

def priority : Event → Priority
  | placementTimer | linkFreed _ => .timer
  | messageArrived _ => .network
  | placementRequestSubmitted _ | serviceDiscoveryUpdate _ _ | activateApplication _
  | applicationReady _ | launchMicroservice _ _ => .internal

def isInternal (e : Event) : Bool := e.priority == .internal

def isNetwork (e : Event) : Bool := e.priority == .network

/-- The name of the kind of event. -/
def kindName : Event → String
  | placementTimer => "PlacementTimer"
  | linkFreed _ => "LinkFreed"
  | messageArrived _ => "MessageArrived"
  | placementRequestSubmitted _ => "PlacementRequestSubmitted"
  | serviceDiscoveryUpdate _ _ => "ServiceDiscoveryUpdate"
  | activateApplication _ => "ActivateApplication"
  | applicationReady _ => "ApplicationReady"
  | launchMicroservice _ _ => "LaunchMicroservice"

end Event

end FogNet
