/-!
# Why messages are dropped

Drops are counted by reason, and listed in the order of the reasons below: the order in which
dispatch can come to them.
-/

namespace FogNet

/-- Why a message ended without being processed. -/
inductive DropReason where
  /-- No device is known for the destination. -/
  | unresolvable
  /-- The destination is here, but has no instance here. -/
  | noInstance
  /-- The message is pinned to an instance that is not here. -/
  | stalePin
  /-- There is no route to the destination. -/
  | missingRoute
  /-- The next device on the route is no neighbour. -/
  | notAdjacent
  /-- No actuator here takes the message. -/
  | noActuator
  deriving DecidableEq, Repr, Inhabited

namespace DropReason

def name : DropReason → String
  | unresolvable => "unresolvable"
  | noInstance => "no_instance"
  | stalePin => "stale_pin"
  | missingRoute => "missing_route"
  | notAdjacent => "not_adjacent"
  | noActuator => "no_actuator"

/-- The place in the order of reasons. -/
def rank : DropReason → Nat
  | unresolvable => 0
  | noInstance => 1
  | stalePin => 2
  | missingRoute => 3
  | notAdjacent => 4
  | noActuator => 5

theorem rank_injective {a b : DropReason} (h : a.rank = b.rank) : a = b := by
  cases a <;> cases b <;> first | rfl | exact absurd h (by decide)

instance : Ord DropReason := ⟨fun a b => compare a.rank b.rank⟩

instance : Std.TransOrd DropReason := inferInstanceAs (Std.TransCmp (compareOn rank))

instance : Std.LawfulEqOrd DropReason where
  eq_of_compare h := rank_injective (Std.LawfulEqOrd.eq_of_compare h)

end DropReason

end FogNet
