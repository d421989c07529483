import FogNet.Identifier
import FogNet.SortedMap

/-!
# Discovery and load balancing

A device learns from placement which devices host a microservice, and chooses among the hosts in
turns. A host that is announced again gets one more turn in each round.

## Main statements

* `hosts_add` — an announcement comes last among those of its microservice
* `choose_eq_none_iff` — only a microservice without hosts finds none
* `choose_mem` — the chosen device is a host
-/

namespace FogNet

/-! ## Directories -/

/-- What a device was told about who hosts what. -/
structure Directory where
  /-- Every announcement, oldest first. -/
  announcements : List (Name × DeviceId) := []
  deriving DecidableEq, Repr, Inhabited

namespace Directory

def isEmpty (d : Directory) : Bool := d.announcements.isEmpty

def add (d : Directory) (microservice : Name) (host : DeviceId) : Directory :=
  ⟨d.announcements ++ [(microservice, host)]⟩

/-- The hosts of a microservice in the order of their announcements, with repetitions. -/
def hosts (d : Directory) (microservice : Name) : List DeviceId :=
  (d.announcements.filter fun a => a.1 == microservice).map Prod.snd

/-- An announcement comes last among those of its microservice. -/
theorem hosts_add (d : Directory) (microservice other : Name) (host : DeviceId) :
    (d.add microservice host).hosts other
      = d.hosts other ++ if microservice = other then [host] else [] := by
  by_cases h : microservice = other <;> simp [hosts, add, List.filter_append, h]

end Directory

/-! ## Turns -/

/-- Whose turn it was last, by microservice. -/
structure Turns where
  last : SortedMap Name Nat := SortedMap.empty

namespace Turns

/-- The turn after the last one among `count` hosts: the first to begin with and after a round. -/
def next (last : Option Nat) (count : Nat) : Nat :=
  match last with
  | none => 0
  | some i => if count ≤ i + 1 then 0 else i + 1

theorem next_lt (last : Option Nat) {count : Nat} (h : 0 < count) : next last count < count := by
  unfold next
  split
  · exact h
  · split <;> omega

/-- The host whose turn it is, if there is one, and the turns after it was chosen. -/
def choose (t : Turns) (d : Directory) (microservice : Name) : Option (DeviceId × Turns) :=
  let hosts := d.hosts microservice
  let turn := next (t.last.get? microservice) hosts.length
  (hosts[turn]?).map fun host => (host, ⟨t.last.insert microservice turn⟩)

/-- Only a microservice without hosts finds none. -/
theorem choose_eq_none_iff (t : Turns) (d : Directory) (microservice : Name) :
    t.choose d microservice = none ↔ d.hosts microservice = [] := by
  simp only [choose, Option.map_eq_none_iff, List.getElem?_eq_none_iff]
  constructor
  · intro h
    by_cases hpos : 0 < (d.hosts microservice).length
    · exact absurd (next_lt (t.last.get? microservice) hpos) (by omega)
    · exact List.length_eq_zero_iff.mp (by omega)
  · intro h
    simp [h]

/-- The chosen device is a host. -/
theorem choose_mem {t t' : Turns} {d : Directory} {microservice : Name} {host : DeviceId}
    (h : t.choose d microservice = some (host, t')) : host ∈ d.hosts microservice := by
  simp only [choose, Option.map_eq_some_iff, Prod.mk.injEq] at h
  obtain ⟨x, hx, rfl, _⟩ := h
  exact List.mem_of_getElem? hx

end Turns

end FogNet
