import FogNet.Proofs.Topology.Ancestors
import Mathlib.Logic.Function.Iterate

/-!
# A domain is what is reached

A domain is found breadth first, and never twice the same device. It is all that child and cluster
links lead to, however often they come back, so what a device of a domain reaches belongs to the
domain as well. The search leaves every device of the domain once.

## Main statements

* `Searching.search` — a search meets only what is reached, each device once, the root first
* `mem_domain_iff` — and all that is reached
* `turns_search` — how many turns it takes
* `domain_reaches` — all of them for a declared root
-/

namespace FogNet

open Relation

namespace Layout

variable {l : Layout} {root d : DeviceId} {met todo : List DeviceId}

/-- A link leads down to a child, or sideways to a sibling. -/
def LeadsTo (l : Layout) (d c : DeviceId) : Prop := c ∈ l.children d ∨ c ∈ l.siblings d

theorem mem_branches {c : DeviceId} : c ∈ l.branches d ↔ l.LeadsTo d c := List.mem_append

/-- What holds of a search from a root at any moment. -/
structure Searching (l : Layout) (root : DeviceId) (met todo : List DeviceId) : Prop where
  first : met.head? = some root
  nodup : met.Nodup
  reached : ∀ d ∈ met, ReflTransGen l.LeadsTo root d
  todo_met : todo ⊆ met

namespace Searching

theorem start (l : Layout) (root : DeviceId) : l.Searching root [root] [root] where
  first := rfl
  nodup := List.nodup_singleton root
  reached _ hd := List.mem_singleton.mp hd ▸ .refl
  todo_met := fun _ hd => hd

/-- What is fresh is reached over the device that is left. -/
theorem step (h : l.Searching root met (d :: todo)) :
    l.Searching root (met ++ l.fresh met d) (todo ++ l.fresh met d) where
  first := by
    have hmet : met ≠ [] := List.ne_nil_of_mem (h.todo_met List.mem_cons_self)
    rw [List.head?_append_of_ne_nil _ hmet, h.first]
  nodup := by
    refine List.nodup_append.mpr ⟨h.nodup, l.fresh_nodup met d, ?_⟩
    intro c hc c' hc' he
    exact (mem_fresh hc').2 (he ▸ hc)
  reached c hc := by
    rcases List.mem_append.mp hc with hc | hc
    · exact h.reached c hc
    · exact (h.reached d (h.todo_met List.mem_cons_self)).tail (mem_branches.mp (mem_fresh hc).1)
  todo_met := List.append_subset.mpr
    ⟨fun _ hc => List.mem_append_left _ (h.todo_met (List.mem_cons_of_mem _ hc)),
      List.subset_append_right _ _⟩

/-- A search meets only what is reached, each device once, the root first. -/
theorem search (h : l.Searching root met todo) : l.Searching root (l.search met todo) [] := by
  fun_induction Layout.search l met todo with
  | case1 => exact h
  | case2 met id rest ih => exact ih h.step

end Searching

/-! ## Domains -/

theorem searching_domain (hroot : l.contains root = true) :
    l.Searching root (l.domain root) [] := by
  rw [domain, if_pos hroot]
  exact (Searching.start l root).search

theorem mem_domain_iff (hroot : l.contains root = true) :
    d ∈ l.domain root ↔ ReflTransGen l.LeadsTo root d := by
  constructor
  · exact (searching_domain hroot).reached d
  · intro h
    induction h with
    | refl => exact mem_domain_self hroot
    | tail _ hc ih => exact branches_subset_domain ih (mem_branches.mpr hc)

/-- What is reached from a device of a domain belongs to the domain. -/
theorem domain_subset_domain (hroot : l.contains root = true) (hd : d ∈ l.domain root) :
    l.domain d ⊆ l.domain root := by
  intro c hc
  have hdeclared : l.contains d = true := contains_iff.mpr (l.domain_subset root hd)
  rw [mem_domain_iff hroot] at hd ⊢
  exact hd.trans ((mem_domain_iff hdeclared).mp hc)

/-! ## The end of the search -/

/-- One turn of the search: the first device that is to be left is left. -/
def leave (l : Layout) : List DeviceId × List DeviceId → List DeviceId × List DeviceId
  | (met, []) => (met, [])
  | (met, id :: rest) => (met ++ l.fresh met id, rest ++ l.fresh met id)

/-- A search takes a turn for each device that is to be left, and for each one that it meets. -/
theorem turns_search (l : Layout) (met todo : List DeviceId) :
    ∃ turns : Nat, l.leave^[turns] (met, todo) = (l.search met todo, []) ∧
      turns + met.length = (l.search met todo).length + todo.length := by
  fun_induction search l met todo with
  | case1 met => exact ⟨0, rfl, Nat.add_comm _ _⟩
  | case2 met id rest ih =>
    obtain ⟨turns, hturns, hlen⟩ := ih
    refine ⟨turns + 1, ?_, ?_⟩
    · rw [Function.iterate_succ_apply, leave, hturns]
    · simp only [List.length_append, List.length_cons] at hlen ⊢
      omega

/--
A domain is its root, followed by all other devices that child and cluster links lead to, each of
them once; a domain that a device belongs to has all that the domain of the device has. The search
ends, and takes one turn for each device of the domain.
-/
theorem domain_reaches (l : Layout) (root : DeviceId) (hroot : l.contains root = true) :
    (l.domain root).head? = some root ∧ (l.domain root).Nodup ∧
      (∀ d, d ∈ l.domain root ↔ ReflTransGen l.LeadsTo root d) ∧
      (∀ d ∈ l.domain root, l.domain d ⊆ l.domain root) ∧
      l.leave^[(l.domain root).length] ([root], [root]) = (l.domain root, []) := by
  have hsearch := searching_domain hroot
  refine ⟨hsearch.first, hsearch.nodup, fun _ => mem_domain_iff hroot,
    fun _ => domain_subset_domain hroot, ?_⟩
  obtain ⟨turns, hturns, hlen⟩ := l.turns_search [root] [root]
  rw [domain, if_pos hroot, ← Nat.add_right_cancel hlen]
  exact hturns

/-- Two data centres that form a cluster, each with a gateway below it. -/
def twins : Layout :=
  { devices := [
      { id := 1, name := "dc-a", role := .cloud, capacity := { cpuMips := 100 } },
      { id := 2, name := "dc-b", role := .cloud, capacity := { cpuMips := 100 } },
      { id := 3, name := "gw-a", role := .fcn, parent := some 1, capacity := { cpuMips := 10 } },
      { id := 4, name := "gw-b", role := .fcn, parent := some 2, capacity := { cpuMips := 10 } }]
    levels := ["dc"] }

theorem domain_reaches_twins : twins.contains 1 = true ∧ twins.domain 1 = [1, 3, 2, 4] ∧
    ReflTransGen twins.LeadsTo 1 4 ∧ twins.domain 2 ⊆ twins.domain 1 ∧
    twins.leave^[4] ([1], [1]) = ([1, 3, 2, 4], []) := by
  have hroot : twins.contains 1 = true := by decide +kernel
  have hdomain : twins.domain 1 = [1, 3, 2, 4] := by decide +kernel
  obtain ⟨_, _, hmem, hsub, hturns⟩ := domain_reaches twins 1 hroot
  rw [hdomain] at hmem hsub hturns
  exact ⟨hroot, hdomain, (hmem 4).mp (by decide), hdomain ▸ hsub 2 (by decide), hturns⟩

end Layout

end FogNet
