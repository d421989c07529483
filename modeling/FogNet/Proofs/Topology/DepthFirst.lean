import FogNet.Topology.Domain
import Mathlib.Data.List.Basic
import Mathlib.Logic.Function.Iterate

/-!
# The search for the paths from the leaves is a recursion

The paths from the leaves are found with a stack of devices that are still to be expanded. What is
found for one of them is settled before the next one is looked at: the paths through the children
in their order, over and over, with nothing in between. So the search is the recursion
`pathsThrough`, which proofs about the paths follow.

## Main statements

* `collect_eq` — a search finds the paths through what is on its stack, from the top on
* `exists_turns` — it comes to an end
* `leafPaths_eq` — the paths from the leaves are those through the root
-/

namespace FogNet

namespace Layout

variable {l : Layout}

/-! ## The recursion -/

/-- The paths from the leaves below `id` up to `id` and on along `up`, depth first. -/
def pathsThrough (l : Layout) (id : DeviceId) (up : List DeviceId) : List (List DeviceId) :=
  if (l.children id).isEmpty then [id :: up]
  else (l.childrenOff id (id :: up)).attach.flatMap fun c => l.pathsThrough c.1 (id :: up)
termination_by remaining l.ids (id :: up)
decreasing_by
  have hc := c.2
  simp only [childrenOff, List.mem_filter, Bool.not_eq_eq_eq_not, Bool.not_true,
    List.contains_eq_mem, decide_eq_false_iff_not] at hc
  exact remaining_lt (fun x hx => List.mem_cons_of_mem _ hx) ((l.children_sublist id).subset hc.1)
    hc.2 List.mem_cons_self

theorem pathsThrough_leaf {id : DeviceId} {up : List DeviceId}
    (h : (l.children id).isEmpty = true) : l.pathsThrough id up = [id :: up] := by
  rw [pathsThrough, if_pos h]

theorem pathsThrough_inner {id : DeviceId} {up : List DeviceId}
    (h : ¬ (l.children id).isEmpty = true) :
    l.pathsThrough id up =
      (l.childrenOff id (id :: up)).flatMap fun c => l.pathsThrough c (id :: up) := by
  rw [pathsThrough, if_neg h]
  exact congrArg List.flatten
    (List.attach_map_val (f := fun c => l.pathsThrough c (id :: up)))

/-! ## The stack -/

namespace Descent

/-- The devices above the one that is to be expanded, from the nearest one on. -/
def up (d : Descent) : List DeviceId := d.path.tail

/-- The way down to a device ends with the device. -/
def Arrives (d : Descent) : Prop := d.down.getLast? = some d.device

theorem Arrives.path_eq {d : Descent} (h : d.Arrives) : d.path = d.device :: d.up := by
  rw [Arrives, ← List.head?_reverse] at h
  exact (List.cons_head?_tail h).symm

theorem arrives_child (down : List DeviceId) (c : DeviceId) : Arrives ⟨c, down ++ [c]⟩ :=
  List.getLast?_concat

theorem up_child (d : Descent) (c : DeviceId) : up ⟨c, d.down ++ [c]⟩ = d.path := by
  simp [up, path]

end Descent

theorem childrenOff_path (id : DeviceId) (d : Descent) :
    l.childrenOff id d.path = l.childrenOff id d.down := by
  simp [childrenOff, Descent.path]

/-- A search finds the paths through what is on its stack, from the top on. -/
theorem collect_eq {found : List (List DeviceId)} {stack : List Descent}
    (h : ∀ d ∈ stack, d.Arrives) :
    l.collect found stack = found ++ stack.flatMap fun d => l.pathsThrough d.device d.up := by
  fun_induction collect l found stack with
  | case1 found => simp
  | case2 found d rest hleaf ih =>
    rw [ih fun e he => h e (List.mem_cons_of_mem _ he), List.flatMap_cons, pathsThrough_leaf hleaf,
      (h d List.mem_cons_self).path_eq, List.append_assoc]
  | case3 found d rest hinner ih =>
    have hd := h d List.mem_cons_self
    have hrest : ∀ e ∈ l.expand d rest, e.Arrives := by
      intro e he
      rw [expand_eq] at he
      rcases List.mem_append.mp he with he | he
      · obtain ⟨c, _, rfl⟩ := List.mem_map.mp he
        exact Descent.arrives_child _ c
      · exact h e (List.mem_cons_of_mem _ he)
    have hthrough : l.pathsThrough d.device d.up =
        (l.childrenOff d.device d.down).flatMap fun c => l.pathsThrough c d.path := by
      rw [pathsThrough_inner hinner, ← hd.path_eq, childrenOff_path]
    -- The children lie on the stack in the order in which the recursion goes through them.
    rw [ih hrest, expand_eq, List.flatMap_append, List.flatMap_map, List.flatMap_cons, hthrough]
    simp only [Descent.up_child]

/-! ## The end of the search -/

/-- One turn of the search: the device on top of the stack is a leaf, or is expanded. -/
def turn (l : Layout) : List (List DeviceId) × List Descent → List (List DeviceId) × List Descent
  | (found, []) => (found, [])
  | (found, d :: rest) =>
    if (l.children d.device).isEmpty then (found ++ [d.path], rest) else (found, l.expand d rest)

/-- After enough turns the stack is empty, and what is found is all that is collected. -/
theorem exists_turns (l : Layout) (found : List (List DeviceId)) (stack : List Descent) :
    ∃ turns : Nat, l.turn^[turns] (found, stack) = (l.collect found stack, []) := by
  fun_induction collect l found stack with
  | case1 found => exact ⟨0, rfl⟩
  | case2 found d rest hleaf ih =>
    obtain ⟨turns, hturns⟩ := ih
    refine ⟨turns + 1, ?_⟩
    rw [Function.iterate_succ_apply, turn, if_pos hleaf, hturns]
  | case3 found d rest hinner ih =>
    obtain ⟨turns, hturns⟩ := ih
    refine ⟨turns + 1, ?_⟩
    rw [Function.iterate_succ_apply, turn, if_neg hinner, hturns]

/-! ## The paths -/

/-- The paths from the leaves are those through the root. -/
theorem leafPaths_eq (l : Layout) (root : DeviceId) :
    l.leafPaths root = if l.contains root then l.pathsThrough root [] else [] := by
  have harrives : ∀ d ∈ [(⟨root, [root]⟩ : Descent)], d.Arrives :=
    fun d hd => List.mem_singleton.mp hd ▸ Descent.arrives_child [] root
  rw [leafPaths, collect_eq harrives]
  simp [Descent.up, Descent.path]

end Layout

end FogNet
