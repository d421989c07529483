import FogNet.Proofs.Topology.Ancestors
import FogNet.Proofs.Topology.Relaxation
import Mathlib.Data.List.Infix

/-!
# The paths from the leaves below a root

Every leaf of a tree has one path, which follows its parents up to the root and ends there. The
paths of a device are those of its children, one child after the other and each extended by the
device: in a tree nothing is met twice on a way down, so the search cuts nothing off. So the paths
over one device stand together.

## Main statements

* `Forest.pathsThrough_append` — what is above a device is appended to its paths
* `Forest.leafPaths_children` — the paths of a device are those of its children, extended by it
* `Forest.leafPath_prefix` — a path is the beginning of the chain of its leaf
* `Forest.leafPaths_block` — the paths over one device stand together
* `Topology.leafPaths_depthFirst` — all of them for a declared root, and that the search ends
-/

namespace FogNet

open Relation

/-- What may not be interrupted stands together. -/
theorem exists_block {α : Type} {P : α → Prop} [DecidablePred P] : ∀ {xs : List α},
    xs.Triplewise (fun x y z => P x → P z → P y) → ∃ before block after,
      xs = before ++ block ++ after ∧ (∀ x ∈ block, P x) ∧ ∀ x ∈ before ++ after, ¬ P x
  | [], _ => ⟨[], [], [], rfl, by simp, by simp⟩
  | x :: xs, h => by
    obtain ⟨hpair, htriple⟩ := List.triplewise_cons.mp h
    obtain ⟨before, block, after, rfl, hblock, hrest⟩ := exists_block htriple
    by_cases hx : P x
    · cases block with
      | nil => exact ⟨[], [x], before ++ after, by simp, by simpa using hx, by simpa using hrest⟩
      | cons z block =>
        -- Whatever stood between the two would be part of the block.
        have hnone : before = [] := by
          refine List.eq_nil_iff_forall_not_mem.mpr fun y hy => ?_
          refine hrest y (List.mem_append_left _ hy) ?_
          rw [List.append_assoc, List.pairwise_append] at hpair
          exact hpair.2.2 y hy z (by simp) hx (hblock z List.mem_cons_self)
        subst hnone
        exact ⟨[], x :: z :: block, after, rfl, List.forall_mem_cons.mpr ⟨hx, hblock⟩, hrest⟩
    · exact ⟨x :: before, block, after, rfl, hblock, List.forall_mem_cons.mpr ⟨hx, hrest⟩⟩

namespace Layout

variable {l : Layout} {root id leaf : DeviceId} {up p : List DeviceId}

namespace Forest

/-! ## Children -/

/-- Of the children of a device none is above it, so the search goes on to all of them. -/
theorem childrenOff_eq (h : l.Forest) {met : List DeviceId}
    (hmet : ∀ d ∈ met, (l.chain d).length ≤ (l.chain id).length) :
    l.childrenOff id met = l.children id := by
  refine List.filter_eq_self.mpr fun c hc => ?_
  have hlt := h.depth_parent?_lt (h.mem_children_iff.mp hc)
  have hnot : c ∉ met := fun hc => Nat.not_le.mpr hlt (hmet c hc)
  simpa using hnot

/-- What is above a device is appended to its paths. -/
theorem pathsThrough_append (h : l.Forest) (above : List DeviceId)
    (hup : ∀ d ∈ up ++ above, (l.chain d).length ≤ (l.chain id).length) :
    l.pathsThrough id (up ++ above) = (l.pathsThrough id up).map (· ++ above) := by
  induction id, up using pathsThrough.induct l with
  | case1 id up hleaf => rw [pathsThrough_leaf hleaf, pathsThrough_leaf hleaf]; rfl
  | case2 id up hinner ih =>
    have hmet : ∀ d ∈ id :: (up ++ above), (l.chain d).length ≤ (l.chain id).length :=
      List.forall_mem_cons.mpr ⟨Nat.le_refl _, hup⟩
    have hmet' : ∀ d ∈ id :: up, (l.chain d).length ≤ (l.chain id).length :=
      fun d hd => hmet d (List.mem_append_left above hd)
    -- Neither way down leads over a child of the device, so both searches go on to all of them.
    have hall := h.childrenOff_eq hmet'
    rw [pathsThrough_inner hinner, pathsThrough_inner hinner, h.childrenOff_eq hmet, hall,
      List.map_flatMap]
    refine List.flatMap_congr fun c hc => ?_
    have hlt := h.depth_parent?_lt (h.mem_children_iff.mp hc)
    exact ih ⟨c, hall.symm ▸ hc⟩ fun d hd => Nat.le_trans (hmet d hd) (Nat.le_of_lt hlt)

/-! ## Paths -/

/-- The paths of a device are those of its children, one after the other, extended by it. -/
theorem leafPaths_children (h : l.Forest) (hroot : l.contains root = true) :
    l.leafPaths root = if l.children root = [] then [[root]]
      else (l.children root).flatMap fun c => (l.leafPaths c).map (· ++ [root]) := by
  rw [leafPaths_eq, if_pos hroot]
  split
  · next hleaf => exact pathsThrough_leaf (List.isEmpty_iff.mpr hleaf)
  · next hinner =>
    have hself : ∀ d ∈ [root], (l.chain d).length ≤ (l.chain root).length :=
      fun d hd => Nat.le_of_eq (congrArg (fun d => (l.chain d).length) (List.mem_singleton.mp hd))
    rw [pathsThrough_inner (fun hleaf => hinner (List.isEmpty_iff.mp hleaf)),
      h.childrenOff_eq hself]
    refine List.flatMap_congr fun c hc => ?_
    have hlt := h.depth_parent?_lt (h.mem_children_iff.mp hc)
    rw [leafPaths_eq, if_pos (contains_iff.mpr ((l.children_sublist root).subset hc))]
    have happend : l.pathsThrough c ([] ++ [root]) = (l.pathsThrough c []).map (· ++ [root]) :=
      h.pathsThrough_append [root] fun d hd => Nat.le_trans (hself d hd) (Nat.le_of_lt hlt)
    exact happend

/-- A path starts at a leaf. -/
theorem pathsThrough_head (hp : p ∈ l.pathsThrough id up) :
    ∃ leaf, p.head? = some leaf ∧ l.children leaf = [] := by
  induction id, up using pathsThrough.induct l with
  | case1 id up hleaf =>
    rw [pathsThrough_leaf hleaf] at hp
    exact ⟨id, List.mem_singleton.mp hp ▸ rfl, List.isEmpty_iff.mp hleaf⟩
  | case2 id up hinner ih =>
    rw [pathsThrough_inner hinner] at hp
    obtain ⟨c, hc, hp⟩ := List.mem_flatMap.mp hp
    exact ih ⟨c, hc⟩ hp

/-- A path goes from child to parent. -/
theorem pathsThrough_isChain (h : l.Forest) (hup : (id :: up).IsChain l.Under)
    (hp : p ∈ l.pathsThrough id up) : p.IsChain l.Under := by
  induction id, up using pathsThrough.induct l with
  | case1 id up hleaf =>
    rw [pathsThrough_leaf hleaf] at hp
    exact List.mem_singleton.mp hp ▸ hup
  | case2 id up hinner ih =>
    rw [pathsThrough_inner hinner] at hp
    obtain ⟨c, hc, hp⟩ := List.mem_flatMap.mp hp
    exact ih ⟨c, hc⟩ (hup.cons_cons (h.parent?_of_mem_childrenOff hc)) hp

/-- Going from child to parent follows the chain of the device that it starts from. -/
theorem prefix_chain (h : l.Forest) : ∀ {p : List DeviceId} {a : DeviceId}, a ∈ l.ids →
    (a :: p).IsChain l.Under → (a :: p) <+: (l.chain a).map Device.id
  | [], a, ha, _ => by
    obtain ⟨d, hd, _, rfl⟩ := exists_device ha
    rw [h.chain_eq hd, List.map_cons]
    exact List.prefix_append [d.id] _
  | b :: p, a, ha, hchain => by
    obtain ⟨hp, hrest⟩ := List.isChain_cons_cons.mp hchain
    obtain ⟨d, hd, hdp⟩ := parent?_eq_some.mp hp
    obtain ⟨e, he⟩ := h.parent_device hd hdp
    have hb := device?_isSome_iff.mp (Option.isSome_of_mem he)
    rw [h.chain_parent hd hdp, List.map_cons, (device?_some hd).2]
    exact List.cons_prefix_cons.mpr ⟨rfl, h.prefix_chain hb hrest⟩

/-- The leaves that have a path are those below the root. -/
theorem exists_leafPath_iff (h : l.Forest) (hroot : l.contains root = true) :
    (∃ p ∈ l.leafPaths root, p.head? = some leaf) ↔
      l.children leaf = [] ∧ ReflTransGen l.Under leaf root := by
  constructor
  · rintro ⟨p, hp, hhead⟩
    have habove := (h.leafPaths_ascends hp).onWay_root (List.mem_of_mem_head? hhead)
    rw [leafPaths_eq, if_pos hroot] at hp
    obtain ⟨leaf', hhead', hleaf⟩ := pathsThrough_head hp
    obtain rfl : leaf' = leaf := Option.some.inj (hhead'.symm.trans hhead)
    exact ⟨hleaf, onWay_iff_above.mp habove⟩
  · exact fun ⟨hleaf, habove⟩ => h.exists_leafPath hroot hleaf (onWay_iff_above.mpr habove)

/-- A path is the beginning of the chain of its leaf. -/
theorem leafPath_prefix (h : l.Forest) (hp : p ∈ l.leafPaths root) (hhead : p.head? = some leaf) :
    p <+: (l.chain leaf).map Device.id := by
  have hleaf := l.domain_subset root (h.leafPaths_subset_domain hp (List.mem_of_mem_head? hhead))
  rw [leafPaths_eq] at hp
  split at hp
  · obtain ⟨rest, rfl⟩ := List.head?_eq_some_iff.mp hhead
    exact h.prefix_chain hleaf (h.pathsThrough_isChain (.singleton root) hp)
  · exact absurd hp List.not_mem_nil

/-- The paths over one device stand together. -/
theorem leafPaths_block (h : l.Forest) (root d : DeviceId) : ∃ before block after,
    l.leafPaths root = before ++ block ++ after ∧ (∀ p ∈ block, d ∈ p) ∧
      ∀ p ∈ before ++ after, d ∉ p :=
  exists_block ((h.leafPaths_triplewise root).imp fun hbetween => hbetween d)

end Forest

end Layout

namespace Topology

variable {l : Layout} {t : Topology} {root : DeviceId}

open Layout

/--
Every leaf below a declared root has one path, there are no others, and a path is the chain of its
leaf up to the root. The paths come depth first, with the children in declaration order, and those
over one device stand together. The search for them ends.
-/
theorem leafPaths_depthFirst (h : build l = .ok t) (hroot : t.contains root = true) :
    (∀ leaf, (∃ p ∈ t.leafPaths root, p.head? = some leaf) ↔
      t.children leaf = [] ∧ ReflTransGen t.Under leaf root) ∧
    ((t.leafPaths root).map List.head?).Nodup ∧
    (∀ p ∈ t.leafPaths root, ∃ leaf, p.head? = some leaf ∧
      p <+: (t.chain leaf).map Device.id ∧ p.getLast? = some root) ∧
    (t.leafPaths root = if t.children root = [] then [[root]]
      else (t.children root).flatMap fun c => (t.leafPaths c).map (· ++ [root])) ∧
    (t.children root).Sublist t.ids ∧
    (∀ d, ∃ before block after, t.leafPaths root = before ++ block ++ after ∧
      (∀ p ∈ block, d ∈ p) ∧ ∀ p ∈ before ++ after, d ∉ p) ∧
    ∃ turns : Nat, t.turn^[turns] ([], [⟨root, [root]⟩]) = (t.leafPaths root, []) := by
  have hf := forest_of_build h
  refine ⟨fun leaf => hf.exists_leafPath_iff hroot, hf.leafPaths_heads root, fun p hp => ?_,
    hf.leafPaths_children hroot, t.children_sublist root, hf.leafPaths_block root, ?_⟩
  · obtain ⟨met, rfl⟩ := leafPaths_concat hp
    obtain ⟨leaf, hhead⟩ : ∃ leaf, (met ++ [root]).head? = some leaf := by
      cases met with
      | nil => exact ⟨root, rfl⟩
      | cons leaf met => exact ⟨leaf, rfl⟩
    exact ⟨leaf, hhead, hf.leafPath_prefix hp hhead, List.getLast?_concat⟩
  · rw [leafPaths, if_pos hroot]
    exact t.exists_turns [] [⟨root, [root]⟩]

/-- A tree whose devices are not declared branch by branch. -/
def orchard : Layout :=
  { devices := [
      { id := 1, name := "cloud", role := .cloud, capacity := { cpuMips := 100 } },
      { id := 2, name := "east", role := .fon, parent := some 1, capacity := { cpuMips := 10 } },
      { id := 3, name := "west", role := .fon, parent := some 1, capacity := { cpuMips := 10 } },
      { id := 4, name := "gw-a", role := .fcn, parent := some 2, capacity := { cpuMips := 10 } },
      { id := 5, name := "gw-b", role := .fcn, parent := some 3, capacity := { cpuMips := 10 } },
      { id := 6, name := "gw-c", role := .fcn, parent := some 2, capacity := { cpuMips := 10 } }] }

/-- The topology of `orchard`: its routes are settled after two sweeps. -/
def orchardTopology : Topology :=
  { orchard with routes := (Relaxation.firstSweep orchard.linkLatency).sweep.sweep.table }

theorem build_orchard : build orchard = .ok orchardTopology := by
  refine build_eq_ok (by decide +kernel) ?_ (by decide +kernel) (by decide +kernel)
  rw [Relaxation.routes, Relaxation.settle_of_changed (by decide +kernel),
    Relaxation.settle_of_still (by decide +kernel)]

theorem leafPaths_depthFirst_orchard : orchardTopology.contains 1 = true ∧
    orchardTopology.leafPaths 1 = [[4, 2, 1], [6, 2, 1], [5, 3, 1]] ∧
    ReflTransGen orchardTopology.Under 5 1 ∧
    ∃ turns : Nat, orchardTopology.turn^[turns] ([], [⟨1, [1]⟩]) =
      ([[4, 2, 1], [6, 2, 1], [5, 3, 1]], []) := by
  have hroot : orchardTopology.contains 1 = true := by decide +kernel
  have hpaths : orchardTopology.leafPaths 1 = [[4, 2, 1], [6, 2, 1], [5, 3, 1]] := by
    decide +kernel
  obtain ⟨hleaf, _, _, _, _, _, hturns⟩ := leafPaths_depthFirst build_orchard hroot
  rw [hpaths] at hturns
  exact ⟨hroot, hpaths, ((hleaf 5).mp ⟨[5, 3, 1], by rw [hpaths]; decide, rfl⟩).2, hturns⟩

end Topology

end FogNet
