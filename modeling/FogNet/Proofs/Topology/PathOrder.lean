import FogNet.Proofs.Topology.LeafPaths
import Mathlib.Data.List.Triplewise

/-!
# The order of the paths from the leaves

A path from a leaf goes up from device to device until it comes to the root, which it does not pass.
The paths are found depth first: once the paths through a device are done, none leads through it
again. So what two paths have in common lies on all paths between them.

## Main statements

* `Forest.leafPaths_ascends` — a path goes up, and holds all that is above a device of it
* `Forest.exists_leafPath` — a leaf below the root has a path
* `Forest.leafPaths_triplewise` — a device of two paths is on every path between them
-/

namespace FogNet

open Relation

namespace Layout

variable {l : Layout} {root id c d : DeviceId} {up p : List DeviceId}

/-- A list of devices that goes up to the root, and holds all that is above a device of it. -/
structure Ascends (l : Layout) (root : DeviceId) (p : List DeviceId) : Prop where
  root_mem : root ∈ p
  pairwise : p.Pairwise (l.OnWay root)
  closed : ∀ d ∈ p, ∀ e, l.StepUp root d e → e ∈ p

namespace Ascends

theorem mem_of_onWay (h : l.Ascends root p) (hd : d ∈ p) {e : DeviceId}
    (hw : l.OnWay root d e) : e ∈ p := by
  induction hw with
  | refl => exact hd
  | tail _ hs ih => exact h.closed _ ih _ hs

theorem onWay_of_cons (h : l.Ascends root (id :: up)) (hd : d ∈ id :: up) :
    l.OnWay root id d := by
  rcases List.mem_cons.mp hd with rfl | hd
  · exact ReflTransGen.refl
  · exact List.rel_of_pairwise_cons h.pairwise hd

/-- What was met on a path, the present device included, is below the present device. -/
theorem onWay_of_met {met after : List DeviceId} (h : l.Ascends root (met ++ d :: after))
    {e : DeviceId} (he : e ∈ met ++ [d]) : l.OnWay root e d := by
  rcases List.mem_append.mp he with he | he
  · exact (List.pairwise_append.mp h.pairwise).2.2 e he d List.mem_cons_self
  · exact List.mem_singleton.mp he ▸ ReflTransGen.refl

/-- The way up from a device of the path leads to the root. -/
theorem onWay_root (h : l.Ascends root p) (hd : d ∈ p) : l.OnWay root d root := by
  obtain ⟨before, after, rfl⟩ := List.append_of_mem h.root_mem
  rcases List.mem_append.mp hd with hd | hd
  · exact (List.pairwise_append.mp h.pairwise).2.2 d hd root List.mem_cons_self
  · rcases List.mem_cons.mp hd with rfl | hd
    · exact ReflTransGen.refl
    · have hup := List.rel_of_pairwise_cons (List.pairwise_append.mp h.pairwise).2.1 hd
      rcases ReflTransGen.cases_head hup with rfl | ⟨_, hs, _⟩
      · exact ReflTransGen.refl
      · exact absurd rfl hs.1

end Ascends

theorem ascends_root (l : Layout) (root : DeviceId) : l.Ascends root [root] := by
  refine ⟨List.mem_cons_self, List.pairwise_singleton _ _, ?_⟩
  intro d hd e hs
  exact absurd (List.mem_singleton.mp hd) hs.1

namespace Forest

theorem ascends_cons (h : l.Forest) (ha : l.Ascends root (id :: up)) (hc : l.parent? c = some id) :
    l.Ascends root (c :: id :: up) := by
  have hstep : l.StepUp root c id := ⟨h.child_ne_root (ha.onWay_of_cons ha.root_mem) hc, hc⟩
  refine ⟨List.mem_cons_of_mem _ ha.root_mem, ?_, ?_⟩
  · exact List.pairwise_cons.mpr ⟨fun d hd => (ha.onWay_of_cons hd).head hstep, ha.pairwise⟩
  · intro d hd e hs
    rcases List.mem_cons.mp hd with rfl | hd
    · obtain rfl := stepUp_rightUnique hs hstep
      exact List.mem_cons_of_mem _ List.mem_cons_self
    · exact List.mem_cons_of_mem _ (ha.closed d hd e hs)

theorem parent?_of_mem_childrenOff (h : l.Forest) {met : List DeviceId}
    (hc : c ∈ l.childrenOff id met) : l.parent? c = some id :=
  h.mem_children_iff.mp (List.mem_filter.mp hc).1

/-- Paths through a device go up, if that is true of what is above the device. -/
theorem pathsThrough_ascends (h : l.Forest) (ha : l.Ascends root (id :: up))
    (hp : p ∈ l.pathsThrough id up) : l.Ascends root p := by
  fun_induction pathsThrough l id up with
  | case1 id up hleaf => exact List.mem_singleton.mp hp ▸ ha
  | case2 id up hleaf ih =>
    obtain ⟨c, _, hp⟩ := List.mem_flatMap.mp hp
    exact ih c (h.ascends_cons ha (h.parent?_of_mem_childrenOff c.2)) hp

/-- What is on a path through a device and not above it is below it. -/
theorem pathsThrough_below (h : l.Forest) (ha : l.Ascends root (id :: up))
    (hp : p ∈ l.pathsThrough id up) (hd : d ∈ p) : d ∈ up ∨ l.OnWay root d id := by
  fun_induction pathsThrough l id up with
  | case1 id up hleaf =>
    rw [List.mem_singleton.mp hp] at hd
    rcases List.mem_cons.mp hd with rfl | hd
    · exact Or.inr ReflTransGen.refl
    · exact Or.inl hd
  | case2 id up hleaf ih =>
    obtain ⟨c, _, hp⟩ := List.mem_flatMap.mp hp
    have hc := h.parent?_of_mem_childrenOff c.2
    have hstep : l.StepUp root c.1 id := ⟨h.child_ne_root (ha.onWay_of_cons ha.root_mem) hc, hc⟩
    rcases ih c (h.ascends_cons ha hc) hp with hd | hw
    · rcases List.mem_cons.mp hd with rfl | hd
      · exact Or.inr ReflTransGen.refl
      · exact Or.inl hd
    · exact Or.inr (hw.tail hstep)

end Forest

/-! ## Depth first -/

/-- The second path holds what the first one and the third one share. -/
def Between (p q r : List DeviceId) : Prop := ∀ d ∈ p, d ∈ r → d ∈ q

/-- Groups of paths that share no more than all paths do may follow one another. -/
theorem triplewise_flatMap {κ : Type} {paths : κ → List (List DeviceId)} (shared : List DeviceId) :
    ∀ {groups : List κ}, groups.Nodup → (∀ g ∈ groups, (paths g).Triplewise Between) →
      (∀ g ∈ groups, ∀ p ∈ paths g, shared ⊆ p) →
      (∀ g ∈ groups, ∀ g' ∈ groups, g ≠ g' → ∀ p ∈ paths g, ∀ r ∈ paths g', ∀ d ∈ p, d ∈ r →
        d ∈ shared) →
      (groups.flatMap paths).Triplewise Between
  | [], _, _, _, _ => .nil
  | g :: groups, hn, htriple, hshared, hapart => by
    rw [List.nodup_cons] at hn
    have hrest := triplewise_flatMap shared hn.2
      (fun g' hg' => htriple g' (List.mem_cons_of_mem _ hg'))
      (fun g' hg' => hshared g' (List.mem_cons_of_mem _ hg'))
      (fun a ha b hb => hapart a (List.mem_cons_of_mem _ ha) b (List.mem_cons_of_mem _ hb))
    have hcross : ∀ p ∈ paths g, ∀ r ∈ groups.flatMap paths, ∀ d ∈ p, d ∈ r → d ∈ shared := by
      intro p hp r hr
      obtain ⟨g', hg', hr⟩ := List.mem_flatMap.mp hr
      exact hapart g List.mem_cons_self g' (List.mem_cons_of_mem _ hg')
        (fun he => hn.1 (he ▸ hg')) p hp r hr
    rw [List.flatMap_cons, List.triplewise_append]
    refine ⟨htriple g List.mem_cons_self, hrest, ?_, ?_⟩
    · intro p hp
      refine List.pairwise_of_forall_mem_list fun q hq r hr d hdp hdr => ?_
      obtain ⟨g', hg', hq⟩ := List.mem_flatMap.mp hq
      exact hshared g' (List.mem_cons_of_mem _ hg') q hq (hcross p hp r hr d hdp hdr)
    · intro r hr
      refine List.pairwise_of_forall_mem_list fun p hp q hq d hdp hdr => ?_
      exact hshared g List.mem_cons_self q hq (hcross p hp r hr d hdp hdr)

namespace Forest

/-- A leaf below a device has a path through the device. -/
theorem exists_pathThrough (h : l.Forest) (ha : l.Ascends root (id :: up)) {leaf : DeviceId}
    (hleaf : l.children leaf = []) (hw : l.OnWay root leaf id) :
    ∃ p ∈ l.pathsThrough id up, p.head? = some leaf := by
  fun_induction pathsThrough l id up with
  | case1 id up hnone =>
    rcases ReflTransGen.cases_tail hw with rfl | ⟨c, _, hs⟩
    · exact ⟨_, List.mem_cons_self, rfl⟩
    · have hc := h.mem_children_iff.mpr hs.2
      rw [List.isEmpty_iff.mp hnone] at hc
      exact absurd hc List.not_mem_nil
  | case2 id up hsome ih =>
    rcases ReflTransGen.cases_tail hw with rfl | ⟨c, hc, hs⟩
    · exact absurd (List.isEmpty_iff.mpr hleaf) hsome
    · have hoff : c ∈ l.childrenOff id (id :: up) := by
        refine List.mem_filter.mpr ⟨h.mem_children_iff.mpr hs.2, ?_⟩
        rw [Bool.not_eq_true', ← Bool.not_eq_true, List.contains_iff_mem]
        -- All that is above a device is no deeper than the device.
        intro hup
        have hle := h.depth_le (ha.onWay_of_cons hup)
        have hlt := h.depth_parent?_lt hs.2
        omega
      obtain ⟨p, hp, hhead⟩ := ih ⟨c, hoff⟩ (h.ascends_cons ha hs.2) hc
      exact ⟨p, List.mem_flatMap.mpr ⟨⟨c, hoff⟩, List.mem_attach _ _, hp⟩, hhead⟩

theorem pathsThrough_triplewise (h : l.Forest) (ha : l.Ascends root (id :: up)) :
    (l.pathsThrough id up).Triplewise Between := by
  fun_induction pathsThrough l id up with
  | case1 id up hleaf => exact List.triplewise_singleton _ _
  | case2 id up hleaf ih =>
    have hchild : ∀ c : {c // c ∈ l.childrenOff id (id :: up)}, l.parent? c.1 = some id :=
      fun c => h.parent?_of_mem_childrenOff c.2
    have hbelow := fun c => h.ascends_cons ha (hchild c)
    refine triplewise_flatMap (id :: up) (List.nodup_attach.mpr ((h.children_nodup id).filter _))
      (fun c _ => ih c (hbelow c)) ?_ ?_
    · intro c _ p hp
      have hall : (c.1 :: id :: up) ⊆ p := (h.mem_pathsThrough (hbelow c).root_mem
        (fun d hd => (hbelow c).onWay_of_cons hd) hp).1
      exact fun x hx => hall (List.mem_cons_of_mem _ hx)
    · -- Below two children there is no common device.
      intro c _ c' _ hne p hp r hr d hdp hdr
      rcases h.pathsThrough_below (hbelow c) hp hdp with hd | hw
      · exact hd
      · rcases h.pathsThrough_below (hbelow c') hr hdr with hd | hw'
        · exact hd
        · exact absurd (Subtype.ext (h.child_eq_of_onWay hw hw' (hchild c) (hchild c'))) hne

/-- A path from a leaf goes up, and holds all that is above a device of it. -/
theorem leafPaths_ascends (h : l.Forest) (hp : p ∈ l.leafPaths root) : l.Ascends root p := by
  rw [leafPaths_eq] at hp
  split at hp
  · exact h.pathsThrough_ascends (l.ascends_root root) hp
  · exact absurd hp List.not_mem_nil

/-- A leaf below the root has a path. -/
theorem exists_leafPath (h : l.Forest) (hroot : l.contains root = true) {leaf : DeviceId}
    (hleaf : l.children leaf = []) (hw : l.OnWay root leaf root) :
    ∃ p ∈ l.leafPaths root, p.head? = some leaf := by
  rw [leafPaths_eq, if_pos hroot]
  exact h.exists_pathThrough (l.ascends_root root) hleaf hw

/-- A device of two paths is on every path between them. -/
theorem leafPaths_triplewise (h : l.Forest) (root : DeviceId) :
    (l.leafPaths root).Triplewise Between := by
  rw [leafPaths_eq]
  split
  · exact h.pathsThrough_triplewise (l.ascends_root root)
  · exact .nil

end Forest

end Layout

end FogNet
