import FogNet.Proofs.Topology.Adjacency
import Mathlib.Data.List.Induction

/-!
# In which order neighbours are listed

The children of a device are listed in the order of their declaration. Its siblings are collected
level by level, each at the first level that joins it to the device, and only within a level in the
order of declaration. So a sibling that is declared early comes late if only a late level joins it,
and siblings are in the order of declaration just when that does not happen.

## Main statements

* `Layout.children_inOrder` — children are listed in the order of their declaration
* `Layout.siblings_listed` — siblings by the level that joins them, and then in that order
* `Layout.siblings_inOrder_iff` — when siblings are listed in the order of their declaration
* `Topology.neighbours_listed` — the neighbours of a device of a topology
-/

namespace FogNet

namespace Layout

variable {l : Layout} {d : Device} {a b o : DeviceId} {id : DeviceId}

/-! ## The order of declaration -/

/-- One device is declared before another one. -/
def DeclaredBefore (l : Layout) (a b : DeviceId) : Prop := l.ids.idxOf a < l.ids.idxOf b

instance (l : Layout) (a b : DeviceId) : Decidable (l.DeclaredBefore a b) :=
  inferInstanceAs (Decidable (_ < _))

/-- What leaves out some devices lists the others in the order of their declaration. -/
theorem inOrder_of_sublist (hids : l.ids.Nodup) {listed : List DeviceId}
    (h : listed.Sublist l.ids) : listed.Pairwise l.DeclaredBefore := by
  have hall : l.ids.Pairwise l.DeclaredBefore := by
    rw [List.pairwise_iff_getElem]
    intro i j hi hj hij
    rw [DeclaredBefore, hids.idxOf_getElem, hids.idxOf_getElem]
    exact hij
  exact hall.sublist h

theorem children_inOrder (hids : l.ids.Nodup) (id : DeviceId) :
    (l.children id).Pairwise l.DeclaredBefore :=
  inOrder_of_sublist hids (l.children_sublist id)

/-! ## The order of siblings -/

/-- Whether a level makes another device a sibling of this one. -/
def joins (l : Layout) (d : Device) (o : DeviceId) (level : String) : Bool :=
  d.inLevel level && (l.peers d level).contains o

/-- The number of the first level that makes another device a sibling of this one. -/
def firstJoint (l : Layout) (d : Device) (o : DeviceId) : Nat := l.levels.findIdx (l.joins d o)

/-- By the first level that joins them to a device, and within a level by their declaration. -/
def ListedBefore (l : Layout) (d : Device) (a b : DeviceId) : Prop :=
  l.firstJoint d a < l.firstJoint d b
    ∨ (l.firstJoint d a = l.firstJoint d b ∧ l.DeclaredBefore a b)

/-- After some levels those are found that one of these levels joins. -/
theorem firstJoint_lt_iff {prior rest : List String} (hsplit : l.levels = prior ++ rest) :
    l.firstJoint d o < prior.length ↔ o ∈ prior.foldl (l.joinLevel d) [] := by
  have hprior : l.firstJoint d o < prior.length ↔ ∃ level ∈ prior, l.joins d o level = true := by
    rw [firstJoint, hsplit, List.findIdx_append, ← List.findIdx_lt_length]
    split <;> omega
  rw [hprior, mem_foldl_joinLevel]
  simp [joins]

/-- One more level keeps what is found in order: the new ones are those that it joins first. -/
theorem joinLevel_listed (hids : l.ids.Nodup) {found : List DeviceId} {level : String} {count : Nat}
    (hold : ∀ o, l.firstJoint d o < count ↔ o ∈ found)
    (hnow : ∀ o, l.firstJoint d o < count + 1 ↔ o ∈ l.joinLevel d found level)
    (h : found.Pairwise (l.ListedBefore d)) :
    (l.joinLevel d found level).Pairwise (l.ListedBefore d) := by
  unfold joinLevel at hnow ⊢
  split
  · next hin =>
    have hnew : ∀ o ∈ (l.peers d level).filter fun o => !found.contains o,
        l.firstJoint d o = count := by
      intro o ho
      have hout : o ∉ found := by simpa using (List.mem_filter.mp ho).2
      have hlt : l.firstJoint d o < count + 1 := by
        rw [hnow, if_pos hin]
        exact List.mem_append_right _ ho
      rw [← hold] at hout
      omega
    refine List.pairwise_append.mpr ⟨h, ?_, ?_⟩
    · have hsorted := inOrder_of_sublist hids ((List.filter_sublist
        (p := fun o => !found.contains o)).trans (l.peers_sublist d level))
      refine hsorted.imp_of_mem ?_
      intro a b ha hb hab
      exact Or.inr ⟨(hnew a ha).trans (hnew b hb).symm, hab⟩
    · intro a ha b hb
      refine Or.inl ?_
      rw [hnew b hb]
      exact (hold a).mpr ha
  · exact h

/-- After any number of levels, what is found so far is in order. -/
theorem found_listed (hids : l.ids.Nodup) {prior rest : List String}
    (hsplit : l.levels = prior ++ rest) :
    (prior.foldl (l.joinLevel d) []).Pairwise (l.ListedBefore d) := by
  induction prior using List.reverseRecOn generalizing rest with
  | nil => exact .nil
  | append_singleton prior level ih =>
    have hnext : l.levels = prior ++ level :: rest := by simpa using hsplit
    have hnow : ∀ o, l.firstJoint d o < prior.length + 1
        ↔ o ∈ l.joinLevel d (prior.foldl (l.joinLevel d) []) level := by
      intro o
      have hlt := firstJoint_lt_iff (d := d) (o := o) hsplit
      rwa [List.foldl_append, List.length_append] at hlt
    rw [List.foldl_append]
    exact joinLevel_listed hids (fun _ => firstJoint_lt_iff hnext) hnow (ih hnext)

/-- Siblings are listed by the level that joins them, and within a level by their declaration. -/
theorem siblings_listed (hids : l.ids.Nodup) (hd : l.device? id = some d) :
    (l.siblings id).Pairwise (l.ListedBefore d) := by
  rw [siblings_eq hd]
  exact found_listed hids (List.append_nil l.levels).symm

/--
Siblings are listed in the order of their declaration just when none is joined later than one that
is declared after it.
-/
theorem siblings_inOrder_iff (hids : l.ids.Nodup) (hd : l.device? id = some d) :
    (l.siblings id).Pairwise l.DeclaredBefore ↔ ∀ a ∈ l.siblings id, ∀ b ∈ l.siblings id,
      l.DeclaredBefore a b → l.firstJoint d a ≤ l.firstJoint d b := by
  have hlisted := siblings_listed hids hd
  constructor
  · intro h a ha b hb hab
    have hboth : ∀ ⦃a⦄, a ∈ l.siblings id → ∀ ⦃b⦄, b ∈ l.siblings id →
        (l.DeclaredBefore a b → l.firstJoint d a ≤ l.firstJoint d b)
          ∧ (l.DeclaredBefore b a → l.firstJoint d b ≤ l.firstJoint d a) := by
      refine @List.Pairwise.forall_of_forall _ _ _ ⟨fun _ _ h => ⟨h.2, h.1⟩⟩ ?_ ?_
      · exact fun a _ => ⟨fun _ => Nat.le_refl _, fun _ => Nat.le_refl _⟩
      · refine (h.and hlisted).imp ?_
        rintro a b ⟨hab, hlt | ⟨heq, _⟩⟩
        · exact ⟨fun _ => Nat.le_of_lt hlt, fun hba => absurd hba (Nat.lt_asymm hab)⟩
        · exact ⟨fun _ => Nat.le_of_eq heq, fun hba => absurd hba (Nat.lt_asymm hab)⟩
    exact (hboth ha hb).1 hab
  · intro h
    refine hlisted.imp_of_mem ?_
    rintro a b ha hb (hlt | ⟨_, hab⟩)
    · -- They are different, and the other way round they would be joined in the wrong order.
      by_contra hab
      have hle : ¬ l.DeclaredBefore b a := fun hba => absurd (h b hb a ha hba) (Nat.not_le.mpr hlt)
      have hmem : a ∈ l.ids :=
        l.branches_subset_ids id (List.mem_append_right _ ha)
      have hsame : a = b := (List.idxOf_inj hmem).mp
        (Nat.le_antisymm (Nat.not_lt.mp hle) (Nat.not_lt.mp hab))
      exact Nat.lt_irrefl _ (hsame ▸ hlt)
    · exact hab

/-- On one level all siblings are joined at once. -/
theorem siblings_inOrder_of_single (hids : l.ids.Nodup) (hd : l.device? id = some d)
    (hsingle : ∀ level ∈ l.levels, ∀ level' ∈ l.levels, d.inLevel level = true →
      d.inLevel level' = true → level = level') :
    (l.siblings id).Pairwise l.DeclaredBefore := by
  have hjoins : ∀ o ∈ l.siblings id, ∀ level ∈ l.levels,
      l.joins d o level = d.inLevel level := by
    intro o ho level hlevel
    rw [siblings_eq hd] at ho
    obtain ⟨shared, hshared, hin, hpeer⟩ := mem_siblingsOf.mp ho
    cases hl : d.inLevel level with
    | false => simp [joins, hl]
    | true =>
      obtain rfl := hsingle level hlevel shared hshared hl hin
      simp [joins, hl, hpeer]
  have hfirst : ∀ o ∈ l.siblings id, l.firstJoint d o = l.levels.findIdx d.inLevel := by
    intro o ho
    have hsub : ∀ levels ⊆ l.levels,
        levels.findIdx (l.joins d o) = levels.findIdx d.inLevel := by
      intro levels
      induction levels with
      | nil => exact fun _ => rfl
      | cons level levels ih =>
        intro h
        rw [List.cons_subset] at h
        rw [List.findIdx_cons, List.findIdx_cons, hjoins o ho level h.1, ih h.2]
    exact hsub l.levels (List.Subset.refl _)
  refine (siblings_inOrder_iff hids hd).mpr ?_
  intro a ha b hb _
  exact Nat.le_of_eq ((hfirst a ha).trans (hfirst b hb).symm)

end Layout

namespace Topology

variable {l : Layout} {t : Topology}

open Layout

/--
A topology lists the children of a device in the order of their declaration, and its siblings by the
first level that joins them to it, and within a level in the order of declaration. They are in the
order of declaration altogether just when no sibling is joined later than one declared after it, and
so for a device of one level.
-/
theorem neighbours_listed (h : build l = .ok t) (id : DeviceId) :
    (t.children id).Pairwise t.DeclaredBefore
    ∧ ∀ d, t.device? id = some d →
      (t.siblings id).Pairwise (t.ListedBefore d)
      ∧ ((t.siblings id).Pairwise t.DeclaredBefore ↔ ∀ a ∈ t.siblings id, ∀ b ∈ t.siblings id,
          t.DeclaredBefore a b → t.firstJoint d a ≤ t.firstJoint d b)
      ∧ ((∀ level ∈ t.levels, ∀ level' ∈ t.levels, d.inLevel level = true →
          d.inLevel level' = true → level = level') →
          (t.siblings id).Pairwise t.DeclaredBefore) := by
  have hids : t.ids.Nodup := (forest_of_build h).nodup
  refine ⟨children_inOrder hids id, fun d hd => ⟨siblings_listed hids hd, ?_, ?_⟩⟩
  · exact siblings_inOrder_iff hids hd
  · exact siblings_inOrder_of_single hids hd

/-- Three gateways on a wide level, two of which are on a narrow one that comes first. -/
def narrowFirst : Layout :=
  { devices := [
      { id := 1, name := "cloud", role := .cloud, capacity := { cpuMips := 100 } },
      { id := 2, name := "gw-a", role := .fcn, parent := some 1, capacity := { cpuMips := 10 } },
      { id := 3, name := "gw-east-a", role := .fcn, parent := some 1,
        capacity := { cpuMips := 10 } },
      { id := 4, name := "gw-east-b", role := .fcn, parent := some 1,
        capacity := { cpuMips := 10 } }]
    levels := ["gw-east", "gw"] }

/-- The topology of `narrowFirst`: its routes are settled after a sweep. -/
def narrowFirstTopology : Topology :=
  { narrowFirst with routes := (Relaxation.firstSweep narrowFirst.linkLatency).sweep.table }

theorem build_narrowFirst : build narrowFirst = .ok narrowFirstTopology := by
  refine build_eq_ok (by decide +kernel) ?_ (by decide +kernel) (by decide +kernel)
  rw [Relaxation.routes, Relaxation.settle_of_still (by decide +kernel)]

/-- The last gateway has the one of its narrow level before the one that is declared first. -/
theorem neighbours_listed_narrowFirst : narrowFirstTopology.children 1 = [2, 3, 4]
    ∧ narrowFirstTopology.siblings 4 = [3, 2]
    ∧ narrowFirstTopology.ListedBefore narrowFirst.devices[3] 3 2
    ∧ ¬ (narrowFirstTopology.siblings 4).Pairwise narrowFirstTopology.DeclaredBefore
    ∧ (narrowFirstTopology.siblings 2).Pairwise narrowFirstTopology.DeclaredBefore := by
  have hsiblings : narrowFirstTopology.siblings 4 = [3, 2] := by decide +kernel
  obtain ⟨_, hlast⟩ := neighbours_listed build_narrowFirst 4
  obtain ⟨_, hfirst⟩ := neighbours_listed build_narrowFirst 2
  obtain ⟨hlisted, horder, _⟩ := hlast narrowFirst.devices[3] (by rfl)
  obtain ⟨_, _, hsingle⟩ := hfirst narrowFirst.devices[1] (by rfl)
  refine ⟨by decide +kernel, hsiblings, ?_, ?_, ?_⟩
  · rw [hsiblings] at hlisted
    exact List.rel_of_pairwise_cons hlisted (List.mem_singleton_self 2)
  · rw [horder, hsiblings]
    intro h
    exact absurd (h 2 (by decide) 3 (by decide) (by decide +kernel)) (by decide +kernel)
  · refine hsingle ?_
    decide +kernel

/-- Siblings are not always listed in the order of their declaration. -/
theorem not_siblings_inOrder : ¬ ∀ (l : Layout) (t : Topology), build l = .ok t → ∀ id,
    (t.children id).Pairwise t.DeclaredBefore
      ∧ (t.siblings id).Pairwise t.DeclaredBefore := by
  intro h
  have horder := (h narrowFirst narrowFirstTopology build_narrowFirst 4).2
  have hsiblings : narrowFirstTopology.siblings 4 = [3, 2] := by decide +kernel
  rw [hsiblings] at horder
  have hfirst := List.rel_of_pairwise_cons horder (List.mem_singleton_self 2)
  exact absurd hfirst (by decide +kernel)

end Topology

end FogNet
