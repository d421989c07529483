import FogNet.Proofs.Topology.DepthFirst
import FogNet.Proofs.Topology.Forest
import Mathlib.Data.List.Pairwise
import Mathlib.Logic.Relation

/-!
# The way from a gateway up to an orchestrator

Placement for a request goes along the path from the leaf it comes from, and a shift goes on from
there towards the root. All of these devices are on the way up from the leaf, which ends at the
root. Since a device has one parent, a leaf has one path, and a way up that ends at the nearest
orchestrating device passes only devices that have the same nearest one.

## Main statements

* `Forest.leafPaths_onWay` — a path from a leaf lies on the way up from that leaf
* `Forest.leafPaths_heads` — no leaf has two paths
* `domain_subset`, `mem_domain_self` — a domain has declared devices only, and the one it is of
* `Forest.orchestratorFor_of_onWay` — who orchestrates a device orchestrates all up to itself
-/

namespace FogNet

open Relation

namespace Layout

variable {l : Layout} {root : DeviceId}

/-- The second device is the parent of the first one. -/
def Under (l : Layout) (d p : DeviceId) : Prop := l.parent? d = some p

/-- A step up, which is not taken from the root. -/
def StepUp (l : Layout) (root d p : DeviceId) : Prop := d ≠ root ∧ l.parent? d = some p

/-- A device that is met when going up from another one, no further than the root. -/
def OnWay (l : Layout) (root : DeviceId) : DeviceId → DeviceId → Prop :=
  ReflTransGen (l.StepUp root)

theorem stepUp_rightUnique : Relator.RightUnique (l.StepUp root) := by
  intro d p p' h h'
  have := h.2.symm.trans h'.2
  exact Option.some.inj this

/-- What is above a device is on the way that ends there. -/
theorem onWay_iff_above {d : DeviceId} : l.OnWay root d root ↔ ReflTransGen l.Under d root := by
  constructor
  · exact fun h => h.lift (fun d => d) fun _ _ hs => hs.2
  · intro h
    induction h using ReflTransGen.head_induction_on with
    | refl => exact ReflTransGen.refl
    | @head d p hp _ ih =>
      by_cases hd : d = root
      · exact hd ▸ ReflTransGen.refl
      · exact ih.head ⟨hd, hp⟩

theorem parent?_eq_some {id p : DeviceId} :
    l.parent? id = some p ↔ ∃ d, l.device? id = some d ∧ d.parent = some p := by
  rw [parent?, Option.bind_eq_some_iff]

namespace Forest

theorem chain_parent? (h : l.Forest) {id p : DeviceId} (hp : l.parent? id = some p) :
    ∃ d, l.device? id = some d ∧ l.chain id = d :: l.chain p := by
  obtain ⟨d, hd, hdp⟩ := parent?_eq_some.mp hp
  exact ⟨d, hd, h.chain_parent hd hdp⟩

theorem depth_parent?_lt (h : l.Forest) {id p : DeviceId} (hp : l.parent? id = some p) :
    (l.chain p).length < (l.chain id).length := by
  obtain ⟨d, _, hc⟩ := h.chain_parent? hp
  rw [hc]
  exact Nat.lt_succ_self _

theorem depth_le (h : l.Forest) {a d : DeviceId} (hw : l.OnWay root a d) :
    (l.chain d).length ≤ (l.chain a).length := by
  induction hw with
  | refl => exact Nat.le_refl _
  | tail _ hs ih => exact Nat.le_trans (Nat.le_of_lt (h.depth_parent?_lt hs.2)) ih

/-- The way up from a declared device meets declared devices. -/
theorem mem_ids_of_onWay (h : l.Forest) {a d : DeviceId} (ha : a ∈ l.ids)
    (hw : l.OnWay root a d) : d ∈ l.ids := by
  induction hw with
  | refl => exact ha
  | tail _ hs _ =>
    obtain ⟨e, he, hp⟩ := parent?_eq_some.mp hs.2
    obtain ⟨_, hparent⟩ := h.parent_device he hp
    exact device?_isSome_iff.mp (Option.isSome_of_mem hparent)

theorem mem_children_iff (h : l.Forest) {id c : DeviceId} :
    c ∈ l.children id ↔ l.parent? c = some id := by
  rw [mem_children, parent?_eq_some]
  constructor
  · rintro ⟨d, hd, hp, rfl⟩
    exact ⟨d, h.device?_eq hd, hp⟩
  · rintro ⟨d, hd, hp⟩
    obtain ⟨hmem, rfl⟩ := device?_some hd
    exact ⟨d, hmem, hp, rfl⟩

theorem children_nodup (h : l.Forest) (id : DeviceId) : (l.children id).Nodup :=
  h.nodup.sublist (l.children_sublist id)

/-- The way up from a child of `id` does not start at the root, if one from `id` ends there. -/
theorem child_ne_root (h : l.Forest) {id c : DeviceId} (hr : l.OnWay root id root)
    (hc : l.parent? c = some id) : c ≠ root := by
  rintro rfl
  have hle := h.depth_le hr
  have hlt := h.depth_parent?_lt hc
  omega

/-- Two children of one device are not on the same way up. -/
theorem child_eq_of_onWay (h : l.Forest) {id a c c' : DeviceId} (hw : l.OnWay root a c)
    (hw' : l.OnWay root a c') (hc : l.parent? c = some id) (hc' : l.parent? c' = some id) :
    c = c' := by
  -- Going on up from one of them leads to the parent, which is above the other one.
  have above : ∀ {c c'}, l.parent? c = some id → l.parent? c' = some id → l.OnWay root c c' →
      c = c' := by
    intro c c' hc hc' hw
    rcases hw.cases_head with rfl | ⟨p, hs, hw⟩
    · rfl
    · obtain rfl : p = id := Option.some.inj (hs.2.symm.trans hc)
      have hle := h.depth_le hw
      have hlt := h.depth_parent?_lt hc'
      omega
  rcases ReflTransGen.total_of_right_unique stepUp_rightUnique hw hw' with hw | hw
  · exact above hc hc' hw
  · exact (above hc' hc hw).symm

/-! ## Paths from the leaves -/

/-- Paths through a device hold all that is above it, and go up from a leaf. -/
theorem mem_pathsThrough (h : l.Forest) {id : DeviceId} {up : List DeviceId}
    (hroot : root ∈ id :: up) (hup : ∀ d ∈ id :: up, l.OnWay root id d) {p : List DeviceId}
    (hp : p ∈ l.pathsThrough id up) :
    id :: up ⊆ p ∧ ∃ leaf rest, p = leaf :: rest ∧ ∀ d ∈ p, l.OnWay root leaf d := by
  fun_induction pathsThrough l id up with
  | case1 id up hleaf =>
    obtain rfl := List.mem_singleton.mp hp
    exact ⟨fun _ hx => hx, id, up, rfl, hup⟩
  | case2 id up hleaf ih =>
    obtain ⟨⟨c, hcoff⟩, _, hp⟩ := List.mem_flatMap.mp hp
    have hc : l.parent? c = some id := h.mem_children_iff.mp (List.mem_filter.mp hcoff).1
    have hstep : l.StepUp root c id := ⟨h.child_ne_root (hup root hroot) hc, hc⟩
    obtain ⟨hsub, hway⟩ := ih ⟨c, hcoff⟩ (List.mem_cons_of_mem _ hroot) (fun d hd => by
      rcases List.mem_cons.mp hd with rfl | hd
      · exact ReflTransGen.refl
      · exact (hup d hd).head hstep) hp
    exact ⟨fun x hx => hsub (List.mem_cons_of_mem _ hx), hway⟩

theorem pathsThrough_heads (h : l.Forest) {id : DeviceId} {up : List DeviceId}
    (hroot : root ∈ id :: up) (hup : ∀ d ∈ id :: up, l.OnWay root id d) :
    ((l.pathsThrough id up).map List.head?).Nodup := by
  fun_induction pathsThrough l id up with
  | case1 id up hleaf => exact List.nodup_singleton _
  | case2 id up hleaf ih =>
    have hparent : ∀ c ∈ (l.childrenOff id (id :: up)).attach, l.parent? c.1 = some id :=
      fun c _ => h.mem_children_iff.mp (List.mem_filter.mp c.2).1
    have hbelow : ∀ c ∈ (l.childrenOff id (id :: up)).attach, ∀ d ∈ c.1 :: id :: up,
        l.OnWay root c.1 d := by
      intro c hc d hd
      rcases List.mem_cons.mp hd with rfl | hd
      · exact ReflTransGen.refl
      · exact (hup d hd).head ⟨h.child_ne_root (hup root hroot) (hparent c hc), hparent c hc⟩
    rw [List.map_flatMap, List.nodup_flatMap]
    refine ⟨fun c hc => ih c (List.mem_cons_of_mem _ hroot) (hbelow c hc), ?_⟩
    -- A leaf below two children would have both on its way up.
    have hn : (l.childrenOff id (id :: up)).attach.Nodup :=
      List.nodup_attach.mpr ((h.children_nodup id).filter _)
    refine hn.imp_of_mem ?_
    intro c c' hc hc' hne
    show List.Disjoint _ _
    rw [List.disjoint_left]
    intro x hx hx'
    obtain ⟨p, hp, rfl⟩ := List.mem_map.mp hx
    obtain ⟨p', hp', hhead⟩ := List.mem_map.mp hx'
    obtain ⟨hsub, leaf, rest, rfl, hway⟩ :=
      h.mem_pathsThrough (List.mem_cons_of_mem _ hroot) (hbelow c hc) hp
    obtain ⟨hsub', leaf', rest', rfl, hway'⟩ :=
      h.mem_pathsThrough (List.mem_cons_of_mem _ hroot) (hbelow c' hc') hp'
    obtain rfl : leaf' = leaf := Option.some.inj hhead
    exact hne (Subtype.ext (h.child_eq_of_onWay (hway _ (hsub List.mem_cons_self))
      (hway' _ (hsub' List.mem_cons_self)) (hparent c hc) (hparent c' hc')))

/-- A path from a leaf lies on the way up from that leaf. -/
theorem leafPaths_onWay (h : l.Forest) {p : List DeviceId} (hp : p ∈ l.leafPaths root)
    {leaf : DeviceId} (hleaf : p.head? = some leaf) : ∀ d ∈ p, l.OnWay root leaf d := by
  rw [leafPaths_eq] at hp
  split at hp
  · have hup : ∀ d ∈ [root], l.OnWay root root d :=
      fun d hd => List.mem_singleton.mp hd ▸ ReflTransGen.refl
    obtain ⟨_, leaf', rest, rfl, hway⟩ := h.mem_pathsThrough List.mem_cons_self hup hp
    obtain rfl : leaf' = leaf := Option.some.inj hleaf
    exact hway
  · simp at hp

/-- No leaf has two paths. -/
theorem leafPaths_heads (h : l.Forest) (root : DeviceId) :
    ((l.leafPaths root).map List.head?).Nodup := by
  rw [leafPaths_eq]
  split
  · have hup : ∀ d ∈ [root], l.OnWay root root d :=
      fun d hd => List.mem_singleton.mp hd ▸ ReflTransGen.refl
    exact h.pathsThrough_heads List.mem_cons_self hup
  · exact List.nodup_nil

end Forest

/-! ## Domains -/

theorem search_subset {met todo : List DeviceId} (h : met ⊆ l.ids) : l.search met todo ⊆ l.ids := by
  fun_induction search l met todo with
  | case1 => exact h
  | case2 met id rest ih =>
    refine ih ?_
    intro d hd
    rcases List.mem_append.mp hd with hd | hd
    · exact h hd
    · exact l.branches_subset_ids id (mem_fresh hd).1

/-- What was met stays met. -/
theorem subset_search (l : Layout) (met todo : List DeviceId) : met ⊆ l.search met todo := by
  fun_induction search l met todo with
  | case1 => exact fun _ h => h
  | case2 met id rest ih => exact fun _ h => ih (List.mem_append_left _ h)

/-- A domain holds the device that it is the domain of. -/
theorem mem_domain_self (h : l.contains root = true) : root ∈ l.domain root := by
  rw [domain, if_pos h]
  exact l.subset_search _ _ List.mem_cons_self

/-- A domain has declared devices only. -/
theorem domain_subset (l : Layout) (root : DeviceId) : l.domain root ⊆ l.ids := by
  unfold domain
  split
  · next h => exact search_subset fun d hd => List.mem_singleton.mp hd ▸ contains_iff.mp h
  · exact List.nil_subset _

/-! ## Who orchestrates -/

/-- Only declared devices are orchestrated. -/
theorem mem_ids_of_orchestratorFor {id : DeviceId} (hroot : l.orchestratorFor id = some root) :
    id ∈ l.ids := by
  obtain ⟨d, hd, _⟩ := Option.map_eq_some_iff.mp hroot
  have hmem := List.mem_of_find?_eq_some hd
  unfold chain at hmem
  cases hid : l.device? id with
  | some _ => exact device?_isSome_iff.mp (Option.isSome_of_mem hid)
  | none => cases hn : l.devices.length <;> simp [hn, climb, hid] at hmem

namespace Forest

theorem orchestratorFor_eq (h : l.Forest) {id : DeviceId} {d : Device}
    (hd : l.device? id = some d) : l.orchestratorFor id =
      if d.role.orchestrates then some d.id else d.parent.bind l.orchestratorFor := by
  unfold orchestratorFor
  rw [h.chain_eq hd, List.find?_cons]
  cases d.role.orchestrates with
  | true => rfl
  | false => cases d.parent <;> rfl

/-- Who orchestrates a device orchestrates all up to itself. -/
theorem orchestratorFor_of_onWay (h : l.Forest) {a d : DeviceId} (hw : l.OnWay root a d)
    (ha : l.orchestratorFor a = some root) : l.orchestratorFor d = some root := by
  induction hw with
  | refl => exact ha
  | tail _ hs ih =>
    obtain ⟨dev, hdev, hp⟩ := parent?_eq_some.mp hs.2
    rw [h.orchestratorFor_eq hdev, hp] at ih
    split at ih
    · -- A device on the way that orchestrates would be the nearest one itself.
      exact absurd ((device?_some hdev).2.symm.trans (Option.some.inj ih)) hs.1
    · exact ih

end Forest

end Layout

end FogNet
