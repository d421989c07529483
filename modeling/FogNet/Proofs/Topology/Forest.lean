import FogNet.Topology.Basic
import Mathlib.Data.List.Nodup

/-!
# A layout without a fault is a forest

The devices of a layout that `build` accepts have numbers of their own, their parents are declared,
and every chain of parents ends. So a chain is the device followed by the chain of its parent, and
links look the same from both ends.

## Main statements

* `forest_of_fault?` — what a layout without a fault promises
* `Forest.chain_eq` — a chain is made of a device and the chain of its parent
* `Forest.depth_parent_lt` — a parent has fewer ancestors than its child
* `Forest.link?_eq` — what joins two devices
* `Forest.link?_symm` — a link has the same latency in both directions
* `Forest.linkLatency_eq` — routing reckons with the links that messages are sent on
-/

namespace FogNet

namespace Layout

variable {l : Layout}

/-- Whether the chain of parents comes to an end. -/
def isRooted (l : Layout) (id : DeviceId) : Bool := (l.top? id).any fun d => d.parent.isNone

/-- Devices with numbers of their own, below declared parents, in trees that have a top. -/
structure Forest (l : Layout) : Prop where
  nodup : l.ids.Nodup
  parent_known : ∀ d ∈ l.devices, ∀ p, d.parent = some p → p ∈ l.ids
  rooted : ∀ d ∈ l.devices, l.isRooted d.id = true

theorem mem_ids {id : DeviceId} : id ∈ l.ids ↔ ∃ d ∈ l.devices, d.id = id := by
  simp [ids]

theorem device?_some {id : DeviceId} {d : Device} (h : l.device? id = some d) :
    d ∈ l.devices ∧ d.id = id :=
  ⟨List.mem_of_find?_eq_some h, by simpa using List.find?_some h⟩

theorem device?_isSome_iff {id : DeviceId} : (l.device? id).isSome ↔ id ∈ l.ids := by
  rw [mem_ids, device?, List.find?_isSome]
  simp

theorem contains_iff {id : DeviceId} : l.contains id = true ↔ id ∈ l.ids := device?_isSome_iff

theorem exists_device {id : DeviceId} (h : id ∈ l.ids) :
    ∃ d, l.device? id = some d ∧ d ∈ l.devices ∧ d.id = id := by
  obtain ⟨d, hd⟩ := Option.isSome_iff_exists.mp (device?_isSome_iff.mpr h)
  exact ⟨d, hd, device?_some hd⟩

theorem device?_of_mem (h : l.ids.Nodup) {d : Device} (hd : d ∈ l.devices) :
    l.device? d.id = some d := by
  obtain ⟨d', hd', hmem, hid⟩ := exists_device (mem_ids.mpr ⟨d, hd, rfl⟩)
  rw [hd', List.inj_on_of_nodup_map h hmem hd hid]

/-! ## What the checks promise -/

/-- No fault is found in different devices that were not seen before and have usable links. -/
theorem declarationFault_eq_none : ∀ {devices : List Device} {seen : List DeviceId},
    declarationFault seen devices = none ↔ (devices.map Device.id).Nodup ∧
      (∀ d ∈ devices, d.id ∉ seen) ∧ ∀ d ∈ devices, d.hasUsableLinks = true
  | [], _ => by simp [declarationFault]
  | d :: rest, seen => by
    rw [declarationFault]
    by_cases hd : d.id ∈ seen
    · simp [hd]
    · by_cases hlinks : d.hasUsableLinks = true
      · have hnew : (∀ x ∈ rest, x.id ∉ d.id :: seen) ↔
            d.id ∉ rest.map Device.id ∧ ∀ x ∈ rest, x.id ∉ seen := by
          simp only [List.mem_cons, not_or, List.mem_map, not_exists, not_and, forall_and]
        simp only [List.contains_iff_mem, hd, if_false, hlinks, Bool.not_true, Bool.false_eq_true,
          declarationFault_eq_none, hnew, List.map_cons, List.nodup_cons, List.forall_mem_cons,
          not_false_eq_true, true_and]
        exact ⟨fun ⟨hn, ⟨hd, hs⟩, hu⟩ => ⟨⟨hd, hn⟩, hs, hu⟩,
          fun ⟨⟨hd, hn⟩, hs, hu⟩ => ⟨hn, ⟨hd, hs⟩, hu⟩⟩
      · simp [hd, hlinks]

theorem parentFault_eq_none : l.parentFault = none ↔
    ∀ d ∈ l.devices, ∀ p, d.parent = some p → p ∈ l.ids := by
  rw [parentFault, List.findSome?_eq_none_iff]
  refine forall₂_congr fun d _ => ?_
  cases d.parent with
  | none => simp
  | some p => simp [← contains_iff]

theorem cycleFault_eq_none : l.cycleFault = none ↔
    ∀ d ∈ l.devices, l.endsAbove d.id l.devices.length d.parent = true := by
  rw [cycleFault, List.findSome?_eq_none_iff]
  simp

/-- Where the parents above a device come to an end, the climb from it comes to a top. -/
theorem exists_top_of_endsAbove {self : DeviceId}
    (hknown : ∀ d ∈ l.devices, ∀ p, d.parent = some p → p ∈ l.ids) :
    ∀ {steps : Nat} {id : DeviceId} {d : Device}, l.device? id = some d →
      l.endsAbove self steps d.parent = true →
        ∃ top, (l.climb steps id).getLast? = some top ∧ top.parent = none
  | 0, id, d, hd, hends => by
    cases hp : d.parent with
    | none => exact ⟨d, by simp [climb, hd], hp⟩
    | some p => simp [endsAbove, hp] at hends
  | steps + 1, id, d, hd, hends => by
    cases hp : d.parent with
    | none => exact ⟨d, by simp [climb, hd, hp], hp⟩
    | some p =>
      obtain ⟨e, he, _⟩ := exists_device (hknown d (device?_some hd).1 p hp)
      simp only [endsAbove, hp, parent?, he, Option.bind_some, Bool.and_eq_true] at hends
      obtain ⟨top, hlast, htop⟩ := exists_top_of_endsAbove hknown he hends.2
      exact ⟨top, by simp [climb, hd, hp, List.getLast?_cons, hlast], htop⟩

theorem forest_of_fault? (h : l.fault? = none) : l.Forest := by
  simp only [fault?, Option.or_eq_none_iff] at h
  obtain ⟨hdecl, hparent, hcycle⟩ := h
  have hnodup := (declarationFault_eq_none.mp hdecl).1
  have hknown := parentFault_eq_none.mp hparent
  refine ⟨hnodup, hknown, ?_⟩
  intro d hd
  obtain ⟨top, hlast, htop⟩ := exists_top_of_endsAbove hknown (device?_of_mem hnodup hd)
    (cycleFault_eq_none.mp hcycle d hd)
  simp [isRooted, top?, chain, hlast, htop]

theorem forest_of_build {t : Topology} (h : Topology.build l = .ok t) : t.toLayout.Forest := by
  rw [Topology.build_toLayout h]
  exact forest_of_fault? (Topology.build_ok_cases h).1

/-! ## Chains -/

/-- A climb that has reached a top goes no further with more steps. -/
theorem climb_succ_of_top : ∀ (steps : Nat) (id : DeviceId) {top : Device},
    (l.climb steps id).getLast? = some top → top.parent = none →
      l.climb (steps + 1) id = l.climb steps id
  | 0, id, top, h, htop => by
    cases hd : l.device? id with
    | none => simp [climb, hd]
    | some d =>
      simp only [climb, hd, Option.toList_some, List.getLast?_singleton, Option.some.injEq] at h
      simp [climb, hd, h, htop]
  | steps + 1, id, top, h, htop => by
    cases hd : l.device? id with
    | none => simp [climb, hd]
    | some d =>
      cases hp : d.parent with
      | none => simp [climb, hd, hp]
      | some p =>
        have hunfold : ∀ k, l.climb (k + 1) id = d :: l.climb k p := by
          intro k
          simp [climb, hd, hp]
        rw [hunfold] at h
        rw [hunfold, hunfold]
        rw [List.getLast?_cons] at h
        cases hl : (l.climb steps p).getLast? with
        | none =>
          rw [hl, Option.getD_none, Option.some.injEq] at h
          rw [← h, hp] at htop
          simp at htop
        | some top' =>
          rw [hl, Option.getD_some, Option.some.injEq] at h
          rw [climb_succ_of_top steps p (h ▸ hl) htop]

namespace Forest

theorem device?_eq (h : l.Forest) {d : Device} (hd : d ∈ l.devices) :
    l.device? d.id = some d :=
  device?_of_mem h.nodup hd

/-- A device is what its number stands for. -/
theorem device?_eq_some_iff (h : l.Forest) {id : DeviceId} {d : Device} :
    l.device? id = some d ↔ d ∈ l.devices ∧ d.id = id :=
  ⟨device?_some, fun ⟨hd, hid⟩ => hid ▸ h.device?_eq hd⟩

theorem parent_device (h : l.Forest) {id p : DeviceId} {d : Device} (hd : l.device? id = some d)
    (hp : d.parent = some p) : ∃ d', l.device? p = some d' := by
  obtain ⟨d', hd', _⟩ := exists_device (h.parent_known d (device?_some hd).1 p hp)
  exact ⟨d', hd'⟩

/-- A chain is the device and the chain of its parent. -/
theorem chain_eq (h : l.Forest) {id : DeviceId} {d : Device} (hd : l.device? id = some d) :
    l.chain id = d :: (d.parent.map l.chain).getD [] := by
  obtain ⟨hmem, hid⟩ := device?_some hd
  obtain ⟨k, hk⟩ : ∃ k, l.devices.length = k + 1 :=
    Nat.exists_eq_succ_of_ne_zero (Nat.pos_iff_ne_zero.mp (List.length_pos_of_mem hmem))
  unfold chain
  rw [hk]
  cases hp : d.parent with
  | none => simp [climb, hd, hp]
  | some p =>
    have hunfold : l.climb (k + 1) id = d :: l.climb k p := by simp [climb, hd, hp]
    rw [hunfold, Option.map_some, Option.getD_some]
    congr 1
    -- The chain of the child has a top, which is the top of what is above it.
    have hroot := h.rooted d hmem
    simp only [isRooted, top?, chain, hk, hid, hunfold] at hroot
    rw [List.getLast?_cons, Option.any_some] at hroot
    cases hl : (l.climb k p).getLast? with
    | none =>
      rw [hl, Option.getD_none, hp] at hroot
      simp at hroot
    | some top =>
      rw [hl, Option.getD_some] at hroot
      exact (climb_succ_of_top k p hl (Option.isNone_iff_eq_none.mp hroot)).symm

theorem chain_parent (h : l.Forest) {id p : DeviceId} {d : Device} (hd : l.device? id = some d)
    (hp : d.parent = some p) : l.chain id = d :: l.chain p := by
  rw [h.chain_eq hd, hp, Option.map_some, Option.getD_some]

theorem depth_parent_lt (h : l.Forest) {id p : DeviceId} {d : Device}
    (hd : l.device? id = some d) (hp : d.parent = some p) :
    (l.chain p).length < (l.chain id).length := by
  rw [h.chain_parent hd hp]
  exact Nat.lt_succ_self _

/-! ## Links -/

theorem childDevices_find (h : l.Forest) {id goal : DeviceId} {c : Device} :
    ((l.childDevices id).find? fun c => c.id == goal) = some c ↔
      l.device? goal = some c ∧ c.parent = some id := by
  rw [h.device?_eq_some_iff]
  constructor
  · intro hf
    have hmem := List.mem_of_find?_eq_some hf
    simp only [childDevices, List.mem_filter, beq_iff_eq] at hmem
    exact ⟨⟨hmem.1, by simpa using List.find?_some hf⟩, hmem.2⟩
  · rintro ⟨⟨hmem, hid⟩, hp⟩
    have hc : c ∈ l.childDevices id := by simp [childDevices, hmem, hp]
    obtain ⟨c', hf⟩ := Option.isSome_iff_exists.mp
      ((List.find?_isSome (p := fun c => c.id == goal)).mpr ⟨c, hc, by simpa using hid⟩)
    have hmem' := List.mem_of_find?_eq_some hf
    simp only [childDevices, List.mem_filter, beq_iff_eq] at hmem'
    have hid' : c'.id = c.id := by
      have := List.find?_some hf
      simp only [beq_iff_eq] at this
      rw [this, hid]
    rw [hf, List.inj_on_of_nodup_map h.nodup hmem'.1 hmem hid']

theorem mem_peers (h : l.Forest) {d : Device} {level : String} {o : DeviceId} :
    o ∈ l.peers d level ↔
      ∃ e, l.device? o = some e ∧ e.inLevel level = true ∧ e.parent = d.parent ∧ o ≠ d.id := by
  simp only [peers, List.mem_map, List.mem_filter, Bool.and_eq_true, beq_iff_eq, bne_iff_ne]
  constructor
  · rintro ⟨e, ⟨he, ⟨hl, hp⟩, hne⟩, rfl⟩
    exact ⟨e, h.device?_eq he, hl, hp, hne⟩
  · rintro ⟨e, he, hl, hp, hne⟩
    obtain ⟨hmem, rfl⟩ := device?_some he
    exact ⟨e, ⟨hmem, ⟨hl, hp⟩, hne⟩, rfl⟩

theorem mem_siblingsOf_symm (h : l.Forest) {d e : Device} (hd : d ∈ l.devices)
    (he : e ∈ l.devices) (hm : e.id ∈ l.siblingsOf d) : d.id ∈ l.siblingsOf e := by
  obtain ⟨level, hlevel, hin, hpeer⟩ := mem_siblingsOf.mp hm
  obtain ⟨e', he', hin', hp, hne⟩ := h.mem_peers.mp hpeer
  rw [h.device?_eq he, Option.some.injEq] at he'
  subst he'
  exact mem_siblingsOf.mpr ⟨level, hlevel, hin',
    h.mem_peers.mpr ⟨d, h.device?_eq hd, hin, hp.symm, Ne.symm hne⟩⟩

theorem link?_goal (h : l.Forest) {a b : DeviceId} {k : Link} (hk : l.link? a b = some k) :
    ∃ d e, l.device? a = some d ∧ l.device? b = some e := by
  unfold link? at hk
  obtain ⟨d, hd, hk⟩ := Option.bind_eq_some_iff.mp hk
  refine ⟨d, ?_⟩
  split at hk
  · next hp =>
    obtain ⟨e, he⟩ := h.parent_device hd hp
    exact ⟨e, hd, he⟩
  · split at hk
    · next c hc => exact ⟨c, hd, (h.childDevices_find.mp hc).1⟩
    · split at hk
      · next hs =>
        obtain ⟨level, _, _, hpeer⟩ := mem_siblingsOf.mp (List.contains_iff_mem.mp hs)
        obtain ⟨e, he, _⟩ := h.mem_peers.mp hpeer
        exact ⟨e, hd, he⟩
      · simp at hk

/-- A link goes from one of the devices to another. -/
theorem mem_ids_of_link? (h : l.Forest) {a b : DeviceId} {k : Link} (hk : l.link? a b = some k) :
    a ∈ l.ids ∧ b ∈ l.ids := by
  obtain ⟨_, _, ha, hb⟩ := h.link?_goal hk
  exact ⟨device?_isSome_iff.mp (Option.isSome_of_mem ha),
    device?_isSome_iff.mp (Option.isSome_of_mem hb)⟩

/-- The link between two devices: that to the parent, or from it, or one in a cluster. -/
theorem link?_eq (h : l.Forest) {a b : DeviceId} {d e : Device} (hd : l.device? a = some d)
    (he : l.device? b = some e) : l.link? a b =
      if d.parent = some b then some ⟨.uplink, d.uplinkLatency⟩
      else if e.parent = some a then some ⟨.downlink, e.uplinkLatency⟩
      else if (l.siblingsOf d).contains b then some ⟨.cluster, l.clusterLatency⟩ else none := by
  unfold link?
  rw [hd, Option.bind_some]
  split
  · rfl
  · split
    · next c hc =>
      obtain ⟨hc, hp⟩ := h.childDevices_find.mp hc
      rw [he, Option.some.injEq] at hc
      subst hc
      rw [if_pos hp]
    · next hc =>
      have hp : ¬ e.parent = some a := by
        intro hp
        rw [h.childDevices_find.mpr ⟨he, hp⟩] at hc
        simp at hc
      rw [if_neg hp]

/-- The latency of the link between two devices: the uplink of the lower one, or of a cluster. -/
theorem link?_latency (h : l.Forest) {a b : DeviceId} {d e : Device} (hd : l.device? a = some d)
    (he : l.device? b = some e) : (l.link? a b).map Link.latency =
      if d.parent = some b then some d.uplinkLatency
      else if e.parent = some a then some e.uplinkLatency
      else if (l.siblingsOf d).contains b then some l.clusterLatency else none := by
  rw [h.link?_eq hd he]
  split
  · rfl
  · split
    · rfl
    · split <;> rfl

/-- A device has one latency below it, and one latency beside it. -/
theorem branchLatencies_find (h : l.Forest) {b : DeviceId} (d : Device) {e : Device}
    (he : l.device? b = some e) :
    ((l.branchLatencies d).find? fun n => n.1 == b).map Prod.snd =
      if e.parent = some d.id then some e.uplinkLatency
      else if (l.siblingsOf d).contains b then some l.clusterLatency else none := by
  have hbelow : ((l.childDevices d.id).find? fun c => c.id == b) =
      if e.parent = some d.id then some e else none := by
    split
    · next hp => exact h.childDevices_find.mpr ⟨he, hp⟩
    · next hp =>
      refine Option.eq_none_iff_forall_ne_some.mpr fun c hc => hp ?_
      obtain ⟨hc, hp'⟩ := h.childDevices_find.mp hc
      rw [he, Option.some.injEq] at hc
      exact hc ▸ hp'
  have hbeside : ∀ siblings : List DeviceId,
      ((siblings.map fun s => (s, l.clusterLatency)).find? fun n => n.1 == b).map Prod.snd =
        if siblings.contains b then some l.clusterLatency else none := by
    intro siblings
    induction siblings with
    | nil => rfl
    | cons s siblings ih =>
      by_cases hs : s = b
      · simp [hs]
      · simpa [hs, Ne.symm hs] using ih
  rw [branchLatencies, List.find?_append, Option.map_or, hbeside, List.find?_map]
  show ((((l.childDevices d.id).find? fun c => c.id == b).map _).map Prod.snd).or _ = _
  rw [hbelow]
  split <;> rfl

/-- Routing reckons with the latency of the link that messages are sent on. -/
theorem linkLatency_eq (h : l.Forest) (i j : Fin l.devices.length) :
    l.linkLatency i j = (l.link? (l.idAt i) (l.idAt j)).map Link.latency := by
  have hplace : ∀ k : Fin l.devices.length, l.device? (l.idAt k) = some l.devices[k] :=
    fun k => h.device?_eq (List.getElem_mem k.isLt)
  rw [h.link?_latency (hplace i) (hplace j), linkLatency]
  show (if l.devices[i].parent = some (l.idAt j) then _
    else ((l.branchLatencies l.devices[i]).find? fun n => n.1 == l.idAt j).map Prod.snd) = _
  rw [h.branchLatencies_find l.devices[i] (hplace j)]
  rfl

/-- Of two devices at most one is the parent of the other. -/
theorem parent_asymm (h : l.Forest) {a b : DeviceId} {d e : Device} (hd : l.device? a = some d)
    (he : l.device? b = some e) (hp : d.parent = some b) : ¬ e.parent = some a := by
  intro hp'
  exact absurd (h.depth_parent_lt hd hp) (Nat.lt_asymm (h.depth_parent_lt he hp'))

theorem link?_symm (h : l.Forest) (a b : DeviceId) :
    (l.link? a b).map Link.latency = (l.link? b a).map Link.latency := by
  -- Without one of the devices there is no link in either direction.
  have missing : ∀ {a b}, ¬ (∃ d e, l.device? a = some d ∧ l.device? b = some e) →
      l.link? a b = none := by
    intro a b hno
    cases hk : l.link? a b with
    | none => rfl
    | some k => exact absurd (h.link?_goal hk) hno
  by_cases hex : ∃ d e, l.device? a = some d ∧ l.device? b = some e
  · obtain ⟨d, e, hd, he⟩ := hex
    rw [h.link?_latency hd he, h.link?_latency he hd]
    have hsib : (l.siblingsOf d).contains b = (l.siblingsOf e).contains a := by
      obtain ⟨hdm, rfl⟩ := device?_some hd
      obtain ⟨hem, rfl⟩ := device?_some he
      rw [Bool.eq_iff_iff, List.contains_iff_mem, List.contains_iff_mem]
      exact ⟨h.mem_siblingsOf_symm hdm hem, h.mem_siblingsOf_symm hem hdm⟩
    by_cases hp : d.parent = some b
    · rw [if_pos hp, if_neg (h.parent_asymm hd he hp), if_pos hp]
    · by_cases hp' : e.parent = some a
      · rw [if_neg hp, if_pos hp', if_pos hp']
      · rw [if_neg hp, if_neg hp', if_neg hp', if_neg hp, hsib]
  · rw [missing hex, missing fun ⟨e, d, he, hd⟩ => hex ⟨d, e, hd, he⟩]

end Forest

end Layout

end FogNet
