import FogNet.Proofs.Topology.Distance

/-!
# Links and clusters

Two devices are joined by one kind of link only: a parent and its child by the uplink of the child,
which is the downlink of the parent, and devices below the same parent that share a level by a
cluster link. So a link looks the same from both ends, and the link that routing reckons with is
the one that messages are sent on.

## Main statements

* `Forest.link?_uplink_iff`, `Forest.link?_downlink_iff`, `Forest.link?_cluster_iff` — which link
  there is between two devices
* `Forest.mem_siblings_iff` — which devices are siblings
* `Layout.siblings_nodup` — no sibling is listed twice, however many levels are shared
* `Topology.links_agree` — what the two ends of a link and routing make of it
-/

namespace FogNet

namespace Layout

variable {l : Layout} {a b : DeviceId} {d e : Device} {w : Duration}

/-! ## Clusters -/

theorem siblings_eq (hd : l.device? a = some d) : l.siblings a = l.siblingsOf d := by
  rw [siblings, hd, Option.map_some, Option.getD_some]

theorem joinLevel_nodup (hids : l.ids.Nodup) {found : List DeviceId} (hfound : found.Nodup)
    (level : String) : (l.joinLevel d found level).Nodup := by
  have hpeers : (l.peers d level).Nodup := hids.sublist (l.peers_sublist d level)
  unfold joinLevel
  split
  · refine List.nodup_append.mpr ⟨hfound, hpeers.filter _, ?_⟩
    intro o ho o' ho' he
    have hnew := (List.mem_filter.mp ho').2
    simp [← he, ho] at hnew
  · exact hfound

/-- No sibling is listed twice, however many levels are shared. -/
theorem siblings_nodup (hids : l.ids.Nodup) (id : DeviceId) : (l.siblings id).Nodup := by
  have hfold : ∀ (d : Device) (levels : List String) {found : List DeviceId}, found.Nodup →
      (levels.foldl (l.joinLevel d) found).Nodup := by
    intro d levels
    induction levels with
    | nil => exact fun h => h
    | cons level levels ih => exact fun h => ih (joinLevel_nodup hids h level)
  unfold siblings
  cases l.device? id with
  | none => exact List.nodup_nil
  | some d => exact hfold d l.levels List.nodup_nil

namespace Forest

/-- Siblings have the same parent, or none both, and share a level. -/
theorem mem_siblings_iff (h : l.Forest) (hd : l.device? a = some d) (he : l.device? b = some e)
    (hne : a ≠ b) : b ∈ l.siblings a ↔ d.parent = e.parent ∧
      ∃ level ∈ l.levels, d.inLevel level = true ∧ e.inLevel level = true := by
  have hid := (device?_some hd).2
  rw [siblings_eq hd, mem_siblingsOf]
  simp only [h.mem_peers, he, Option.some.injEq, exists_eq_left']
  constructor
  · rintro ⟨level, hlevel, hin, hin', hp, _⟩
    exact ⟨hp.symm, level, hlevel, hin, hin'⟩
  · rintro ⟨hp, level, hlevel, hin, hin'⟩
    exact ⟨level, hlevel, hin, hin', hp.symm, hid ▸ hne.symm⟩

/-- No device is a sibling of its parent. -/
theorem parent_ne_of_sibling (h : l.Forest) (hd : l.device? a = some d) (he : l.device? b = some e)
    (hs : b ∈ l.siblings a) : d.parent ≠ some b := by
  intro hp
  rw [siblings_eq hd] at hs
  obtain ⟨level, _, _, hpeer⟩ := mem_siblingsOf.mp hs
  obtain ⟨e', he', _, hsame, _⟩ := h.mem_peers.mp hpeer
  rw [he, Option.some.injEq] at he'
  -- The parent would be its own parent.
  exact h.parent_asymm he he (he' ▸ hsame.trans hp) (he' ▸ hsame.trans hp)

theorem mem_siblings_symm (h : l.Forest) (hd : l.device? a = some d) (he : l.device? b = some e) :
    b ∈ l.siblings a ↔ a ∈ l.siblings b := by
  rw [siblings_eq hd, siblings_eq he]
  obtain ⟨hdm, rfl⟩ := device?_some hd
  obtain ⟨hem, rfl⟩ := device?_some he
  exact ⟨h.mem_siblingsOf_symm hdm hem, h.mem_siblingsOf_symm hem hdm⟩

/-! ## Links -/

theorem link?_uplink_iff (h : l.Forest) (hd : l.device? a = some d) (he : l.device? b = some e) :
    l.link? a b = some ⟨.uplink, w⟩ ↔ d.parent = some b ∧ w = d.uplinkLatency := by
  rw [h.link?_eq hd he]
  by_cases hp : d.parent = some b
  · simp [hp, eq_comm]
  · rw [if_neg hp]
    split
    · simp [hp]
    · split <;> simp [hp]

theorem link?_downlink_iff (h : l.Forest) (hd : l.device? a = some d) (he : l.device? b = some e) :
    l.link? a b = some ⟨.downlink, w⟩ ↔ e.parent = some a ∧ w = e.uplinkLatency := by
  rw [h.link?_eq hd he]
  by_cases hp : d.parent = some b
  · simp [hp, h.parent_asymm hd he hp]
  · rw [if_neg hp]
    split
    · next hp' => simp [hp', eq_comm]
    · next hp' => split <;> simp [hp']

theorem link?_cluster_iff (h : l.Forest) (hd : l.device? a = some d) (he : l.device? b = some e) :
    l.link? a b = some ⟨.cluster, w⟩ ↔ b ∈ l.siblings a ∧ w = l.clusterLatency := by
  by_cases hs : b ∈ l.siblings a
  · have hsibling : (l.siblingsOf d).contains b = true := by
      rw [List.contains_iff_mem, ← siblings_eq hd]
      exact hs
    have hback := (h.mem_siblings_symm hd he).mp hs
    rw [h.link?_eq hd he, if_neg (h.parent_ne_of_sibling hd he hs),
      if_neg (h.parent_ne_of_sibling he hd hback), if_pos hsibling]
    simp [hs, eq_comm]
  · have hsibling : ¬ (l.siblingsOf d).contains b = true := by
      rw [List.contains_iff_mem, ← siblings_eq hd]
      exact hs
    rw [h.link?_eq hd he, if_neg hsibling]
    split
    · simp [hs]
    · split <;> simp [hs]

end Forest

end Layout

namespace Topology

variable {l : Layout} {t : Topology}

open Layout

/--
Of two devices of a topology, one is linked up to the other exactly if the other is linked down to
it, with the uplink latency of the child; both are linked sideways, with the latency of clusters,
exactly if they are siblings. Siblings have the same parent and share a level, are listed once, and
are never parent and child. Routing finds a direct link with the same latency as messages do.
-/
theorem links_agree (h : build l = .ok t) {a b : DeviceId} {d e : Device}
    (hd : t.device? a = some d) (he : t.device? b = some e) (hne : a ≠ b) :
    (∀ w, (t.link? a b = some ⟨.uplink, w⟩ ↔ t.link? b a = some ⟨.downlink, w⟩) ∧
      (t.link? a b = some ⟨.uplink, w⟩ ↔ d.parent = some b ∧ w = d.uplinkLatency)) ∧
    (∀ w, (t.link? a b = some ⟨.cluster, w⟩ ↔ t.link? b a = some ⟨.cluster, w⟩) ∧
      (t.link? a b = some ⟨.cluster, w⟩ ↔ b ∈ t.siblings a ∧ w = t.clusterLatency)) ∧
    (b ∈ t.siblings a ↔ d.parent = e.parent ∧
      ∃ level ∈ t.levels, d.inLevel level = true ∧ e.inLevel level = true) ∧
    (t.siblings a).Nodup ∧
    (b ∈ t.siblings a → d.parent ≠ some b ∧ e.parent ≠ some a) ∧
    ∃ i j, t.place? a = some i ∧ t.place? b = some j ∧
      ∀ w, (∃ kind, t.link? a b = some ⟨kind, w⟩) ↔ t.linkLatency i j = some w := by
  have hf := forest_of_build h
  refine ⟨fun w => ⟨?_, hf.link?_uplink_iff hd he⟩, fun w => ⟨?_, hf.link?_cluster_iff hd he⟩,
    hf.mem_siblings_iff hd he hne, siblings_nodup hf.nodup a, fun hs => ⟨?_, ?_⟩, ?_⟩
  · rw [hf.link?_uplink_iff hd he, hf.link?_downlink_iff he hd]
  · rw [hf.link?_cluster_iff hd he, hf.link?_cluster_iff he hd, hf.mem_siblings_symm hd he]
  · exact hf.parent_ne_of_sibling hd he hs
  · exact hf.parent_ne_of_sibling he hd ((hf.mem_siblings_symm hd he).mp hs)
  · obtain ⟨i, hi⟩ := exists_place (device?_isSome_iff.mp (Option.isSome_of_mem hd))
    obtain ⟨j, hj⟩ := exists_place (device?_isSome_iff.mp (Option.isSome_of_mem he))
    refine ⟨i, j, hi, hj, fun w => ?_⟩
    rw [hf.linkLatency_eq, place?_some hi, place?_some hj, Option.map_eq_some_iff]
    exact ⟨fun ⟨kind, hk⟩ => ⟨⟨kind, w⟩, hk, rfl⟩, fun ⟨k, hk, hw⟩ => ⟨k.kind, hw ▸ hk⟩⟩

theorem links_agree_slowCluster : 3 ∈ slowClusterTopology.siblings 2 ∧
    slowClusterTopology.link? 2 3 = some ⟨.cluster, 9⟩ ∧
    slowClusterTopology.link? 3 2 = some ⟨.cluster, 9⟩ ∧
    slowClusterTopology.link? 1 2 = some ⟨.downlink, 2⟩ := by
  obtain ⟨_, hcluster, hsiblings, _⟩ := links_agree build_slowCluster (a := 2) (b := 3) rfl rfl
    (by decide)
  obtain ⟨hup, _⟩ := links_agree build_slowCluster (a := 2) (b := 1) rfl rfl (by decide)
  have hs : 3 ∈ slowClusterTopology.siblings 2 :=
    hsiblings.mpr ⟨rfl, "gw", by decide +kernel, by decide +kernel, by decide +kernel⟩
  have hside := (hcluster 9).2.mpr ⟨hs, rfl⟩
  exact ⟨hs, hside, (hcluster 9).1.mp hside, (hup 2).1.mp ((hup 2).2.mpr ⟨rfl, rfl⟩)⟩

end Topology

end FogNet
