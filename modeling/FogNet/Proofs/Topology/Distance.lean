import FogNet.Proofs.Topology.LeafPaths
import FogNet.Proofs.Topology.Relaxation

/-!
# Distances are least latencies

What the routes of a built topology say about its devices: a distance is the least total latency of
all walks along links, there is none exactly without a walk, and the next hop is adjacent and lies
on a walk of that latency.

## Main statements

* `distance?_walk`, `distance?_le`, `nextHop_adjacent` — the three facts for any built topology
* `nextHop_of_joined` — between joined devices there is a next hop, and it is adjacent
* `distance?_least` — all of them for two declared devices
-/

namespace FogNet

/-! ## Walks between devices -/

namespace Layout

/-- A walk along the links of a layout, with the total of their latencies. -/
inductive Walk (l : Layout) : DeviceId → DeviceId → Duration → Prop where
  | stay (a : DeviceId) : Walk l a a 0
  | step {a b c : DeviceId} {k : Link} {w : Duration} (first : l.link? a b = some k)
    (rest : Walk l b c w) : Walk l a c (k.latency + w)

/-- Links lead from one device to another. -/
def Joined (l : Layout) (a b : DeviceId) : Prop := ∃ w, l.Walk a b w

variable {l : Layout}

namespace Joined

variable {a b c : DeviceId}

theorem refl (l : Layout) (a : DeviceId) : l.Joined a a := ⟨0, .stay a⟩

theorem step {k : Link} (hk : l.link? a b = some k) (h : l.Joined b c) : l.Joined a c :=
  let ⟨_, hw⟩ := h
  ⟨_, .step hk hw⟩

theorem trans (h : l.Joined a b) (h' : l.Joined b c) : l.Joined a c := by
  obtain ⟨_, hw⟩ := h
  induction hw with
  | stay => exact h'
  | step first _ ih => exact (ih h').step first

/-- Links lead both ways, so what is joined to a device is joined to its neighbours. -/
theorem back (hf : l.Forest) {k : Link} (hk : l.link? a b = some k) (h : l.Joined a c) :
    l.Joined b c := by
  have hsymm := hf.link?_symm a b
  rw [hk, Option.map_some] at hsymm
  obtain ⟨_, hback, _⟩ := Option.map_eq_some_iff.mp hsymm.symm
  exact h.step hback

theorem symm (hf : l.Forest) (h : l.Joined a b) : l.Joined b a := by
  obtain ⟨_, hw⟩ := h
  induction hw with
  | stay a => exact .refl l a
  | step first _ ih => exact ih.trans ((Joined.refl l _).back hf first)

theorem of_onWay {root : DeviceId} (h : l.OnWay root a b) : l.Joined a b := by
  induction h with
  | refl => exact .refl l a
  | tail _ hs ih =>
    obtain ⟨d, hd, hp⟩ := parent?_eq_some.mp hs.2
    exact ih.trans ((Joined.refl l _).step (link?_parent hd hp))

end Joined

/-! ## Places -/

theorem idAt_mem (i : Fin l.devices.length) : l.idAt i ∈ l.ids :=
  mem_ids.mpr ⟨l.devices[i], List.getElem_mem i.isLt, rfl⟩

theorem Forest.idAt_inj (h : l.Forest) {i j : Fin l.devices.length} (he : l.idAt i = l.idAt j) :
    i = j := by
  have hne := List.pairwise_iff_getElem.mp (List.pairwise_map.mp h.nodup)
  rcases Nat.lt_trichotomy i.val j.val with hlt | heq | hgt
  · exact absurd he (hne i j i.isLt j.isLt hlt)
  · exact Fin.ext heq
  · exact absurd he.symm (hne j i j.isLt i.isLt hgt)

theorem place?_some {id : DeviceId} {i : Fin l.devices.length} (hi : l.place? id = some i) :
    l.idAt i = id := by
  have := (List.findFinIdx?_eq_some_iff.mp hi).1
  simpa [idAt] using this

theorem exists_place {id : DeviceId} (h : id ∈ l.ids) : ∃ i, l.place? id = some i := by
  obtain ⟨d, hd, hid⟩ := mem_ids.mp h
  refine Option.isSome_iff_exists.mp ?_
  rw [place?, List.isSome_findFinIdx?, List.any_eq_true]
  exact ⟨d, hd, by simpa using hid⟩

/-- The place of a device is where the device stands. -/
theorem Forest.place?_eq_some_iff (h : l.Forest) {id : DeviceId} {i : Fin l.devices.length} :
    l.place? id = some i ↔ l.idAt i = id := by
  refine ⟨place?_some, ?_⟩
  rintro rfl
  obtain ⟨j, hj⟩ := exists_place (idAt_mem i)
  rw [hj, h.idAt_inj (place?_some hj)]

theorem Forest.linkLatency_symm (h : l.Forest) (i j : Fin l.devices.length) :
    l.linkLatency i j = l.linkLatency j i := by
  rw [h.linkLatency_eq, h.linkLatency_eq, h.link?_symm]

theorem Forest.linkLatency_some (h : l.Forest) {i j : Fin l.devices.length} {d : Duration}
    (hd : l.linkLatency i j = some d) :
    ∃ k, l.link? (l.idAt i) (l.idAt j) = some k ∧ k.latency = d :=
  Option.map_eq_some_iff.mp ((h.linkLatency_eq i j).symm.trans hd)

/-- Walks between places are walks between their devices. -/
theorem Forest.walk_of_linkWalk (h : l.Forest) {i j : Fin l.devices.length} {w : Duration}
    (hw : LinkWalk l.linkLatency i j w) : l.Walk (l.idAt i) (l.idAt j) w := by
  induction hw with
  | stay => exact .stay _
  | step first _ ih =>
    obtain ⟨k, hk, rfl⟩ := h.linkLatency_some first
    exact .step hk ih

theorem Forest.linkWalk_of_walk (h : l.Forest) {a b : DeviceId} {w : Duration}
    (hw : l.Walk a b w) : ∀ i, l.idAt i = a →
      ∃ j, l.idAt j = b ∧ LinkWalk l.linkLatency i j w := by
  induction hw with
  | stay a => exact fun i hi => ⟨i, hi, .stay i⟩
  | @step a b c k w first _ ih =>
    intro i hi
    obtain ⟨_, e, _, he⟩ := h.link?_goal first
    obtain ⟨m, hm⟩ := exists_place (device?_isSome_iff.mp (Option.isSome_of_mem he))
    obtain ⟨j, hj, hwalk⟩ := ih m (place?_some hm)
    refine ⟨j, hj, .step ?_ hwalk⟩
    rw [h.linkLatency_eq, hi, place?_some hm, first]
    rfl

end Layout

/-! ## Built topologies -/

namespace Topology

variable {l : Layout} {t : Topology}

open Layout

theorem routes_of_build (h : build l = .ok t) : Relaxation.Optimal t.linkLatency t.routes := by
  have hforest := forest_of_build h
  obtain ⟨_, rfl⟩ := build_ok_cases h
  exact Relaxation.routes_optimal hforest.linkLatency_symm

theorem route?_some {a b : DeviceId} {r : Route t.devices.length} (hr : t.route? a b = some r) :
    ∃ i j, t.place? a = some i ∧ t.place? b = some j ∧ t.routes.get i j = some r := by
  obtain ⟨i, hi, hr⟩ := Option.bind_eq_some_iff.mp hr
  obtain ⟨j, hj, hr⟩ := Option.bind_eq_some_iff.mp hr
  exact ⟨i, j, hi, hj, hr⟩

/-- Some walk has the distance as its latency. -/
theorem distance?_walk (h : build l = .ok t) {a b : DeviceId} {d : Duration}
    (hd : t.distance? a b = some d) : t.Walk a b d := by
  obtain ⟨r, hr, rfl⟩ := Option.map_eq_some_iff.mp hd
  obtain ⟨i, j, hi, hj, hr⟩ := route?_some hr
  rw [← place?_some hi, ← place?_some hj]
  exact (forest_of_build h).walk_of_linkWalk ((routes_of_build h).walk hr)

/-- No walk from a declared device has less than the distance. -/
theorem distance?_le (h : build l = .ok t) {a b : DeviceId} {w : Duration} (ha : a ∈ t.ids)
    (hw : t.Walk a b w) : ∃ d, t.distance? a b = some d ∧ d ≤ w := by
  have hforest := forest_of_build h
  obtain ⟨i, hi⟩ := exists_place ha
  obtain ⟨j, hj, hwalk⟩ := hforest.linkWalk_of_walk hw i (place?_some hi)
  obtain ⟨r, hr, hle⟩ := (routes_of_build h).least hwalk
  refine ⟨r.distance, ?_, hle⟩
  rw [distance?, route?, hi, hforest.place?_eq_some_iff.mpr hj, Option.bind_some,
    Option.bind_some, hr]
  rfl

/-- The next hop is adjacent, and the distance is that of its link and the rest of the way. -/
theorem nextHop_adjacent (h : build l = .ok t) {a b : DeviceId} {d : Duration} (hne : a ≠ b)
    (hd : t.distance? a b = some d) : ∃ hop k rest, t.nextHop a b = .ok hop ∧
      t.link? a hop = some k ∧ t.distance? hop b = some rest ∧ d = k.latency + rest := by
  have hforest := forest_of_build h
  obtain ⟨r, hroute, rfl⟩ := Option.map_eq_some_iff.mp hd
  obtain ⟨i, j, hi, hj, hr⟩ := route?_some hroute
  have hij : i ≠ j := by
    rintro rfl
    exact hne ((place?_some hi).symm.trans (place?_some hj))
  obtain ⟨first, r', hfirst, hr', hsum⟩ := (routes_of_build h).hop hr hij
  obtain ⟨k, hk, rfl⟩ := hforest.linkLatency_some hfirst
  refine ⟨t.idAt r.hop, k, r'.distance, ?_, ?_, ?_, hsum⟩
  · rw [nextHop, hroute]
  · rw [← place?_some hi]; exact hk
  · rw [distance?, route?, hforest.place?_eq_some_iff.mpr rfl, hj, Option.bind_some,
      Option.bind_some, hr']
    rfl

/-- From a declared device there is a next hop to all that are joined to it. -/
theorem exists_nextHop (h : build l = .ok t) {a b : DeviceId} (ha : a ∈ t.ids)
    (hj : t.Joined a b) : ∃ hop, t.nextHop a b = .ok hop := by
  obtain ⟨w, hw⟩ := hj
  obtain ⟨d, hd, _⟩ := distance?_le h ha hw
  obtain ⟨r, hr, _⟩ := Option.map_eq_some_iff.mp hd
  exact ⟨t.idAt r.hop, by rw [nextHop, hr]⟩

/-- Between joined devices there is a next hop, and it is adjacent. -/
theorem nextHop_of_joined (h : build l = .ok t) {a b : DeviceId} (hne : a ≠ b)
    (hj : t.Joined a b) : ∃ hop k, t.nextHop a b = .ok hop ∧ t.link? a hop = some k := by
  obtain ⟨w, hw⟩ := hj
  have ha : a ∈ t.ids := by
    cases hw with
    | stay => exact absurd rfl hne
    | step first _ =>
      obtain ⟨_, _, hd, _⟩ := (forest_of_build h).link?_goal first
      exact device?_isSome_iff.mp (Option.isSome_of_mem hd)
  obtain ⟨_, hd, _⟩ := distance?_le h ha hw
  obtain ⟨hop, k, _, hnext, hlink, _⟩ := nextHop_adjacent h hne hd
  exact ⟨hop, k, hnext, hlink⟩

/-- Distances from declared devices are least latencies, and next hops lead along them. -/
theorem distance?_least (h : build l = .ok t) {a b : DeviceId} (ha : t.contains a = true) :
    (∀ d, t.distance? a b = some d ↔ t.Walk a b d ∧ ∀ w, t.Walk a b w → d ≤ w) ∧
      (t.distance? a b = none ↔ ∀ w, ¬ t.Walk a b w) ∧
      (a ≠ b → ∀ d, t.distance? a b = some d → ∃ hop k rest, t.nextHop a b = .ok hop ∧
        t.link? a hop = some k ∧ t.distance? hop b = some rest ∧ d = k.latency + rest) := by
  have ha := contains_iff.mp ha
  refine ⟨?_, ?_, ?_⟩
  · intro d
    constructor
    · intro hd
      refine ⟨distance?_walk h hd, ?_⟩
      intro w hw
      obtain ⟨d', hd', hle⟩ := distance?_le h ha hw
      rw [hd, Option.some.injEq] at hd'
      exact hd' ▸ hle
    · rintro ⟨hw, hleast⟩
      obtain ⟨d', hd', hle⟩ := distance?_le h ha hw
      have hge : d ≤ d' := hleast d' (distance?_walk h hd')
      rw [hd', Nat.le_antisymm hle hge]
  · constructor
    · intro hn w hw
      obtain ⟨d, hd, _⟩ := distance?_le h ha hw
      rw [hn] at hd
      simp at hd
    · intro hno
      cases hd : t.distance? a b with
      | none => rfl
      | some d => exact absurd (distance?_walk h hd) (hno d)
  · intro hne d hd
    exact nextHop_adjacent h hne hd

/-- Two gateways whose cluster link is slower than the way over the cloud above them. -/
def slowCluster : Layout :=
  { devices := [
      { id := 1, name := "cloud", role := .cloud, capacity := { cpuMips := 100 } },
      { id := 2, name := "gw-a", role := .fcn, parent := some 1, capacity := { cpuMips := 10 },
        uplinkLatency := 2 },
      { id := 3, name := "gw-b", role := .fcn, parent := some 1, capacity := { cpuMips := 10 },
        uplinkLatency := 3 }]
    levels := ["gw"]
    clusterLatency := 9 }

/-- The topology of `slowCluster`: its routes are settled after one sweep. -/
def slowClusterTopology : Topology :=
  { slowCluster with routes := (Relaxation.firstSweep slowCluster.linkLatency).sweep.table }

theorem build_slowCluster : build slowCluster = .ok slowClusterTopology :=
  build_eq_ok (by decide +kernel) (Relaxation.settle_of_still (by decide +kernel))
    (by decide +kernel) (by decide +kernel)

theorem distance?_least_slowCluster : slowClusterTopology.contains 2 = true ∧
    slowClusterTopology.distance? 2 3 = some 5 ∧
    (∀ w, slowClusterTopology.Walk 2 3 w → 5 ≤ w) ∧
    ∃ hop k rest, slowClusterTopology.nextHop 2 3 = .ok hop ∧
      slowClusterTopology.link? 2 hop = some k ∧
      slowClusterTopology.distance? hop 3 = some rest ∧ 5 = k.latency + rest := by
  have h2 : slowClusterTopology.contains 2 = true := by decide +kernel
  have hd : slowClusterTopology.distance? 2 3 = some 5 := by decide +kernel
  obtain ⟨hleast, _, hnext⟩ := distance?_least build_slowCluster (b := 3) h2
  exact ⟨h2, hd, ((hleast 5).mp hd).2, hnext (by decide) 5 hd⟩

end Topology

end FogNet
