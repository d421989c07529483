import FogNet.Proofs.Placement.Whereabouts

/-!
# What requests need of the orchestrator

A request needs of the orchestrating device no more than the demand of all that it does not bring
along, and a batch takes no more from that device than those requests need that it places. Slots
come to the device for their demand at most, and nothing is ever shifted away from it, so there the
load never exceeds the demand of the slots, even if applications that only feed a microservice rate
it differently.

## Main statements

* `Application.Orderable.exists_ready` — while something is left of what can be ordered, something
  is ready
* `Covered.shift`, `Covered.placeRequest` — the load of the orchestrating device never exceeds the
  demand of its slots
* `root_load_le` — what a batch takes from the orchestrating device is needed by what it places
-/

namespace FogNet

/-! ## What is left to place -/

namespace Application

variable {app : Application} {placed placed' : List Name} {n : Name}

/--
What is left to place can be listed so that whatever a microservice requires comes before it, unless
that is placed already.
-/
def Orderable (app : Application) (placed : List Name) : Prop :=
  ∃ order : List Name, (∀ n, n ∈ order ↔ n ∈ app.outstanding placed)
    ∧ ∀ before n after, order = before ++ n :: after →
        ∀ r ∈ app.requirements n, r ∈ before ∨ r ∈ placed

/-- With nothing left there is nothing to order. -/
theorem orderable_of_placed (h : ∀ n ∈ app.names, n ∈ placed) : app.Orderable placed := by
  refine ⟨[], fun n => ?_, fun before n after he => by simp at he⟩
  rw [mem_outstanding]
  exact ⟨fun hn => absurd hn List.not_mem_nil, fun hn => absurd (h n hn.1) hn.2⟩

/-- What is ready can come first. -/
theorem Orderable.of_ready (hn : n ∈ app.readyToPlace placed) (h : app.Orderable (n :: placed)) :
    app.Orderable placed := by
  obtain ⟨hname, hnew, hready⟩ := mem_readyToPlace.mp hn
  obtain ⟨order, hall, hrequired⟩ := h
  refine ⟨n :: order, fun m => ?_, fun before m after he r hr => ?_⟩
  · rw [List.mem_cons, hall, mem_outstanding, mem_outstanding, List.mem_cons, not_or]
    by_cases hm : m = n
    · subst hm
      simp [hname, hnew]
    · simp [hm]
  · cases before with
    | nil =>
      obtain ⟨rfl, _⟩ := List.cons.inj he
      exact Or.inr (hready r hr)
    | cons _ before =>
      obtain ⟨rfl, hrest⟩ := List.cons.inj he
      rcases hrequired before m after hrest r hr with h | h
      · exact Or.inl (List.mem_cons_of_mem _ h)
      · rcases List.mem_cons.mp h with rfl | h
        · exact Or.inl List.mem_cons_self
        · exact Or.inr h

/-- While something is left of what can be ordered, something is ready. -/
theorem Orderable.exists_ready (h : app.Orderable placed) (hsub : placed ⊆ placed')
    (hn : n ∈ app.names) (hnew : n ∉ placed') : ∃ m, m ∈ app.readyToPlace placed' := by
  obtain ⟨order, hall, hrequired⟩ := h
  have hmem : n ∈ order := (hall n).mpr (mem_outstanding.mpr ⟨hn, fun hp => hnew (hsub hp)⟩)
  -- The first one in this order that is not placed.
  obtain ⟨m, hm⟩ := Option.isSome_iff_exists.mp
    ((List.find?_isSome (p := fun n => !placed'.contains n)).mpr ⟨n, hmem, by simpa using hnew⟩)
  obtain ⟨hleft, before, after, rfl, hbefore⟩ := List.find?_eq_some_iff_append.mp hm
  have hdeclared := mem_outstanding.mp
    ((hall m).mp (List.mem_append_right _ List.mem_cons_self))
  refine ⟨m, mem_readyToPlace.mpr ⟨hdeclared.1, by simpa using hleft, fun r hr => ?_⟩⟩
  rcases hrequired before m after rfl r hr with hr | hr
  · simpa using hbefore r hr
  · exact hsub hr

/-- What is required by what is left to place is placed, or left to place as well. -/
theorem Orderable.required (h : app.Orderable placed) (hn : n ∈ app.outstanding placed) {r : Name}
    (hr : r ∈ app.requirements n) : r ∈ app.outstanding placed ∨ r ∈ placed := by
  obtain ⟨order, hall, hrequired⟩ := h
  obtain ⟨before, after, rfl⟩ := List.append_of_mem ((hall n).mpr hn)
  exact (hrequired before n after rfl r hr).imp_left fun hr =>
    (hall r).mp (List.mem_append_left _ hr)

end Application

/-! ## The orchestrating device -/

namespace PlacementSetting

variable {s : PlacementSetting} {requests : List Request} {app : Application} {l l' : Ledger}
  {d : DeviceId}

/-- The load of the orchestrating device does not exceed the demand of its slots. -/
def Covered (s : PlacementSetting) (l : Ledger) : Prop :=
  l.load s.root ≤ s.applications.cost (l.holding s.root).slots

theorem covered_start : s.Covered (.start s.domain) := by
  rw [Covered, Ledger.load, Ledger.holding_start]
  exact Nat.zero_le _

namespace Covered

/-- It matters only what the orchestrating device holds. -/
theorem congr (h : s.Covered l) (he : l'.holding s.root = l.holding s.root) : s.Covered l' := by
  rw [Covered, Ledger.load, he]
  exact h

/-- Slots come to a device for their demand at most. -/
theorem gain (h : s.Covered l) (hc : l.contains d = true) {slots : List Slot} {load : Nat}
    (hload : load ≤ s.applications.cost slots) : s.Covered (l.modify d fun v =>
      { load := wrap (v.load + load), slots := v.slots ++ slots }) := by
  by_cases hd : d = s.root
  · subst hd
    rw [Covered, Ledger.load] at h ⊢
    rw [Ledger.holding_modify_self hc, Applications.cost_append]
    exact Nat.le_trans (wrap_le _) (Nat.add_le_add h hload)
  · exact h.congr (Ledger.holding_modify_ne (Ne.symm hd) _)

theorem add (h : s.Covered l) (ha : s.applications.Alike) (happ : app ∈ s.applications.values)
    (hc : l.contains d = true) (slot : Slot) :
    s.Covered (l.add d slot (app.mipsOf slot.microservice)) := by
  rw [Ledger.add_eq_modify hc]
  exact h.gain hc (ha.mipsOf_le happ slot.microservice)

theorem settle (h : s.Covered l) {m : Moving} (hm : m.load ≤ s.applications.cost m.slots)
    (hc : l.contains d = true) : s.Covered (m.settle l d) :=
  h.gain hc hm

/-- What moves has no more load than demand, whatever is taken along below the root. -/
theorem collect (h : s.Covered l) (ha : s.applications.Alike) (happ : app ∈ s.applications.values)
    {m : Moving} (hm : m.load ≤ s.applications.cost m.slots) (hd : d ≠ s.root)
    (names : List Name) : s.Covered (m.collect app l d names).1
      ∧ (m.collect app l d names).2.load
        ≤ s.applications.cost (m.collect app l d names).2.slots := by
  rw [Moving.collect]
  refine ⟨h.congr (Ledger.holding_modify_ne (Ne.symm hd) _), ?_⟩
  rw [Applications.cost_append]
  exact Nat.le_trans (wrap_le _) (Nat.add_le_add hm (ha.demand_le happ _))

/-- Nothing is lifted from the root, so a shift only ever brings slots to it. -/
theorem shift (h : s.Covered l) (ha : s.applications.Alike) (happ : app ∈ s.applications.values)
    {slot : Slot} (hl : s.shift app l slot d = some l') : s.Covered l' := by
  refine shift_rule (J := s.Covered) (I := fun c l m =>
    c = s.root ∨ (s.Covered l ∧ m.load ≤ s.applications.cost m.slots)) ?_ ?_ ?_ hl
  · intro c p l m hs hp hI
    obtain ⟨hcovered, hm⟩ := hI.resolve_left hs.1
    exact hcovered.settle hm hp
  · intro c p l m hs hp hI
    obtain ⟨hcovered, hm⟩ := hI.resolve_left hs.1
    by_cases hroot : p = s.root
    · exact Or.inl hroot
    · exact Or.inr (hcovered.collect ha happ hm hroot _)
  · by_cases hroot : d = s.root
    · exact Or.inl hroot
    · obtain ⟨hcovered, hm⟩ := h.collect (m := ⟨[], [], 0⟩) ha happ (Nat.zero_le _) hroot
        (app.closeUp (l.hosts d) [slot.microservice])
      refine Or.inr ⟨hcovered, ?_⟩
      rw [departing, Applications.cost_append]
      exact Nat.le_trans (wrap_le _) (Nat.add_le_add hm (ha.mipsOf_le happ slot.microservice))

theorem attempt {w : Walk} (h : s.Covered w.ledger) (ha : s.applications.Alike)
    (happ : app ∈ s.applications.values) (hc : w.ledger.contains d = true) (path : List DeviceId)
    (id : RequestId) (name : Name) : s.Covered (s.attempt app path id d w name).ledger := by
  rcases s.attempt_cases app path id d w name with ⟨hl, _⟩ | ⟨_, ⟨_, hl⟩ | hl⟩
  · rw [hl]
    exact h
  · rw [hl]
    exact h.add ha happ hc ⟨id, app.id, name⟩
  · exact h.shift ha happ hl

theorem walk (h : s.Covered l) (ha : s.applications.Alike) (happ : app ∈ s.applications.values)
    (path : List DeviceId) (r : Request) (failures : Nat) :
    s.Covered (s.walk app path r l failures).ledger := by
  refine walk_induction (I := fun _ w => s.Covered w.ledger) h ?_ ?_
  · exact fun _ _ _ h => h
  · exact fun _ _ _ _ name _ hu _ h => h.attempt ha happ (Advances.of_usable hu) path r.id name

/-- Taking back the slots of a request takes back their demand, if all it needs fits a word. -/
theorem rollback {r : Request} {own : List Name} {w : Walk} (h : s.Covered w.ledger)
    (ha : s.applications.Alike) (happ : s.applications.get? r.app = some app)
    (hrange : s.applications.need r < UInt64.size)
    (hw : s.Advances requests r app l own w) : s.Covered (w.ledger.rollback app r.id) := by
  let gone := (w.ledger.holding s.root).slots.filter fun x => !(x.request != r.id)
  have hgone : ∀ x ∈ gone, r.id = x.request ∧ x.microservice ∈ app.outstanding r.placed.keys := by
    intro x hx
    obtain ⟨hx, hid⟩ := List.mem_filter.mp hx
    have hid : x.request = r.id := by simpa using hid
    exact ⟨hid.symm, hw.mem_outstanding x (Ledger.mem_slots.mpr ⟨_, hx⟩) hid⟩
  have hunique : (gone.map Slot.purpose).Nodup := hw.unique.sublist
    ((List.filter_sublist.trans (w.ledger.slots_sublist s.root)).map Slot.purpose)
  have hneed : s.applications.cost gone ≤ sumOf ([r].map s.applications.need) :=
    ha.cost_le_need hunique fun x hx =>
      ⟨r, List.mem_cons_self, (hgone x hx).1, app, happ, (hgone x hx).2⟩
  have hdemand : Holding.demand app gone = s.applications.cost gone := by
    rw [Applications.demand_eq, wrap_of_lt (Nat.lt_of_le_of_lt hneed hrange)]
    exact fun x hx => ha.mipsOf_eq (Applications.mem_values happ)
      (Application.mem_outstanding.mp (hgone x hx).2).1
  have hsplit : s.applications.cost
        ((w.ledger.holding s.root).slots.filter fun x => x.request != r.id)
      + s.applications.cost gone = s.applications.cost (w.ledger.holding s.root).slots :=
    s.applications.cost_filter _ _
  rw [Covered, Ledger.load] at h ⊢
  rw [Ledger.holding_rollback, Holding.withoutRequest, Holding.keep, hdemand]
  simp only
  omega

theorem placeRequest {r : Request} {b : Batch} {done : List RequestId} {path : List DeviceId}
    (h : s.Covered b.ledger) (ha : s.applications.Alike)
    (hrange : s.applications.need r < UInt64.size) (hb : s.Consistent requests done b)
    (hr : r ∈ requests) (hway : ∀ d ∈ path, s.layout.OnWay s.root r.gateway d)
    (hnew : r.id ∉ done) : s.Covered (s.placeRequest path b r).ledger := by
  unfold PlacementSetting.placeRequest
  split
  · exact h
  · next app happ =>
    have hwalk := h.walk ha (Applications.mem_values happ) path r b.failures
    obtain ⟨own, hw⟩ := hb.walk hr happ hway hnew
    simp only
    split
    · exact hwalk
    · exact hwalk.rollback ha happ hrange hw

end Covered

/-! ## A batch -/

/-- What a walk has placed it has placed in an order. -/
theorem orderable_of_walk (path : List DeviceId) (r : Request) (l : Ledger) (failures : Nat) :
    app.Orderable (s.walk app path r l failures).placed → app.Orderable r.placed.keys := by
  refine walk_induction (I := fun _ w => app.Orderable w.placed → app.Orderable r.placed.keys)
    ?_ ?_ ?_
  · exact fun h => h
  · exact fun _ _ _ h => h
  · intro _ d _ w name _ _ hready ih h
    rcases s.attempt_cases app path r.id d w name with ⟨_, hp⟩ | ⟨hp, _⟩
    · exact ih (hp ▸ h)
    · exact ih (.of_ready hready (hp ▸ h))

/-- Of other requests the same are complete as before. -/
theorem mem_complete_placeRequest {b : Batch} {path : List DeviceId} {r : Request} {id : RequestId}
    (hid : id ≠ r.id) : id ∈ (s.placeRequest path b r).complete ↔ id ∈ b.complete := by
  unfold placeRequest
  split
  · exact Iff.rfl
  · simp only
    split
    · simp [hid]
    · exact Iff.rfl

/-- A request that is complete after its walk can be ordered. -/
theorem Consistent.orderable {r : Request} {b : Batch} {done : List RequestId}
    {path : List DeviceId} (hb : s.Consistent requests done b) (hr : r ∈ requests)
    (hway : ∀ d ∈ path, s.layout.OnWay s.root r.gateway d) (hnew : r.id ∉ done)
    (happ : s.applications.get? r.app = some app)
    (h : r.id ∈ (s.placeRequest path b r).complete) : app.Orderable r.placed.keys := by
  unfold PlacementSetting.placeRequest at h
  rw [happ] at h
  simp only at h
  split at h
  · next hcomplete =>
    obtain ⟨own, hw⟩ := hb.walk hr happ hway hnew
    refine orderable_of_walk (s := s) path r b.ledger b.failures
      (Application.orderable_of_placed ?_)
    intro n hname
    rw [hw.placed, List.mem_append]
    rcases isComplete_iff.mp hcomplete n hname with hk | hserves
    · exact Or.inr hk
    · obtain ⟨x, hx, hpurpose⟩ := serves_iff.mp hserves
      rcases List.mem_append.mp (hw.grows.slots.mem_iff.mp hx) with hx | hx
      · exact absurd (Prod.mk.inj hpurpose).1 (hb.not_mem hnew x hx)
      · obtain ⟨n', hn', rfl⟩ := List.mem_map.mp hx
        exact Or.inl ((Prod.mk.inj hpurpose).2 ▸ hn')
  · exact absurd (hb.done _ h) hnew

variable (hf : s.layout.Forest) (hn : (requests.map Request.id).Nodup)
include hf hn

/-- What a batch places completely can be ordered. -/
theorem orderable_of_contains_run {r : Request} (hr : r ∈ requests)
    (happ : s.applications.get? r.app = some app)
    (h : (s.run requests).placement.contains r.id = true) : app.Orderable r.placed.keys := by
  obtain ⟨b, hb, hall, _, hp⟩ := visits_induction hf hn (I := fun visited b => ∀ v ∈ visited,
    v.2.id ∈ b.complete → ∀ app, s.applications.get? v.2.app = some app →
      app.Orderable v.2.placed.keys) (fun _ hv => absurd hv List.not_mem_nil) (by
    intro before path r after b hsplit hnew hb ih v hv hid app happ
    rcases List.mem_append.mp hv with hv | hv
    · have hne : v.2.id ≠ r.id := fun he => hnew (he ▸ List.mem_map.mpr ⟨v, hv, rfl⟩)
      exact ih v hv ((mem_complete_placeRequest hne).mp hid) app happ
    · obtain rfl := List.mem_singleton.mp hv
      obtain ⟨hpath, hr, hhead⟩ := mem_visits.mp
        (hsplit ▸ List.mem_append_right before List.mem_cons_self : (path, r) ∈ s.visits requests)
      exact hb.orderable hr (hf.leafPaths_onWay hpath hhead) hnew happ hid)
  rw [hp, Ledger.contains_assemble] at h
  obtain ⟨⟨path, r'⟩, hv, hid⟩ := List.mem_map.mp (hb.done _ h)
  obtain rfl : r' = r := List.inj_on_of_nodup_map hn (mem_visits.mp hv).2.1 hr hid
  exact hall _ hv h app happ

/-- What a batch puts on a device is left to place for a request that it places. -/
theorem mem_outstanding_of_run {id : RequestId} {name : Name}
    (h : (id, name) ∈ (s.run requests).placement.on d) :
    ∃ r ∈ requests, r.id = id ∧ (s.run requests).placement.contains id = true
      ∧ ∃ app, s.applications.get? r.app = some app
        ∧ name ∈ app.outstanding r.placed.keys := by
  have hcontains := Placement.contains_of_mem_on h
  obtain ⟨a, hget, hname⟩ := Option.bind_eq_some_iff.mp (Placement.mem_on.mp h)
  obtain ⟨r, hr, hid, app, happ, hkeys⟩ := run_keys hf hn hget
  refine ⟨r, hr, hid, hcontains, app, happ, ?_⟩
  refine Application.mem_outstanding.mpr ((hkeys name).mp ?_)
  rw [SortedMap.mem_keys_iff, SortedMap.contains_eq, hname]
  rfl

variable (ha : s.applications.Alike) (hrange : s.applications.WithinWord requests)
include ha hrange

theorem covered_run : s.Covered (s.run requests).ledger := by
  obtain ⟨b, _, h, hl, _⟩ := visits_induction (I := fun _ b => s.Covered b.ledger) hf hn
    covered_start fun before path r after b hsplit hnew hb h => by
      obtain ⟨hpath, hr, hhead⟩ := mem_visits.mp
        (hsplit ▸ List.mem_append_right before List.mem_cons_self : (path, r) ∈ s.visits requests)
      exact h.placeRequest ha (hrange.need_lt hr) hb hr (hf.leafPaths_onWay hpath hhead) hnew
  rw [hl]
  exact h

/-- What a batch takes from the orchestrating device is needed by the requests that it places. -/
theorem root_load_le : (s.run requests).ledger.load s.root
    ≤ sumOf ((requests.filter fun r => (s.run requests).placement.contains r.id).map
        s.applications.need) := by
  have hon := run_on hf hn s.root
  refine Nat.le_trans (covered_run hf hn ha hrange) (ha.cost_le_need ?_ fun x hx => ?_)
  · exact hon.nodup_iff.mpr (Placement.on_nodup _ _)
  · obtain ⟨r, hr, hid, hplaced, app, happ, hname⟩ := mem_outstanding_of_run hf hn
      (hon.mem_iff.mp (List.mem_map_of_mem hx))
    exact ⟨r, List.mem_filter.mpr ⟨hr, hid ▸ hplaced⟩, hid, app, happ, hname⟩

end PlacementSetting

end FogNet
