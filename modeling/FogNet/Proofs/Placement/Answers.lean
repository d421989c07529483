import FogNet.Proofs.Folds
import FogNet.Proofs.Placement.Outcome

/-!
# Whom a batch answers, and with what

A batch answers a request if its gateway has a path and its application is registered, and if on the
walk everything that was not placed before got a slot. Walks for other requests move slots, and
those that fail take their own slots back. Neither adds to the slots of an answered request or takes
from them, so at the end the answers can be read off the last ledger.

## Main statements

* `walk_induction`, `visits_induction` — the loops of placement as induction principles
* `settled_run` — the ledger at the end tells which of the visited requests are complete
* `run_contains_iff` — a batch answers just the requests that it placed completely
* `run_keys` — an answer names what the application declares and the request does not bring along
-/

namespace FogNet

namespace PlacementSetting

variable {s : PlacementSetting} {requests : List Request} {app : Application}
  {path : List DeviceId} {d : DeviceId} {w : Walk}

theorem attempt_contains (s : PlacementSetting) (app : Application) (path : List DeviceId)
    (id : RequestId) (hd : w.ledger.contains d = true) (name : Name) (e : DeviceId) :
    (s.attempt app path id d w name).ledger.contains e = w.ledger.contains e := by
  rcases s.attempt_cases app path id d w name with ⟨hl, _⟩ | ⟨_, ⟨_, hl⟩ | hl⟩
  · rw [hl]
  · rw [hl]
    exact (Ledger.grows_add hd _ _).contains e
  · exact (grows_shift hl).contains e

theorem usable_congr {l l' : Ledger} (h : l'.contains d = l.contains d) :
    s.usable l' d = s.usable l d := by
  unfold usable
  rw [h]

/-- What every attempt on a device keeps holds when the device is left. -/
theorem fill_induction {I : Walk → Prop} {id : RequestId} (path : List DeviceId)
    (step : ∀ w name, s.usable w.ledger d = true → name ∈ app.readyToPlace w.placed → I w →
      I (s.attempt app path id d w name))
    (tried : List Name) (hu : s.usable w.ledger d = true) (h : I w) :
    I (s.fill app path id d w tried) := by
  fun_induction PlacementSetting.fill s app path id d w tried with
  | case1 => exact h
  | case2 w tried name hname ih =>
    have hready := List.mem_of_find?_eq_some hname
    have hkeep := attempt_contains s app path id (Advances.of_usable hu) name d
    exact ih ((usable_congr hkeep).trans hu) (step w name hu hready h)

/-- What is tried on a device, in this order. -/
def tries (s : PlacementSetting) (app : Application) (path : List DeviceId) (request : RequestId)
    (device : DeviceId) (w : Walk) (tried : List Name) : List Name :=
  match _h : (app.readyToPlace w.placed).find? fun n => !tried.contains n with
  | none => []
  | some name =>
    name :: s.tries app path request device (s.attempt app path request device w name)
      (name :: tried)
termination_by remaining app.names tried
decreasing_by
  have hready := List.mem_of_find?_eq_some _h
  have hnew : name ∉ tried := by simpa using List.find?_some _h
  exact remaining_lt (fun x hx => List.mem_cons_of_mem _ hx)
    (Application.mem_readyToPlace.mp hready).1 hnew List.mem_cons_self

theorem fill_eq (s : PlacementSetting) (app : Application) (path : List DeviceId) (id : RequestId)
    (d : DeviceId) (w : Walk) (tried : List Name) : s.fill app path id d w tried
      = (s.tries app path id d w tried).foldl (s.attempt app path id d) w := by
  fun_induction PlacementSetting.fill s app path id d w tried with
  | case1 w tried hnone =>
    unfold tries
    split
    · rfl
    · next name hname => rw [hnone] at hname; cases hname
  | case2 w tried name hname ih =>
    unfold tries
    split
    · next hnone => rw [hname] at hnone; cases hnone
    · next name' hname' =>
      obtain rfl := Option.some.inj (hname.symm.trans hname')
      exact ih

/--
What every attempt of a walk keeps holds at its end. It may speak of the devices that were met, the
present one included.
-/
theorem walk_induction {I : List DeviceId → Walk → Prop} {r : Request} {l : Ledger}
    {failures : Nat} (start : I [] ⟨l, r.placed.keys, failures⟩)
    (next : ∀ met d w, I met w → I (met ++ [d]) w)
    (step : ∀ met d after w name, path = met ++ d :: after → s.usable w.ledger d = true →
      name ∈ app.readyToPlace w.placed → I (met ++ [d]) w →
        I (met ++ [d]) (s.attempt app path r.id d w name)) :
    I path (s.walk app path r l failures) := by
  refine foldl_rule start ?_
  intro met d after w hpath h
  have hmet := next met d w h
  split
  · next hu => exact fill_induction path (fun w name => step met d after w name hpath) [] hu hmet
  · exact hmet

/-- A walk that goes on over some devices. -/
def walkPast (s : PlacementSetting) (app : Application) (path : List DeviceId) (id : RequestId)
    (devices : List DeviceId) (w : Walk) : Walk :=
  devices.foldl
    (fun w device => if s.usable w.ledger device then s.fill app path id device w [] else w) w

theorem walk_eq (s : PlacementSetting) (app : Application) (path : List DeviceId) (r : Request)
    (l : Ledger) (failures : Nat) : s.walk app path r l failures
      = s.walkPast app path r.id path ⟨l, r.placed.keys, failures⟩ := rfl

theorem walkPast_append (s : PlacementSetting) (app : Application) (path : List DeviceId)
    (id : RequestId) (devices more : List DeviceId) (w : Walk) :
    s.walkPast app path id (devices ++ more) w
      = s.walkPast app path id more (s.walkPast app path id devices w) :=
  List.foldl_append

/-- A walk leaves the ledger with the same devices, at any moment. -/
theorem walkPast_contains (s : PlacementSetting) (app : Application) (path : List DeviceId)
    (id : RequestId) (devices : List DeviceId) (w : Walk) (e : DeviceId) :
    (s.walkPast app path id devices w).ledger.contains e = w.ledger.contains e := by
  refine foldl_rule (I := fun _ (w' : Walk) => w'.ledger.contains e = w.ledger.contains e) rfl ?_
  intro _ d _ w' _ h
  split
  · next hu =>
    refine fill_induction (I := fun w' => w'.ledger.contains e = w.ledger.contains e) path ?_
      [] hu h
    intro w' name hu _ h
    exact (attempt_contains s app path id (Advances.of_usable hu) name e).trans h
  · exact h

theorem walk_contains (s : PlacementSetting) (app : Application) (path : List DeviceId)
    (r : Request) (l : Ledger) (failures : Nat) (e : DeviceId) :
    (s.walk app path r l failures).ledger.contains e = l.contains e := by
  rw [walk_eq]
  exact s.walkPast_contains app path r.id path _ e

/-- So does placing a request, whether it is taken back or not. -/
theorem placeRequest_contains (s : PlacementSetting) (path : List DeviceId) (b : Batch)
    (r : Request) (e : DeviceId) :
    (s.placeRequest path b r).ledger.contains e = b.ledger.contains e := by
  unfold PlacementSetting.placeRequest
  split
  · rfl
  · next app _ =>
    have hwalk := walk_contains s app path r b.ledger b.failures e
    simp only
    split
    · exact hwalk
    · exact (Ledger.contains_rollback app r.id _ e).trans hwalk

/-! ## Slots of a request -/

theorem serves_iff {l : Ledger} {id : RequestId} {name : Name} :
    l.serves id name = true ↔ ∃ x ∈ l.slots, x.purpose = (id, name) := by
  simp only [Ledger.serves, List.any_eq_true, Bool.and_eq_true, beq_iff_eq, Slot.purpose,
    Prod.mk.injEq, Ledger.slots_eq, List.mem_flatMap, SortedMap.values, List.mem_map]
  constructor
  · rintro ⟨_, ⟨e, he, rfl⟩, x, hx, hname, hid⟩
    exact ⟨x, ⟨e, he, hx⟩, hid, hname⟩
  · rintro ⟨x, ⟨e, he, hx⟩, hid, hname⟩
    exact ⟨_, ⟨e, he, rfl⟩, x, hx, hname, hid⟩

theorem serves_congr {l l' : Ledger} {id : RequestId}
    (h : ∀ x, x.request = id → (x ∈ l.slots ↔ x ∈ l'.slots)) (name : Name) :
    l.serves id name = l'.serves id name := by
  rw [Bool.eq_iff_iff, serves_iff, serves_iff]
  refine exists_congr fun x => ?_
  constructor
  · rintro ⟨hx, hp⟩
    exact ⟨(h x (Prod.mk.inj hp).1).mp hx, hp⟩
  · rintro ⟨hx, hp⟩
    exact ⟨(h x (Prod.mk.inj hp).1).mpr hx, hp⟩

/-- A request has no slots once they were taken back. -/
theorem serves_rollback (app : Application) (id : RequestId) (l : Ledger) (name : Name) :
    (l.rollback app id).serves id name = false := by
  rw [Bool.eq_false_iff, ne_eq, serves_iff, Ledger.slots_rollback]
  rintro ⟨x, hx, hp⟩
  have hkept := (List.mem_filter.mp hx).2
  rw [(Prod.mk.inj hp).1] at hkept
  simp at hkept

theorem isComplete_iff {r : Request} {l : Ledger} : isComplete app r l = true ↔
    ∀ n ∈ app.names, n ∈ r.placed.keys ∨ l.serves r.id n = true := by
  simp [isComplete, SortedMap.mem_keys_iff]

theorem isComplete_congr {r : Request} {l l' : Ledger}
    (h : ∀ n, l.serves r.id n = l'.serves r.id n) : isComplete app r l = isComplete app r l' := by
  simp only [isComplete, h]

/-! ## One request -/

/-- A walk adds slots only for what was not placed. -/
theorem Advances.serves_placed {r : Request} {l : Ledger} {own : List Name}
    (h : s.Advances requests r app l own w) {n : Name} (hn : n ∈ r.placed.keys) :
    w.ledger.serves r.id n = false := by
  rw [Bool.eq_false_iff, ne_eq, serves_iff]
  rintro ⟨x, hx, hp⟩
  obtain ⟨hid, rfl⟩ := Prod.mk.inj hp
  exact (Application.mem_outstanding.mp (h.mem_outstanding x hx hid)).2 hn

namespace Consistent

variable {r : Request} {b : Batch} {done : List RequestId}

/-- Placing one request leaves the slots of all others alone, but for where they are. -/
theorem placeRequest_slots (h : s.Consistent requests done b) (hr : r ∈ requests)
    (hway : ∀ d ∈ path, s.layout.OnWay s.root r.gateway d) (hnew : r.id ∉ done) {x : Slot}
    (hx : x.request ≠ r.id) :
    x ∈ b.ledger.slots ↔ x ∈ (s.placeRequest path b r).ledger.slots := by
  unfold PlacementSetting.placeRequest
  split
  · exact Iff.rfl
  · next app happ =>
    obtain ⟨own, hw⟩ := h.walk hr happ hway hnew
    have hwalk : x ∈ (s.walk app path r b.ledger b.failures).ledger.slots ↔ x ∈ b.ledger.slots := by
      rw [hw.grows.slots.mem_iff, List.mem_append, or_iff_left]
      intro hown
      obtain ⟨n, _, rfl⟩ := List.mem_map.mp hown
      exact hx rfl
    simp only
    split
    · exact hwalk.symm
    · rw [Ledger.slots_rollback, List.mem_filter, hwalk, and_iff_left (by simpa using hx)]

theorem placeRequest_serves (h : s.Consistent requests done b) (hr : r ∈ requests)
    (hway : ∀ d ∈ path, s.layout.OnWay s.root r.gateway d) (hnew : r.id ∉ done) {id : RequestId}
    (hid : id ≠ r.id) (name : Name) :
    b.ledger.serves id name = (s.placeRequest path b r).ledger.serves id name :=
  serves_congr (fun _ hx => h.placeRequest_slots hr hway hnew (hx ▸ hid)) name

/-- A request that has not been walked for has no slots. -/
theorem serves_eq_false (h : s.Consistent requests done b) (hnew : r.id ∉ done) (name : Name) :
    b.ledger.serves r.id name = false := by
  rw [Bool.eq_false_iff, ne_eq, serves_iff]
  rintro ⟨x, hx, hp⟩
  exact h.not_mem hnew x hx (Prod.mk.inj hp).1

end Consistent

/--
What the ledger tells of the requests that were walked for: who is complete, and that nothing has a
slot that a request brought along.
-/
structure Settled (s : PlacementSetting) (visited : List (List DeviceId × Request)) (b : Batch) :
    Prop where
  complete : ∀ v ∈ visited, v.2.id ∈ b.complete ↔
    ∃ app, s.applications.get? v.2.app = some app ∧ isComplete app v.2 b.ledger = true
  apart : ∀ v ∈ visited, ∀ n ∈ v.2.placed.keys, b.ledger.serves v.2.id n = false

theorem settled_start (s : PlacementSetting) : s.Settled [] { ledger := .start s.domain } :=
  ⟨fun _ hv => absurd hv List.not_mem_nil, fun _ hv => absurd hv List.not_mem_nil⟩

namespace Settled

variable {r : Request} {b b' : Batch} {done : List RequestId}
  {visited : List (List DeviceId × Request)}

/-- What is told of other requests stays told when their slots stay and they stay complete. -/
theorem keep (h : s.Settled visited b) (hne : ∀ v ∈ visited, v.2.id ≠ r.id)
    (hserves : ∀ id n, id ≠ r.id → b.ledger.serves id n = b'.ledger.serves id n)
    (hcomplete : ∀ id, id ≠ r.id → (id ∈ b'.complete ↔ id ∈ b.complete)) :
    s.Settled visited b' := by
  constructor
  · intro v hv
    rw [hcomplete _ (hne v hv), h.complete v hv]
    refine exists_congr fun app => and_congr_right fun _ => ?_
    rw [isComplete_congr fun n => hserves _ n (hne v hv)]
  · intro v hv n hn
    rw [← hserves _ n (hne v hv)]
    exact h.apart v hv n hn

/-- One more request, of which the ledger tells the same. -/
theorem snoc (h : s.Settled visited b) {v : List DeviceId × Request}
    (hcomplete : v.2.id ∈ b.complete ↔
      ∃ app, s.applications.get? v.2.app = some app ∧ isComplete app v.2 b.ledger = true)
    (hapart : ∀ n ∈ v.2.placed.keys, b.ledger.serves v.2.id n = false) :
    s.Settled (visited ++ [v]) b := by
  constructor
  · intro u hu
    rcases List.mem_append.mp hu with hu | hu
    · exact h.complete u hu
    · exact List.mem_singleton.mp hu ▸ hcomplete
  · intro u hu
    rcases List.mem_append.mp hu with hu | hu
    · exact h.apart u hu
    · exact List.mem_singleton.mp hu ▸ hapart

/-- Placing a request tells whether it is complete. -/
theorem placeRequest (h : s.Settled visited b)
    (hb : s.Consistent requests (visited.map fun v => v.2.id) b) (hr : r ∈ requests)
    (hway : ∀ d ∈ path, s.layout.OnWay s.root r.gateway d)
    (hnew : r.id ∉ visited.map fun v => v.2.id) :
    s.Settled (visited ++ [(path, r)]) (s.placeRequest path b r) := by
  have hne : ∀ v ∈ visited, v.2.id ≠ r.id := fun v hv he =>
    hnew (List.mem_map.mpr ⟨v, hv, he⟩)
  have hserves : ∀ id n, id ≠ r.id →
      b.ledger.serves id n = (s.placeRequest path b r).ledger.serves id n :=
    fun id n hid => hb.placeRequest_serves hr hway hnew hid n
  have hnone : r.id ∉ b.complete := fun hc => hnew (hb.done _ hc)
  unfold PlacementSetting.placeRequest at hserves ⊢
  split
  · next happ =>
    refine h.snoc ?_ fun n _ => hb.serves_eq_false hnew n
    simp [hnone, happ]
  · next app happ =>
    obtain ⟨own, hw⟩ := hb.walk hr happ hway hnew
    simp only [happ] at hserves ⊢
    split
    · next hcomplete =>
      rw [if_pos hcomplete] at hserves
      refine (h.keep hne hserves fun id hid => by simp [hid]).snoc ?_
        fun n => hw.serves_placed
      simp [happ, hcomplete]
    · next hincomplete =>
      rw [if_neg hincomplete] at hserves
      have hgone := serves_rollback app r.id (s.walk app path r b.ledger b.failures).ledger
      refine (h.keep hne hserves fun _ _ => Iff.rfl).snoc ?_ fun n _ => hgone n
      constructor
      · exact fun hc => absurd hc hnone
      · rintro ⟨app', happ', hc⟩
        obtain rfl := Option.some.inj (happ.symm.trans happ')
        refine absurd (isComplete_iff.mpr fun n hn => ?_) hincomplete
        rcases isComplete_iff.mp hc n hn with hp | hs
        · exact Or.inl hp
        · rw [hgone n] at hs
          exact absurd hs Bool.false_ne_true

end Settled

/-! ## All requests -/

/--
What placing every request of a batch keeps holds at the end of the batch. It may speak of the
requests that were placed so far, each with its path.
-/
theorem visits_induction (hf : s.layout.Forest) (hn : (requests.map Request.id).Nodup)
    {I : List (List DeviceId × Request) → Batch → Prop} (start : I [] { ledger := .start s.domain })
    (step : ∀ before path r after b, s.visits requests = before ++ (path, r) :: after →
      r.id ∉ before.map (fun v => v.2.id) →
      s.Consistent requests (before.map fun v => v.2.id) b → I before b →
        I (before ++ [(path, r)]) (s.placeRequest path b r)) :
    ∃ b : Batch, s.Consistent requests ((s.visits requests).map fun v => v.2.id) b
      ∧ I (s.visits requests) b ∧ (s.run requests).ledger = b.ledger
      ∧ (s.run requests).placement = b.ledger.assemble b.complete := by
  have hboth : ∃ b, b = (s.layout.leafPaths s.root).foldl (s.placePath requests)
      { ledger := .start s.domain }
        ∧ s.Consistent requests ((s.visits requests).map fun v => v.2.id) b
        ∧ I (s.visits requests) b := by
    refine ⟨_, rfl, ?_⟩
    rw [foldl_placePath]
    refine foldl_rule (I := fun before b =>
      s.Consistent requests (before.map fun v => v.2.id) b ∧ I before b)
        ⟨consistent_start s requests, start⟩ ?_
    intro before v after b hsplit h
    obtain ⟨path, r⟩ := v
    obtain ⟨hpath, hr, hhead⟩ := mem_visits.mp
      (hsplit ▸ List.mem_append_right before List.mem_cons_self : (path, r) ∈ s.visits requests)
    have hnodup := visits_nodup hf hn
    rw [hsplit, List.map_append, List.nodup_append] at hnodup
    have hnew : r.id ∉ before.map fun v => v.2.id := fun hid =>
      hnodup.2.2 _ hid _ (List.mem_map.mpr ⟨_, List.mem_cons_self, rfl⟩) rfl
    refine ⟨?_, step before path r after b hsplit hnew h.1 h.2⟩
    rw [List.map_append]
    exact h.1.placeRequest hr (hf.leafPaths_onWay hpath hhead) hnew
  obtain ⟨b, rfl, hb, hI⟩ := hboth
  exact ⟨_, hb, hI, rfl, rfl⟩

/-- At the end of a batch the ledger tells which of the visited requests are complete. -/
theorem settled_run (hf : s.layout.Forest) (hn : (requests.map Request.id).Nodup) :
    ∃ b : Batch, s.Consistent requests ((s.visits requests).map fun v => v.2.id) b
      ∧ s.Settled (s.visits requests) b ∧ (s.run requests).ledger = b.ledger
      ∧ (s.run requests).placement = b.ledger.assemble b.complete := by
  refine visits_induction hf hn (settled_start s) ?_
  intro before path r after b hsplit hnew hb h
  obtain ⟨hpath, hr, hhead⟩ := mem_visits.mp
    (hsplit ▸ List.mem_append_right before List.mem_cons_self : (path, r) ∈ s.visits requests)
  exact h.placeRequest hb hr (hf.leafPaths_onWay hpath hhead) hnew

/--
A batch places a request completely: a path starts at its gateway, its application is registered,
and all that it does not bring along has a slot at the end.
-/
def PlacesAll (s : PlacementSetting) (requests : List Request) (r : Request) : Prop :=
  (∃ path ∈ s.layout.leafPaths s.root, path.head? = some r.gateway)
    ∧ ∃ app, s.applications.get? r.app = some app
      ∧ isComplete app r (s.run requests).ledger = true

variable (hf : s.layout.Forest) (hn : (requests.map Request.id).Nodup)
include hf hn

/-- A batch answers just the requests that it places completely. -/
theorem run_contains_iff {r : Request} (hr : r ∈ requests) :
    (s.run requests).placement.contains r.id = true ↔ s.PlacesAll requests r := by
  obtain ⟨b, hb, hs, hl, hp⟩ := settled_run hf hn
  rw [hp, Ledger.contains_assemble, PlacesAll, hl]
  constructor
  · intro hc
    obtain ⟨⟨path, r'⟩, hv, he⟩ := List.mem_map.mp (hb.done _ hc)
    obtain ⟨hpath, hr', hhead⟩ := mem_visits.mp hv
    obtain rfl : r' = r := List.inj_on_of_nodup_map hn hr' hr he
    exact ⟨⟨path, hpath, hhead⟩, (hs.complete _ hv).mp hc⟩
  · rintro ⟨⟨path, hpath, hhead⟩, hc⟩
    exact (hs.complete (path, r) (mem_visits.mpr ⟨hpath, hr, hhead⟩)).mpr hc

/-- An answer names what the application declares and the request does not bring along. -/
theorem run_keys {id : RequestId} {a : Assignment}
    (h : (s.run requests).placement.get? id = some a) :
    ∃ r ∈ requests, r.id = id ∧ ∃ app, s.applications.get? r.app = some app
      ∧ ∀ n, n ∈ a.keys ↔ n ∈ app.names ∧ n ∉ r.placed.keys := by
  obtain ⟨b, hb, hs, hl, hp⟩ := settled_run hf hn
  have hid : id ∈ b.complete := by
    rw [← Ledger.contains_assemble (l := b.ledger), ← hp, SortedMap.contains_eq, h]
    rfl
  obtain ⟨⟨path, r⟩, hv, rfl⟩ := List.mem_map.mp (hb.done _ hid)
  obtain ⟨_, hr, _⟩ := mem_visits.mp hv
  obtain ⟨app, happ, hcomplete⟩ := (hs.complete _ hv).mp hid
  refine ⟨r, hr, rfl, app, happ, fun n => ?_⟩
  have hserves : n ∈ a.keys ↔ b.ledger.serves r.id n = true := by
    rw [SortedMap.mem_keys_iff, SortedMap.contains_eq, Option.isSome_iff_exists, serves_iff]
    have hdevice : ∀ d, a.get? n = some d ↔ ∃ x ∈ (b.ledger.holding d).slots,
        x.purpose = (r.id, n) := by
      intro d
      have hd : (s.run requests).placement.device? r.id n = some d ↔ _ :=
        hp ▸ Ledger.device?_assemble hb.unique
      rwa [Placement.device?, h, Option.bind_some, and_iff_right hid] at hd
    simp only [hdevice, Ledger.mem_slots]
    constructor
    · rintro ⟨d, x, hx, hpurpose⟩
      exact ⟨x, ⟨d, hx⟩, hpurpose⟩
    · rintro ⟨x, ⟨d, hx⟩, hpurpose⟩
      exact ⟨d, x, hx, hpurpose⟩
  rw [hserves]
  constructor
  · intro hn'
    refine ⟨?_, fun hk => ?_⟩
    · obtain ⟨x, hx, he⟩ := serves_iff.mp hn'
      obtain ⟨d, hx⟩ := Ledger.mem_slots.mp hx
      obtain ⟨r', hr', hid', _, app', happ', hname⟩ := hb.balanced.belongs d x hx
      obtain rfl : r' = r := List.inj_on_of_nodup_map hn hr' hr (hid'.trans (Prod.mk.inj he).1)
      obtain rfl := Option.some.inj (happ.symm.trans happ')
      exact (Prod.mk.inj he).2 ▸ (Application.mem_outstanding.mp hname).1
    · rw [hs.apart _ hv n hk] at hn'
      exact absurd hn' Bool.false_ne_true
  · rintro ⟨hname, hk⟩
    rcases isComplete_iff.mp hcomplete n hname with hk' | hn'
    · exact absurd hk' hk
    · exact hn'

end PlacementSetting

end FogNet
