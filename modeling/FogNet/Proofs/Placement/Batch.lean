import FogNet.Proofs.Placement.Balance

/-!
# A batch of requests

A walk for a request adds slots of that request only, one for each name that it places, although it
may move those of others. A request that was not placed completely takes its slots with it. Since
every request is walked for at most once, at the end of a batch each slot is of a complete request,
and no request has two slots for one microservice.

## Main statements

* `Advances.attempt`, `Advances.walk` — what walking for a request does to the ledger
* `Consistent.placeRequest` — what one request leaves behind
* `consistent_run` — what a batch leaves behind
-/

namespace FogNet

/--
A ledger as a walk for a request finds it: the request has no slots, and nobody has two for one
microservice.
-/
structure Ledger.Fresh (l : Ledger) (id : RequestId) : Prop where
  unique : (l.slots.map Slot.purpose).Nodup
  none : ∀ x ∈ l.slots, x.request ≠ id

/-- Then the request can have a slot for each of some microservices. -/
theorem Ledger.Fresh.unique_append {l : Ledger} {id : RequestId} (h : l.Fresh id) (app : AppId)
    {own : List Name} (hown : own.Nodup) :
    ((l.slots ++ own.map fun n => (⟨id, app, n⟩ : Slot)).map Slot.purpose).Nodup := by
  rw [List.map_append, List.map_map, List.nodup_append]
  refine ⟨h.unique, hown.map fun a a' he => (Prod.mk.inj he).2, ?_⟩
  rintro p hp p' hp' rfl
  obtain ⟨x, hx, rfl⟩ := List.mem_map.mp hp
  obtain ⟨n, _, he⟩ := List.mem_map.mp hp'
  exact h.none x hx (Prod.mk.inj he).1.symm

namespace PlacementSetting

variable {s : PlacementSetting} {requests : List Request} {app : Application}
  {path : List DeviceId} {d : DeviceId}

/-! ## One attempt -/

/-- An attempt changes nothing, or it notes a new slot here or shifts one up. -/
theorem attempt_cases (s : PlacementSetting) (app : Application) (path : List DeviceId)
    (id : RequestId) (d : DeviceId) (w : Walk) (name : Name) :
    ((s.attempt app path id d w name).ledger = w.ledger
        ∧ (s.attempt app path id d w name).placed = w.placed)
      ∨ (s.attempt app path id d w name).placed = name :: w.placed
        ∧ ((wrap (w.ledger.load d + app.mipsOf name) ≤ s.free.freeCpu d
            ∧ (s.attempt app path id d w name).ledger
              = w.ledger.add d ⟨id, app.id, name⟩ (app.mipsOf name))
          ∨ s.shift app w.ledger ⟨id, app.id, name⟩ d
              = some (s.attempt app path id d w name).ledger) := by
  unfold attempt
  simp only
  split
  · next host hhost =>
    split
    · split
      · next hfits => exact Or.inr ⟨rfl, Or.inl ⟨of_decide_eq_true hfits, rfl⟩⟩
      · split
        · next ledger hl => exact Or.inr ⟨rfl, Or.inr hl⟩
        · exact Or.inl ⟨rfl, rfl⟩
    · exact Or.inl ⟨rfl, rfl⟩
  · split
    · next hfits => exact Or.inr ⟨rfl, Or.inl ⟨of_decide_eq_true hfits, rfl⟩⟩
    · exact Or.inl ⟨rfl, rfl⟩

/-! ## One walk -/

/--
A walk for a request that began with a ledger: it has added one slot for each of its own names, and
no others. The names are among those that were left to place.
-/
structure Advances (s : PlacementSetting) (requests : List Request) (r : Request)
    (app : Application) (l : Ledger) (own : List Name) (w : Walk) : Prop where
  balanced : s.Balanced requests w.ledger
  fresh : l.Fresh r.id
  grows : l.Grows w.ledger (own.map fun n => ⟨r.id, app.id, n⟩)
  placed : w.placed = own ++ r.placed.keys
  outstanding : ∀ n ∈ own, n ∈ app.outstanding r.placed.keys
  nodup : own.Nodup

namespace Advances

variable {r : Request} {l : Ledger} {own : List Name} {w : Walk}

theorem unique (h : s.Advances requests r app l own w) :
    (w.ledger.slots.map Slot.purpose).Nodup :=
  ((h.grows.slots.map Slot.purpose).nodup_iff).mpr (h.fresh.unique_append app.id h.nodup)

/-- The slots of the request are for what was left to place of it. -/
theorem mem_outstanding (h : s.Advances requests r app l own w) :
    ∀ x ∈ w.ledger.slots, x.request = r.id → x.microservice ∈ app.outstanding r.placed.keys := by
  intro x hx hid
  rcases List.mem_append.mp (h.grows.slots.mem_iff.mp hx) with hx | hx
  · exact absurd hid (h.fresh.none x hx)
  · obtain ⟨n, hn, rfl⟩ := List.mem_map.mp hx
    exact h.outstanding n hn

/-- With one more slot for what was not placed, all slots still are for different purposes. -/
theorem unique_append (h : s.Advances requests r app l own w) {name : Name}
    (hnew : name ∉ w.placed) :
    ((w.ledger.slots ++ [(⟨r.id, app.id, name⟩ : Slot)]).map Slot.purpose).Nodup := by
  have hown : (own ++ [name]).Nodup := by
    refine List.nodup_append.mpr ⟨h.nodup, List.nodup_singleton name, ?_⟩
    rintro n hn _ hn' rfl
    exact hnew (h.placed ▸ List.mem_append_left _ (List.mem_singleton.mp hn' ▸ hn))
  have hslots : (w.ledger.slots ++ [(⟨r.id, app.id, name⟩ : Slot)]).Perm
      (l.slots ++ (own ++ [name]).map fun n => (⟨r.id, app.id, n⟩ : Slot)) := by
    rw [List.map_append, ← List.append_assoc]
    exact h.grows.slots.append_right _
  exact ((hslots.map Slot.purpose).nodup_iff).mpr (h.fresh.unique_append app.id hown)

theorem attempt (path : List DeviceId) (h : s.Advances requests r app l own w) (hr : r ∈ requests)
    (happ : s.applications.get? r.app = some app) (hd : w.ledger.contains d = true)
    (hway : s.layout.OnWay s.root r.gateway d) {name : Name}
    (hready : name ∈ app.readyToPlace w.placed) :
    ∃ own', s.Advances requests r app l own' (s.attempt app path r.id d w name) := by
  obtain ⟨hname, hnew, _⟩ := Application.mem_readyToPlace.mp hready
  have hmem := Applications.mem_values happ
  have hleft : name ∈ app.outstanding r.placed.keys := Application.mem_outstanding.mpr
    ⟨hname, fun hk => hnew (h.placed ▸ List.mem_append_right own hk)⟩
  have hslot : s.Belongs requests d ⟨r.id, app.id, name⟩ := ⟨r, hr, rfl, hway, app, happ, hleft⟩
  have hrange : s.Accountable requests →
      s.applications.cost (w.ledger.slots ++ [⟨r.id, app.id, name⟩]) < UInt64.size := by
    refine fun ha => ha.cost_lt (h.unique_append hnew) fun x hx => ?_
    rcases List.mem_append.mp hx with hx | hx
    · exact h.balanced.exists_belongs hx
    · exact ⟨d, List.mem_singleton.mp hx ▸ hslot⟩
  rcases s.attempt_cases app path r.id d w name with ⟨hl, hp⟩ | ⟨hp, hl⟩
  · exact ⟨own, hl ▸ h.balanced, h.fresh, hl ▸ h.grows, hp.trans h.placed, h.outstanding,
      h.nodup⟩
  · refine ⟨name :: own, ?_, h.fresh, ?_, ?_, ?_, ?_⟩
    · rcases hl with ⟨hfits, hl⟩ | hl
      · have hmips := fun ha : s.Accountable requests =>
          ha.agree.mipsOf_eq hmem (Or.inl hname) hslot.declares
        rw [hl]
        exact h.balanced.add hd hmips hrange hfits hslot
      · exact h.balanced.shift hmem hslot hname hrange hl
    · have hgrows : w.ledger.Grows (s.attempt app path r.id d w name).ledger
          [⟨r.id, app.id, name⟩] := by
        rcases hl with ⟨_, hl⟩ | hl
        · rw [hl]
          exact Ledger.grows_add hd _ _
        · exact grows_shift hl
      exact (h.grows.trans hgrows).perm List.perm_append_comm
    · rw [hp, h.placed, List.cons_append]
    · intro n hn
      rcases List.mem_cons.mp hn with rfl | hn
      · exact hleft
      · exact h.outstanding n hn
    · rw [List.nodup_cons]
      exact ⟨fun hn => hnew (h.placed ▸ List.mem_append_left _ hn), h.nodup⟩

theorem fill (path : List DeviceId) (tried : List Name) (hr : r ∈ requests)
    (happ : s.applications.get? r.app = some app) (hway : s.layout.OnWay s.root r.gateway d)
    (h : s.Advances requests r app l own w) (hd : l.contains d = true) :
    ∃ own', s.Advances requests r app l own' (s.fill app path r.id d w tried) := by
  fun_induction PlacementSetting.fill s app path r.id d w tried generalizing own with
  | case1 => exact ⟨own, h⟩
  | case2 w tried name hname ih =>
    have hready := List.mem_of_find?_eq_some hname
    have hd' : w.ledger.contains d = true := (h.grows.contains d).trans hd
    obtain ⟨own', h'⟩ := h.attempt path hr happ hd' hway hready
    exact ih h'

theorem of_usable {l : Ledger} (h : s.usable l d = true) : l.contains d = true := by
  unfold usable at h
  split at h
  · simp at h
  · exact (Bool.and_eq_true_iff.mp h).2

/-- A walk adds slots of its request only, one for each name that it places. -/
theorem walk (hr : r ∈ requests) (happ : s.applications.get? r.app = some app)
    (hway : ∀ d ∈ path, s.layout.OnWay s.root r.gateway d) (hb : s.Balanced requests l)
    (hfresh : l.Fresh r.id) (failures : Nat) :
    ∃ own, s.Advances requests r app l own (s.walk app path r l failures) := by
  have key : ∀ (devices : List DeviceId) (own : List Name) (w : Walk),
      (∀ d ∈ devices, s.layout.OnWay s.root r.gateway d) → s.Advances requests r app l own w →
        ∃ own', s.Advances requests r app l own' (devices.foldl (fun w device =>
          if s.usable w.ledger device then s.fill app path r.id device w [] else w) w) := by
    intro devices
    induction devices with
    | nil => exact fun own w _ h => ⟨own, h⟩
    | cons d devices ih =>
      intro own w hway h
      have hrest := fun e he => hway e (List.mem_cons_of_mem _ he)
      rw [List.foldl_cons]
      split
      · next hu =>
        have hd : l.contains d = true := (h.grows.contains d).symm.trans (of_usable hu)
        obtain ⟨own', h'⟩ := fill path [] hr happ (hway d List.mem_cons_self) h hd
        exact ih own' _ hrest h'
      · exact ih own w hrest h
  exact key path [] _ hway
    ⟨hb, hfresh, Ledger.Grows.refl l, rfl, fun _ hn => absurd hn List.not_mem_nil, List.nodup_nil⟩

end Advances

/-! ## One request -/

/--
What holds between two requests of a batch, when some are done: every slot is of a complete request,
and no request has two slots for one microservice.
-/
structure Consistent (s : PlacementSetting) (requests : List Request) (done : List RequestId)
    (b : Batch) : Prop where
  balanced : s.Balanced requests b.ledger
  unique : (b.ledger.slots.map Slot.purpose).Nodup
  complete : ∀ x ∈ b.ledger.slots, x.request ∈ b.complete
  done : ∀ id ∈ b.complete, id ∈ done

theorem consistent_start (s : PlacementSetting) (requests : List Request) :
    s.Consistent requests [] { ledger := .start s.domain } := by
  constructor
  · exact balanced_start
  · rw [Ledger.slots_start]
    exact List.nodup_nil
  · intro x hx
    rw [Ledger.slots_start] at hx
    exact absurd hx List.not_mem_nil
  · exact fun _ h => h

namespace Consistent

variable {r : Request} {b : Batch} {done : List RequestId}

theorem mono {done' : List RequestId} (h : s.Consistent requests done b) (hsub : done ⊆ done') :
    s.Consistent requests done' b :=
  ⟨h.balanced, h.unique, h.complete, fun id hid => hsub (h.done id hid)⟩

theorem not_mem (h : s.Consistent requests done b) (hnew : r.id ∉ done) :
    ∀ x ∈ b.ledger.slots, x.request ≠ r.id :=
  fun x hx he => hnew (h.done _ (he ▸ h.complete x hx))

theorem fresh (h : s.Consistent requests done b) (hnew : r.id ∉ done) : b.ledger.Fresh r.id :=
  ⟨h.unique, h.not_mem hnew⟩

/-- What walking for one more request does to the ledger. -/
theorem walk (h : s.Consistent requests done b) (hr : r ∈ requests)
    (happ : s.applications.get? r.app = some app)
    (hway : ∀ d ∈ path, s.layout.OnWay s.root r.gateway d) (hnew : r.id ∉ done) :
    ∃ own, s.Advances requests r app b.ledger own (s.walk app path r b.ledger b.failures) :=
  Advances.walk hr happ hway h.balanced (h.fresh hnew) b.failures

/-- A request leaves behind all of its slots, if it is complete, or none. -/
theorem placeRequest (h : s.Consistent requests done b) (hr : r ∈ requests)
    (hway : ∀ d ∈ path, s.layout.OnWay s.root r.gateway d) (hnew : r.id ∉ done) :
    s.Consistent requests (done ++ [r.id]) (s.placeRequest path b r) := by
  unfold PlacementSetting.placeRequest
  split
  · exact h.mono (List.subset_append_left _ _)
  · next app happ =>
    obtain ⟨own, hw⟩ := h.walk hr happ hway hnew
    simp only
    split
    · constructor
      · exact hw.balanced
      · exact hw.unique
      · intro x hx
        rcases List.mem_append.mp (hw.grows.slots.mem_iff.mp hx) with hx | hx
        · exact List.mem_append_left _ (h.complete x hx)
        · obtain ⟨n, _, rfl⟩ := List.mem_map.mp hx
          exact List.mem_append_right _ List.mem_cons_self
      · intro id hid
        rcases List.mem_append.mp hid with hid | hid
        · exact List.mem_append_left _ (h.done id hid)
        · exact List.mem_append_right _ hid
    · -- Only slots of this request go, and those were noted on this walk.
      have hkept : ((s.walk app path r b.ledger b.failures).ledger.rollback app r.id).slots.Perm
          b.ledger.slots := by
        rw [Ledger.slots_rollback]
        refine (hw.grows.slots.filter _).trans ?_
        rw [List.filter_append, List.filter_eq_self.mpr, List.filter_eq_nil_iff.mpr,
          List.append_nil]
        · rintro x hx
          obtain ⟨n, _, rfl⟩ := List.mem_map.mp hx
          simp
        · exact fun x hx => by simpa using h.not_mem hnew x hx
      constructor
      · refine hw.balanced.rollback (Applications.mem_values happ) ?_ fun ha => ?_
        · exact fun x hx hid => (Application.mem_outstanding.mp (hw.mem_outstanding x hx hid)).1
        · exact ha.cost_lt hw.unique fun x => hw.balanced.exists_belongs
      · exact ((hkept.map Slot.purpose).nodup_iff).mpr h.unique
      · exact fun x hx => h.complete x (hkept.mem_iff.mp hx)
      · exact fun id hid => List.mem_append_left _ (h.done id hid)

end Consistent

/-! ## All requests -/

/-- The requests of a batch in the order in which they are placed, each with its path. -/
def visits (s : PlacementSetting) (requests : List Request) : List (List DeviceId × Request) :=
  (s.layout.leafPaths s.root).flatMap fun p =>
    (requests.filter fun r => p.head? == some r.gateway).map fun r => (p, r)

theorem mem_visits {p : List DeviceId} {r : Request} : (p, r) ∈ s.visits requests ↔
    p ∈ s.layout.leafPaths s.root ∧ r ∈ requests ∧ p.head? = some r.gateway := by
  simp only [visits, List.mem_flatMap, List.mem_map, List.mem_filter, beq_iff_eq, Prod.mk.injEq]
  constructor
  · rintro ⟨p, hp, r, ⟨hr, hhead⟩, rfl, rfl⟩
    exact ⟨hp, hr, hhead⟩
  · rintro ⟨hp, hr, hhead⟩
    exact ⟨p, hp, r, ⟨hr, hhead⟩, rfl, rfl⟩

theorem foldl_placePath (s : PlacementSetting) (requests : List Request) (b : Batch) :
    (s.layout.leafPaths s.root).foldl (s.placePath requests) b
      = (s.visits requests).foldl (fun b v => s.placeRequest v.1 b v.2) b := by
  rw [visits, List.foldl_flatMap]
  congr 1
  funext b p
  rw [placePath, List.foldl_map]

/-- Every request is walked for at most once. -/
theorem visits_nodup (hf : s.layout.Forest) (hn : (requests.map Request.id).Nodup) :
    ((s.visits requests).map fun v => v.2.id).Nodup := by
  rw [visits, List.map_flatMap, List.nodup_flatMap]
  constructor
  · intro p _
    rw [List.map_map]
    exact hn.sublist (List.filter_sublist.map _)
  · have hheads := hf.leafPaths_heads s.root
    rw [List.Nodup, List.pairwise_map] at hheads
    refine hheads.imp ?_
    intro p p' hne
    show List.Disjoint _ _
    rw [List.disjoint_left]
    intro id hid hid'
    simp only [List.map_map, List.mem_map, List.mem_filter, beq_iff_eq] at hid hid'
    obtain ⟨r, ⟨hr, hhead⟩, rfl⟩ := hid
    obtain ⟨r', ⟨hr', hhead'⟩, he⟩ := hid'
    obtain rfl : r' = r := List.inj_on_of_nodup_map hn hr' hr he
    exact hne (hhead.trans hhead'.symm)

/-- Requests that all come from one leaf are placed along its path. -/
theorem visits_of_head (hf : s.layout.Forest) (hp : path ∈ s.layout.leafPaths s.root)
    (requests : List Request) (hg : ∀ r ∈ requests, path.head? = some r.gateway) :
    s.visits requests = requests.map fun r => (path, r) := by
  obtain ⟨before, after, hsplit⟩ := List.append_of_mem hp
  have hheads := hf.leafPaths_heads s.root
  rw [hsplit, List.map_append, List.map_cons, List.nodup_append, List.nodup_cons] at hheads
  obtain ⟨_, ⟨hafter, _⟩, hbefore⟩ := hheads
  have hother : ∀ q : List DeviceId, q.head? ≠ path.head? →
      (requests.filter fun r => q.head? == some r.gateway) = [] := by
    intro q hq
    refine List.filter_eq_nil_iff.mpr fun r hr hhead => hq ?_
    rw [hg r hr]
    simpa using hhead
  have hnil : ∀ paths : List (List DeviceId), (∀ q ∈ paths, q.head? ≠ path.head?) →
      (paths.flatMap fun q => (requests.filter fun r => q.head? == some r.gateway).map
        fun r => (q, r)) = [] := by
    intro paths hne
    refine List.flatMap_eq_nil_iff.mpr fun q hq => ?_
    rw [hother q (hne q hq), List.map_nil]
  rw [visits, hsplit, List.flatMap_append, List.flatMap_cons, hnil before, hnil after,
    List.nil_append, List.append_nil, List.filter_eq_self.mpr]
  · exact fun r hr => by simp [hg r hr]
  · exact fun q hq he => hafter (he ▸ List.mem_map_of_mem hq)
  · exact fun q hq he => hbefore _ (List.mem_map_of_mem hq) _ List.mem_cons_self he

theorem Consistent.foldl (hf : s.layout.Forest) :
    ∀ (visits : List (List DeviceId × Request)) (done : List RequestId) (b : Batch),
      (∀ v ∈ visits, v.1 ∈ s.layout.leafPaths s.root ∧ v.2 ∈ requests
        ∧ v.1.head? = some v.2.gateway) →
      (visits.map fun v => v.2.id).Nodup → (∀ v ∈ visits, v.2.id ∉ done) →
      s.Consistent requests done b →
        s.Consistent requests (done ++ visits.map fun v => v.2.id)
          (visits.foldl (fun b v => s.placeRequest v.1 b v.2) b)
  | [], done, b, _, _, _, h => by rwa [List.map_nil, List.append_nil]
  | v :: visits, done, b, hv, hn, hnew, h => by
    obtain ⟨hpath, hr, hhead⟩ := hv v List.mem_cons_self
    rw [List.map_cons, List.nodup_cons] at hn
    have hstep := h.placeRequest hr (hf.leafPaths_onWay hpath hhead)
      (hnew v List.mem_cons_self)
    have hrest := Consistent.foldl hf visits _ _
      (fun v' hv' => hv v' (List.mem_cons_of_mem _ hv')) hn.2 (fun v' hv' hdone => by
        rcases List.mem_append.mp hdone with hdone | hdone
        · exact hnew v' (List.mem_cons_of_mem _ hv') hdone
        · exact hn.1 (List.mem_map.mpr ⟨v', hv', List.mem_singleton.mp hdone⟩)) hstep
    rwa [List.append_assoc, List.singleton_append] at hrest

/-- What a batch of requests with ids of their own leaves behind. -/
theorem consistent_run (hf : s.layout.Forest) (hn : (requests.map Request.id).Nodup) : ∃ b : Batch,
      s.Consistent requests ((s.visits requests).map fun v => v.2.id) b
        ∧ (s.run requests).ledger = b.ledger
        ∧ (s.run requests).placement = b.ledger.assemble b.complete := by
  refine ⟨_, ?_, rfl, rfl⟩
  rw [foldl_placePath]
  have h := Consistent.foldl hf (s.visits requests) [] _
    (fun v hv => mem_visits.mp hv) (visits_nodup hf hn) (fun _ _ => List.not_mem_nil)
    (consistent_start s requests)
  rwa [List.nil_append] at h

end PlacementSetting

end FogNet
