import FogNet.Proofs.Placement.Needs
import FogNet.Proofs.Topology.Ancestors
import FogNet.Proofs.Topology.Path

/-!
# A request with the ledger to itself

When a batch begins no device has a slot. So the first request finds nothing hosted on its path,
nothing is shifted, and every attempt places its microservice just if the device has room for it.
No slot leaves a device meanwhile: what a device declines it declines for good. A request that is
alone in its batch therefore has each microservice as close to the edge as there is room, and with
enough room at the root it is placed whenever what it needs can be listed in an order.

What a device has taken is told here by what its slots demand, and not by its load. The two are the
same for as long as the load has lost no carry. A device that has lost one looks empty and takes
more than it can, but what it declined is more than it had room for in any case.

## Main statements

* `Application.orderable_iff` — an order can be written down without repetitions
* `Alone.attempt_eq` — with nothing hosted an attempt looks only at the room of the device
* `Alone.fill_declines` — a device that is left has declined everything that is ready
* `placed_closest` — no device further down has room for what was placed
* `contains_run_iff_lists` — with room at the root a request is placed just if it has an order
-/

namespace FogNet

/-! ## Orders -/

/-- What comes first in a list is not preceded by more when repetitions go. -/
theorem exists_of_eraseDups_eq {α : Type} [BEq α] [LawfulBEq α] (l : List α) {before after : List α}
    {a : α} (h : l.eraseDups = before ++ a :: after) :
    ∃ before' after', l = before' ++ a :: after' ∧ before' ⊆ before := by
  match l with
  | [] => simp at h
  | x :: l =>
    rw [List.eraseDups_cons] at h
    cases before with
    | nil => exact ⟨[], l, by rw [(List.cons.inj h).1]; rfl, List.nil_subset _⟩
    | cons y before =>
      obtain ⟨rfl, hrest⟩ := List.cons.inj h
      obtain ⟨b, r, hfilter, hsub⟩ := exists_of_eraseDups_eq _ hrest
      obtain ⟨b', r', rfl, hb, hr⟩ := List.filter_eq_append_iff.mp hfilter
      obtain ⟨skipped, r'', rfl, hskipped, _⟩ := List.filter_eq_cons_iff.mp hr
      refine ⟨x :: b' ++ skipped, r'', by simp, fun y hy => ?_⟩
      by_cases hyx : y = x
      · exact hyx ▸ List.mem_cons_self
      · refine List.mem_cons_of_mem _ (hsub (hb ▸ List.mem_filter.mpr ⟨?_, by simpa using hyx⟩))
        rcases List.mem_append.mp hy with hy | hy
        · exact (List.mem_cons.mp hy).resolve_left hyx
        · exact absurd (by simpa using hyx) (hskipped y hy)
termination_by l.length
decreasing_by
  have hle := List.length_filter_le (fun b => !b == x) l
  simp only [List.length_cons]
  omega

namespace Application

variable {app : Application} {placed order : List Name} {n m : Name}

/--
A microservice waits for the sources of the edges that come up into it, and for the destinations of
the edges that go down from it.
-/
def Awaits (app : Application) (n m : Name) : Prop :=
  ∃ e ∈ app.moduleEdges, (e.direction = .up ∧ e.destination = n ∧ e.source = m)
    ∨ (e.direction = .down ∧ e.source = n ∧ e.destination = m)

theorem awaits_iff : app.Awaits n m ↔ m ∈ app.requirements n := by
  rw [requirements, List.mem_flatMap]
  refine exists_congr fun e => and_congr_right fun _ => ?_
  simp only [requirement?, List.mem_append, List.mem_ite_nil_right, List.mem_singleton]
  constructor
  · rintro (⟨hd, rfl, rfl⟩ | ⟨hd, rfl, rfl⟩)
    · exact Or.inr ⟨⟨rfl, hd⟩, rfl⟩
    · exact Or.inl ⟨⟨rfl, hd⟩, rfl⟩
  · rintro (⟨⟨rfl, hd⟩, rfl⟩ | ⟨⟨rfl, hd⟩, rfl⟩)
    · exact Or.inr ⟨hd, rfl, rfl⟩
    · exact Or.inl ⟨hd, rfl, rfl⟩

/--
A list of what is left to place, each microservice once, in which whatever a microservice waits for
comes before it, unless that is placed already.
-/
structure Lists (app : Application) (placed order : List Name) : Prop where
  nodup : order.Nodup
  all : ∀ n, n ∈ order ↔ n ∈ app.names ∧ n ∉ placed
  awaited : ∀ before n after, order = before ++ n :: after →
    ∀ m, app.Awaits n m → m ∈ before ∨ m ∈ placed

/-- What can be ordered can be ordered without repetitions. -/
theorem orderable_iff : app.Orderable placed ↔ ∃ order, app.Lists placed order := by
  constructor
  · rintro ⟨order, hall, hrequired⟩
    refine ⟨order.eraseDups, nodup_eraseDups order, fun n => ?_, fun before n after he m hm => ?_⟩
    · rw [List.mem_eraseDups, hall, mem_outstanding]
    · obtain ⟨before', after', he', hsub⟩ := exists_of_eraseDups_eq order he
      exact (hrequired before' n after' he' m (awaits_iff.mp hm)).imp_left fun h => hsub h
  · rintro ⟨order, h⟩
    refine ⟨order, fun n => (h.all n).trans mem_outstanding.symm, fun before n after he m hm => ?_⟩
    exact h.awaited before n after he m (awaits_iff.mpr hm)

end Application

theorem Role.ne_client_of_orchestrates {role : Role} (h : role.orchestrates = true) :
    role ≠ .client := fun he => by
  rw [he] at h
  exact absurd h Bool.false_ne_true

namespace PlacementSetting

variable {s : PlacementSetting} {r : Request} {app : Application} {path devices : List DeviceId}
  {d e : DeviceId} {own : List Name} {w w' w'' : Walk} {name n m : Name}

/-! ## Going on -/

/--
How a walk may go on over some devices: nothing that is placed is given up, no slot leaves a device,
and other devices keep what they hold.
-/
structure Onward (devices : List DeviceId) (w w' : Walk) : Prop where
  placed : w.placed ⊆ w'.placed
  slots : ∀ d, (w.ledger.holding d).slots.Sublist (w'.ledger.holding d).slots
  holding : ∀ d, d ∉ devices → w'.ledger.holding d = w.ledger.holding d
  contains : ∀ d, w'.ledger.contains d = w.ledger.contains d

namespace Onward

theorem refl (devices : List DeviceId) (w : Walk) : Onward devices w w :=
  ⟨fun _ h => h, fun _ => .refl _, fun _ _ => rfl, fun _ => rfl⟩

theorem trans (h : Onward devices w w') (h' : Onward devices w' w'') : Onward devices w w'' :=
  ⟨fun _ hn => h'.placed (h.placed hn), fun d => (h.slots d).trans (h'.slots d),
    fun d hd => (h'.holding d hd).trans (h.holding d hd),
    fun d => (h'.contains d).trans (h.contains d)⟩

theorem mono {more : List DeviceId} (h : Onward devices w w') (hsub : devices ⊆ more) :
    Onward more w w' :=
  ⟨h.placed, h.slots, fun d hd => h.holding d fun hin => hd (hsub hin), h.contains⟩

end Onward

/-- A device has no room for a microservice beside what its slots demand. -/
def Declines (s : PlacementSetting) (app : Application) (l : Ledger) (d : DeviceId) (n : Name) :
    Prop :=
  s.free.freeCpu d < app.cost (l.holding d).slots + app.mipsOf n

theorem Declines.onward (h : s.Declines app w.ledger d n) (hw : Onward devices w w') :
    s.Declines app w'.ledger d n :=
  Nat.lt_of_lt_of_le h (Nat.add_le_add_right (sumOf_sublist ((hw.slots d).map _)) _)

/-! ## Walking alone -/

/--
A walk for a request with the ledger to itself: all slots are its own, and every device has taken
what its slots demand.
-/
structure Alone (s : PlacementSetting) (r : Request) (app : Application) (own : List Name)
    (w : Walk) : Prop where
  grows : (Ledger.start s.domain).Grows w.ledger (own.map fun n => ⟨r.id, app.id, n⟩)
  placed : w.placed = own ++ r.placed.keys
  nodup : w.placed.Nodup
  names : ∀ n ∈ own, n ∈ app.names
  load : ∀ d, w.ledger.load d = Holding.demand app (w.ledger.holding d).slots

theorem alone_start (s : PlacementSetting) (r : Request) (app : Application) (failures : Nat) :
    s.Alone r app [] ⟨.start s.domain, r.placed.keys, failures⟩ := by
  refine ⟨Ledger.Grows.refl _, rfl, r.placed.keys_nodup, fun _ hn => absurd hn List.not_mem_nil,
    fun d => ?_⟩
  rw [Ledger.load, Ledger.holding_start]
  rfl

namespace Alone

theorem slots (h : s.Alone r app own w) :
    w.ledger.slots.Perm (own.map fun n => ⟨r.id, app.id, n⟩) := by
  have hslots := h.grows.slots
  rwa [Ledger.slots_start, List.nil_append] at hslots

theorem mem_slots_iff (h : s.Alone r app own w) :
    (∃ d, ∃ x ∈ (w.ledger.holding d).slots, x.purpose = (r.id, n)) ↔ n ∈ own := by
  constructor
  · rintro ⟨d, x, hx, hp⟩
    obtain ⟨n', hn', rfl⟩ :=
      List.mem_map.mp (h.slots.mem_iff.mp (Ledger.mem_slots.mpr ⟨d, hx⟩))
    exact (Prod.mk.inj hp).2 ▸ hn'
  · intro hn
    obtain ⟨d, hx⟩ := Ledger.mem_slots.mp (h.slots.mem_iff.mpr (List.mem_map.mpr ⟨n, hn, rfl⟩))
    exact ⟨d, _, hx, rfl⟩

/-- What is not placed yet has no host. -/
theorem hostOn_eq_none (h : s.Alone r app own w) (hnew : name ∉ w.placed)
    (path : List DeviceId) : w.ledger.hostOn path name = none := by
  refine List.find?_eq_none.mpr fun d _ hhosts => hnew ?_
  obtain ⟨x, hx, rfl⟩ := Ledger.hosts_iff.mp hhosts
  obtain ⟨n, hn, rfl⟩ := List.mem_map.mp (h.slots.mem_iff.mp (Ledger.mem_slots.mpr ⟨d, hx⟩))
  rw [h.placed]
  exact List.mem_append_left _ hn

/-- With nothing hosted an attempt looks only at the room of the device. -/
theorem attempt_eq (h : s.Alone r app own w) (hnew : name ∉ w.placed) (path : List DeviceId)
    (d : DeviceId) : s.attempt app path r.id d w name
      = if wrap (w.ledger.load d + app.mipsOf name) ≤ s.free.freeCpu d then
          { w with
            ledger := w.ledger.add d ⟨r.id, app.id, name⟩ (app.mipsOf name)
            placed := name :: w.placed }
        else w := by
  simp [PlacementSetting.attempt, h.hostOn_eq_none hnew path]

/-- What an attempt does: it places its microservice, or the device declines it. -/
theorem attempt_cases (h : s.Alone r app own w) (hnew : name ∉ w.placed) (path : List DeviceId)
    (d : DeviceId) :
    (s.Declines app w.ledger d name ∧ s.attempt app path r.id d w name = w)
      ∨ s.attempt app path r.id d w name = { w with
          ledger := w.ledger.add d ⟨r.id, app.id, name⟩ (app.mipsOf name)
          placed := name :: w.placed } := by
  rw [h.attempt_eq hnew path d]
  split
  · exact Or.inr rfl
  · next hfull =>
    refine Or.inl ⟨?_, rfl⟩
    rw [Nat.not_le, h.load d, Holding.demand, wrap_wrap_add] at hfull
    exact Nat.lt_of_lt_of_le hfull (wrap_le _)

theorem add (h : s.Alone r app own w) (hc : w.ledger.contains d = true) (hname : name ∈ app.names)
    (hnew : name ∉ w.placed) : s.Alone r app (name :: own) { w with
      ledger := w.ledger.add d ⟨r.id, app.id, name⟩ (app.mipsOf name)
      placed := name :: w.placed } := by
  refine ⟨?_, ?_, List.nodup_cons.mpr ⟨hnew, h.nodup⟩, ?_, fun e => ?_⟩
  · exact (h.grows.trans (Ledger.grows_add hc _ _)).perm List.perm_append_comm
  · rw [h.placed, List.cons_append]
  · exact List.forall_mem_cons.mpr ⟨hname, h.names⟩
  · have hload := h.load e
    rw [Ledger.add_eq_modify hc]
    by_cases he : e = d
    · subst he
      rw [Ledger.load] at hload ⊢
      rw [Ledger.holding_modify_self hc, Holding.add, Holding.demand_append, hload]
      exact (wrap_add_wrap _ _).symm
    · rw [Ledger.load, Ledger.holding_modify_ne he]
      exact hload

theorem onward_add (hc : w.ledger.contains d = true) (slot : Slot) (mips : Nat) (name : Name) :
    Onward [d] w { w with ledger := w.ledger.add d slot mips, placed := name :: w.placed } := by
  rw [Ledger.add_eq_modify hc]
  refine ⟨fun _ hn => List.mem_cons_of_mem _ hn, fun e => ?_, fun e he => ?_, fun e => ?_⟩
  · by_cases he : e = d
    · subst he
      rw [Ledger.holding_modify_self hc]
      exact List.sublist_append_left _ _
    · rw [Ledger.holding_modify_ne he]
  · exact Ledger.holding_modify_ne (by simpa using he) _
  · exact Ledger.contains_modify _ e

theorem attempt (h : s.Alone r app own w) (hu : s.usable w.ledger d = true)
    (hready : name ∈ app.readyToPlace w.placed) (path : List DeviceId) :
    (∃ own', s.Alone r app own' (s.attempt app path r.id d w name))
      ∧ Onward [d] w (s.attempt app path r.id d w name) := by
  obtain ⟨hname, hnew, _⟩ := Application.mem_readyToPlace.mp hready
  have hc := Advances.of_usable hu
  rcases h.attempt_cases hnew path d with ⟨_, he⟩ | he
  · rw [he]
    exact ⟨⟨own, h⟩, .refl _ _⟩
  · rw [he]
    exact ⟨⟨_, h.add hc hname hnew⟩, onward_add hc _ _ _⟩

/-- A device that is left has declined everything that is ready. -/
theorem fill_declines (h : s.Alone r app own w) (hu : s.usable w.ledger d = true)
    {tried : List Name} (htried : ∀ n ∈ tried, n ∈ w.placed ∨ s.Declines app w.ledger d n)
    (path : List DeviceId) {w' : Walk} (hw : s.fill app path r.id d w tried = w') :
    ∀ n ∈ app.readyToPlace w'.placed, s.Declines app w'.ledger d n := by
  fun_induction PlacementSetting.fill s app path r.id d w tried generalizing own with
  | case1 w tried hnone =>
    -- What is ready has been tried, and it is not placed.
    intro n hn
    have hmem : n ∈ tried := by simpa using List.find?_eq_none.mp hnone n (hw ▸ hn)
    exact hw ▸ (htried n hmem).resolve_left
      (hw ▸ (Application.mem_readyToPlace.mp hn).2.1)
  | case2 w tried name hname ih =>
    have hready := List.mem_of_find?_eq_some hname
    obtain ⟨⟨own', h'⟩, hon⟩ := h.attempt hu hready path
    refine ih h' ((usable_congr (hon.contains d)).trans hu) ?_ hw
    -- A device that has declined goes on to decline, since it keeps all its slots.
    refine List.forall_mem_cons.mpr ⟨?_, fun n hn => ?_⟩
    · rcases h.attempt_cases (Application.mem_readyToPlace.mp hready).2.1 path d with ⟨hd, he⟩ | he
      · exact Or.inr (he.symm ▸ hd)
      · exact Or.inl (he.symm ▸ List.mem_cons_self)
    · exact (htried n hn).imp (fun hp => hon.placed hp) fun hd => hd.onward hon

theorem fill (h : s.Alone r app own w) (hu : s.usable w.ledger d = true) (path : List DeviceId) :
    (∃ own', s.Alone r app own' (s.fill app path r.id d w []))
      ∧ Onward [d] w (s.fill app path r.id d w []) := by
  refine fill_induction (I := fun w' => (∃ own', s.Alone r app own' w') ∧ Onward [d] w w') path
    ?_ [] hu ⟨⟨own, h⟩, .refl _ _⟩
  intro w₁ name hu₁ hready ⟨⟨own₁, h₁⟩, hon⟩
  obtain ⟨h₂, hon'⟩ := h₁.attempt hu₁ hready path
  exact ⟨h₂, hon.trans hon'⟩

theorem walkPast (h : s.Alone r app own w) (path devices : List DeviceId) :
    (∃ own', s.Alone r app own' (s.walkPast app path r.id devices w))
      ∧ Onward devices w (s.walkPast app path r.id devices w) := by
  induction devices generalizing own w with
  | nil => exact ⟨⟨own, h⟩, .refl _ _⟩
  | cons d devices ih =>
    rw [PlacementSetting.walkPast, List.foldl_cons]
    split
    · next hu =>
      obtain ⟨⟨own₁, h₁⟩, hon⟩ := h.fill hu path
      obtain ⟨h₂, hon'⟩ := ih h₁
      exact ⟨h₂, (hon.mono (by simp)).trans (hon'.mono (List.subset_cons_self _ _))⟩
    · obtain ⟨h₂, hon'⟩ := ih h
      exact ⟨h₂, hon'.mono (List.subset_cons_self _ _)⟩

/-- When a device is left on the way, it has declined everything that is ready. -/
theorem walkPast_declines (h : s.Alone r app own w) (hu : s.usable w.ledger d = true)
    (path met : List DeviceId) : ∀ n ∈ app.readyToPlace
        (s.walkPast app path r.id (met ++ [d]) w).placed,
      s.Declines app (s.walkPast app path r.id (met ++ [d]) w).ledger d n := by
  obtain ⟨⟨own', h'⟩, hon⟩ := h.walkPast path met
  have hu' := (usable_congr (hon.contains d)).trans hu
  refine h'.fill_declines hu' (fun _ hn => absurd hn List.not_mem_nil) path ?_
  rw [walkPast_append]
  exact (if_pos hu').symm

/-! ### Room -/

/-- The slots of no device demand more than what was placed. -/
theorem cost_le (h : s.Alone r app own w) (d : DeviceId) :
    app.cost (w.ledger.holding d).slots ≤ sumOf (own.map app.mipsOf) := by
  calc app.cost (w.ledger.holding d).slots
      ≤ app.cost w.ledger.slots := sumOf_sublist ((w.ledger.slots_sublist d).map _)
    _ = sumOf (own.map app.mipsOf) := by
      rw [Application.cost, sumOf_perm (h.slots.map _), List.map_map]
      rfl

/-- A device that has all that the request needs has room for whatever is ready. -/
theorem fits (h : s.Alone r app own w)
    (hroom : sumOf ((app.outstanding r.placed.keys).map app.mipsOf) ≤ s.free.freeCpu d)
    (hready : name ∈ app.readyToPlace w.placed) : ¬ s.Declines app w.ledger d name := by
  obtain ⟨hname, hnew, _⟩ := Application.mem_readyToPlace.mp hready
  have hnodup : (name :: own ++ r.placed.keys).Nodup := by
    rw [List.cons_append, ← h.placed]
    exact List.nodup_cons.mpr ⟨hnew, h.nodup⟩
  have hneed : sumOf ((name :: own).map app.mipsOf)
      ≤ sumOf ((app.outstanding r.placed.keys).map app.mipsOf) := by
    refine sumOf_map_le_of_subset (List.nodup_append.mp hnodup).1 ?_ _
    intro n hn
    refine Application.mem_outstanding.mpr ⟨?_, fun hk => ?_⟩
    · rcases List.mem_cons.mp hn with rfl | hn
      · exact hname
      · exact h.names n hn
    · exact (List.nodup_append.mp hnodup).2.2 n hn n hk rfl
  have hcost := h.cost_le d
  rw [List.map_cons, sumOf_cons] at hneed
  rw [Declines]
  omega

/-- A request with nothing ready is complete, if it can be ordered. -/
theorem isComplete (h : s.Alone r app own w) (horder : app.Orderable r.placed.keys)
    (hnone : ∀ n, n ∉ app.readyToPlace w.placed) :
    PlacementSetting.isComplete app r w.ledger = true := by
  refine isComplete_iff.mpr fun n hn => ?_
  have hplaced : n ∈ w.placed := by
    by_contra hnew
    have hkeys : r.placed.keys ⊆ w.placed := h.placed ▸ List.subset_append_right _ _
    obtain ⟨m, hm⟩ := horder.exists_ready hkeys hn hnew
    exact hnone m hm
  rw [h.placed] at hplaced
  rcases List.mem_append.mp hplaced with hown | hkey
  · obtain ⟨d, x, hx, hp⟩ := h.mem_slots_iff.mpr hown
    exact Or.inr (serves_iff.mpr ⟨x, Ledger.mem_slots.mpr ⟨d, hx⟩, hp⟩)
  · exact Or.inl hkey

end Alone

/-- With room at the root, the walk places all that can be ordered. -/
theorem isComplete_walk (hp : path ∈ s.layout.leafPaths s.root)
    (hu : s.usable (.start s.domain) s.root = true) (horder : app.Orderable r.placed.keys)
    (hroom : sumOf ((app.outstanding r.placed.keys).map app.mipsOf) ≤ s.free.freeCpu s.root)
    (failures : Nat) :
    isComplete app r (s.walk app path r (.start s.domain) failures).ledger = true := by
  obtain ⟨met, rfl⟩ := Layout.leafPaths_concat hp
  have hstart := alone_start s r app failures
  obtain ⟨⟨own, hw⟩, _⟩ := hstart.walkPast (met ++ [s.root]) (met ++ [s.root])
  rw [walk_eq]
  refine hw.isComplete horder fun n hn => hw.fits hroom hn ?_
  exact hstart.walkPast_declines hu (met ++ [s.root]) met n hn

/-! ## A batch of one request -/

variable (hf : s.layout.Forest) (hp : path ∈ s.layout.leafPaths s.root)
  (hhead : path.head? = some r.gateway) (happ : s.applications.get? r.app = some app)
include hf hp hhead happ

/-- A batch of one request walks for it on the path from its gateway. -/
theorem run_singleton : s.run [r]
    = let w := s.walk app path r (.start s.domain) 0
      if isComplete app r w.ledger = true then ⟨w.ledger.assemble [r.id], w.ledger, w.failures⟩
      else ⟨(w.ledger.rollback app r.id).assemble [], w.ledger.rollback app r.id, w.failures⟩ := by
  have hvisits := visits_of_head hf hp [r] (by simpa using hhead)
  rw [run, foldl_placePath, hvisits]
  simp only [List.map_cons, List.map_nil, List.foldl_cons, List.foldl_nil, placeRequest, happ]
  split <;> simp

theorem contains_run_singleton : (s.run [r]).placement.contains r.id = true
    ↔ isComplete app r (s.walk app path r (.start s.domain) 0).ledger = true := by
  rw [run_singleton hf hp hhead happ]
  simp only
  split
  · next hcomplete => simp [hcomplete, Ledger.contains_assemble]
  · next hincomplete => simp [hincomplete, Ledger.contains_assemble]

/-- With room at the root a request is placed if and only if it can be ordered. -/
theorem contains_run_iff_orderable (hu : s.usable (.start s.domain) s.root = true)
    (hroom : sumOf ((app.outstanding r.placed.keys).map app.mipsOf) ≤ s.free.freeCpu s.root) :
    (s.run [r]).placement.contains r.id = true ↔ app.Orderable r.placed.keys := by
  constructor
  · exact orderable_of_contains_run hf (by simp) List.mem_cons_self happ
  · intro horder
    exact (contains_run_singleton hf hp hhead happ).mpr (isComplete_walk hp hu horder hroom 0)

omit hf hp hhead happ

theorem usable_start {dev : Device} (hdev : s.layout.device? d = some dev)
    (hrole : dev.role ≠ .client) (hd : d ∈ s.domain) : s.usable (.start s.domain) d = true := by
  have hhosts : dev.role.hostsShared = true := by
    cases hr : dev.role with
    | client => exact absurd hr hrole
    | _ => rfl
  simp only [usable, hdev, hhosts, Bool.true_and]
  exact Ledger.contains_start.mpr hd

end PlacementSetting

/-! ## On a topology -/

namespace Topology

/-- What an orchestrating device of a topology looks at when it places a batch. -/
def setting (t : Topology) (root : DeviceId) (applications : Applications) (free : Snapshot) :
    PlacementSetting :=
  ⟨t.toLayout, root, t.domain root, applications, free⟩

variable {t : Topology} {l : Layout} {root d e : DeviceId} {applications : Applications}
  {free : Snapshot} {dev : Device} {r : Request} {app : Application} {m : Name}

/-- Two microservices, one of which waits for the other. -/
def pair : Application :=
  { id := "pair", user := 1, microservices := [⟨"m", 8, 0, 0, []⟩, ⟨"x", 5, 0, 0, []⟩]
    edges := [⟨.module, "m", "x", "t", .up, 1, 1⟩] }

/-- What `zeroChain` is placed on with: its devices have free what they can do. -/
def zeroChainSetting : PlacementSetting :=
  zeroChainTopology.setting 0 (.ofList [pair])
    (.ofList (zeroChain.devices.map fun d => (d.id, d.capacity)))

theorem onWay_zeroChain : zeroChainTopology.OnWay 0 3 2 ∧ zeroChainTopology.OnWay 0 2 1
    ∧ zeroChainTopology.OnWay 0 1 0 :=
  ⟨.single ⟨by decide, by decide +kernel⟩, .single ⟨by decide, by decide +kernel⟩,
    .single ⟨by decide, by decide +kernel⟩⟩

/--
A request from a leaf below an orchestrating device that has free what the request needs, alone in
its batch, is placed if and only if what it does not bring along can be listed so that nothing comes
before what it waits for.
-/
theorem contains_run_iff_lists (hb : build l = .ok t) (hdev : t.device? root = some dev)
    (hrole : dev.role.orchestrates = true) (happ : applications.get? r.app = some app)
    (hleaf : t.children r.gateway = []) (hbelow : t.OnWay root r.gateway root)
    (hroom : sumOf ((app.outstanding r.placed.keys).map app.mipsOf) ≤ free.freeCpu root) :
    ((t.setting root applications free).run [r]).placement.contains r.id = true
      ↔ ∃ order, app.Lists r.placed.keys order := by
  have hf := Layout.forest_of_build hb
  have hroot : t.contains root = true := Option.isSome_of_mem hdev
  obtain ⟨path, hp, hhead⟩ := hf.exists_leafPath hroot hleaf hbelow
  have hu := PlacementSetting.usable_start (s := t.setting root applications free) hdev
    (Role.ne_client_of_orchestrates hrole) (Layout.mem_domain_self hroot)
  rw [← Application.orderable_iff]
  exact PlacementSetting.contains_run_iff_orderable hf hp hhead happ hu hroom

/-- Both microservices of `pair` are placed, so there is an order. -/
theorem contains_run_iff_lists_zeroChain :
    (zeroChainSetting.run [⟨1, "pair", 3, .empty⟩]).placement.contains 1 = true
      ∧ ∃ order, pair.Lists [] order := by
  have hplaced : (zeroChainSetting.run [⟨1, "pair", 3, .empty⟩]).placement.contains 1 = true := by
    decide +kernel
  have hcloud : ∃ dev, zeroChainTopology.device? 0 = some dev ∧ dev.role.orchestrates = true :=
    ⟨_, rfl, rfl⟩
  obtain ⟨dev, hdev, hrole⟩ := hcloud
  obtain ⟨hleaf, hlower, hupper⟩ := onWay_zeroChain
  have happ : zeroChainSetting.applications.get? "pair" = some pair := by decide +kernel
  exact ⟨hplaced, (contains_run_iff_lists build_zeroChain (r := ⟨1, "pair", 3, .empty⟩) hdev hrole
    happ (by decide +kernel) ((hleaf.trans hlower).trans hupper)
    (by decide +kernel)).mp hplaced⟩

end Topology

end FogNet
