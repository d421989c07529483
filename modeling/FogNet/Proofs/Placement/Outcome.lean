import FogNet.Proofs.Placement.Batch

/-!
# What a batch answers

The answer of a batch is read off the ledger at its end. Each slot there is of a complete request,
and a request has one slot for a microservice, so the slots of a device are just what the answer
puts on that device: the load is the demand of that, and the instances can be counted there.

## Main statements

* `Ledger.device?_assemble` — an assignment is where the slot is
* `PlacementSetting.run_on` — the slots of a device are what the answer puts on it
* `PlacementSetting.run_load`, `PlacementSetting.run_count` — so load and instances are those of the
  answer
* `PlacementSetting.run_device?` — where the answer may put what
-/

namespace FogNet

/-! ## What a placement puts where -/

namespace Placement

variable {p : Placement} {d : DeviceId} {id : RequestId} {name : Name}

/-- Where a placement puts a microservice of a request. -/
def device? (p : Placement) (id : RequestId) (name : Name) : Option DeviceId :=
  (p.get? id).bind fun a => a.get? name

/-- What a placement puts on a device: requests with microservices. -/
def on (p : Placement) (d : DeviceId) : List (RequestId × Name) :=
  p.entries.flatMap fun e => (e.2.entries.filter fun a => a.2 == d).map fun a => (e.1, a.1)

/-- The demand of what a placement puts on a device, by what a microservice of a request costs. -/
def demandOn (p : Placement) (cost : RequestId → Name → Nat) (d : DeviceId) : Nat :=
  sumOf ((p.on d).map fun a => cost a.1 a.2)

/-- How many requests have a microservice on a device. -/
def countOn (p : Placement) (d : DeviceId) (name : Name) : Nat :=
  p.entries.countP fun e => e.2.get? name == some d

theorem mem_on : (id, name) ∈ p.on d ↔ p.device? id name = some d := by
  simp only [on, device?, List.mem_flatMap, List.mem_map, List.mem_filter, beq_iff_eq,
    Prod.mk.injEq, Option.bind_eq_some_iff]
  constructor
  · rintro ⟨⟨id, a⟩, he, ⟨name, d⟩, ⟨ha, rfl⟩, rfl, rfl⟩
    exact ⟨a, (p.mem_entries_iff _ _).mp he, (a.mem_entries_iff _ _).mp ha⟩
  · rintro ⟨a, he, ha⟩
    exact ⟨(id, a), (p.mem_entries_iff _ _).mpr he, (name, d),
      ⟨(a.mem_entries_iff _ _).mpr ha, rfl⟩, rfl, rfl⟩

theorem on_nodup (p : Placement) (d : DeviceId) : (p.on d).Nodup := by
  rw [on, List.nodup_flatMap]
  constructor
  · intro e _
    have hn : ((e.2.entries.filter fun a => a.2 == d).map Prod.fst).Nodup :=
      e.2.keys_nodup.sublist (List.filter_sublist.map _)
    rw [List.Nodup, List.pairwise_map] at hn ⊢
    exact hn.imp fun {a a'} hne he => hne (Prod.mk.inj he).2
  · have hn := p.keys_nodup
    rw [SortedMap.keys, List.Nodup, List.pairwise_map] at hn
    refine hn.imp ?_
    intro e e' hne
    show List.Disjoint _ _
    rw [List.disjoint_left]
    rintro ⟨id, name⟩ hx hx'
    obtain ⟨_, _, he⟩ := List.mem_map.mp hx
    obtain ⟨_, _, he'⟩ := List.mem_map.mp hx'
    exact hne ((Prod.mk.inj he).1.trans (Prod.mk.inj he').1.symm)

/-- The entries of a map with some value, of those with one key. -/
theorem countP_entries (a : Assignment) (d : DeviceId) (name : Name) :
    (a.entries.filter fun e => e.2 == d).countP (fun e => e.1 == name)
      = if a.get? name == some d then 1 else 0 := by
  rw [List.countP_filter]
  have hn := a.keys_nodup
  split
  · next h =>
    have hmem := (a.mem_entries_iff name d).mpr (by simpa using h)
    have hcount : a.keys.count name = 1 :=
      List.count_eq_one_of_mem hn (List.mem_map.mpr ⟨_, hmem, rfl⟩)
    rw [SortedMap.keys, List.count, List.countP_map] at hcount
    rw [← hcount]
    refine List.countP_congr ?_
    intro e he
    simp only [Function.comp_apply, Bool.and_eq_true, beq_iff_eq]
    refine ⟨fun h => h.1, fun hk => ⟨hk, ?_⟩⟩
    have hv := (a.mem_entries_iff e.1 e.2).mp he
    have hd := (a.mem_entries_iff name d).mp hmem
    rw [hk, hd, Option.some.injEq] at hv
    exact hv.symm
  · next h =>
    refine List.countP_eq_zero.mpr ?_
    intro e he
    simp only [Bool.and_eq_true, beq_iff_eq, not_and]
    rintro rfl rfl
    exact h (by simpa using (a.mem_entries_iff _ _).mp he)

theorem countP_on (p : Placement) (d : DeviceId) (name : Name) :
    (p.on d).countP (fun a => a.2 == name) = p.countOn d name := by
  rw [on, List.countP_flatMap, countOn]
  induction p.entries with
  | nil => rfl
  | cons e entries ih =>
    rw [List.map_cons, List.sum_cons, ih, List.countP_cons, Nat.add_comm, Function.comp_apply,
      List.countP_map]
    congr 1
    exact countP_entries e.2 d name

theorem contains_of_mem_on (h : (id, name) ∈ p.on d) : p.contains id = true := by
  obtain ⟨a, ha, _⟩ := Option.bind_eq_some_iff.mp (mem_on.mp h)
  rw [SortedMap.contains_eq, ha]
  rfl

end Placement

/-! ## Reading the answer off the ledger -/

namespace Ledger

variable {l : Ledger} {complete : List RequestId}

theorem device?_assign (p : Placement) (d : DeviceId) (x : Slot) (id : RequestId) (name : Name) :
    (assign p (d, x)).device? id name = if x.purpose = (id, name) then
      (if p.contains id then some d else none) else p.device? id name := by
  simp only [assign, Placement.device?, Slot.purpose, Prod.mk.injEq, SortedMap.contains_eq]
  rw [SortedMap.get?_modify]
  by_cases hid : id = x.request
  · subst hid
    rw [if_pos rfl]
    rcases Option.eq_none_or_eq_some (p.get? x.request) with hp | ⟨a, hp⟩
    · simp [hp]
    · by_cases hn : name = x.microservice
      · simp [hp, hn]
      · simp [hp, SortedMap.get?_insert, hn, Ne.symm hn]
  · simp [hid, Ne.symm hid]

theorem contains_assign (p : Placement) (e : DeviceId × Slot) (id : RequestId) :
    (assign p e).contains id = p.contains id := by
  rw [assign, SortedMap.contains_eq, SortedMap.get?_modify, SortedMap.contains_eq]
  split <;> simp

theorem contains_foldl_assign (id : RequestId) : ∀ (es : List (DeviceId × Slot)) (p : Placement),
    (es.foldl assign p).contains id = p.contains id
  | [], _ => rfl
  | e :: es, p => by
    rw [List.foldl_cons, contains_foldl_assign id es, contains_assign]

/-- Noting slots of different purposes: each one ends up where it is. -/
theorem device?_foldl_assign {id : RequestId} {name : Name} {d : DeviceId} :
    ∀ (es : List (DeviceId × Slot)) (p : Placement), (es.map fun e => e.2.purpose).Nodup →
      ((es.foldl assign p).device? id name = some d ↔
        (p.contains id = true ∧ ∃ x, (d, x) ∈ es ∧ x.purpose = (id, name))
          ∨ (p.device? id name = some d ∧ ∀ e ∈ es, e.2.purpose ≠ (id, name)))
  | [], p, _ => by simp
  | (d', x) :: es, p, hn => by
    rw [List.map_cons, List.nodup_cons] at hn
    rw [List.foldl_cons, device?_foldl_assign es _ hn.2, device?_assign, contains_assign]
    by_cases hx : x.purpose = (id, name)
    · have hrest : ∀ e ∈ es, e.2.purpose ≠ (id, name) := fun e he hp =>
        hn.1 (List.mem_map.mpr ⟨e, he, hp.trans hx.symm⟩)
      rw [if_pos hx]
      constructor
      · rintro (⟨_, y, hy, hp⟩ | ⟨hd, _⟩)
        · exact absurd hp (hrest _ hy)
        · split at hd
          · next hc =>
            rw [Option.some.inj hd]
            exact Or.inl ⟨hc, x, List.mem_cons_self, hx⟩
          · simp at hd
      · rintro (⟨hc, y, hy, hp⟩ | ⟨_, hnone⟩)
        · rcases List.mem_cons.mp hy with hy | hy
          · rw [if_pos hc, (Prod.mk.inj hy).1]
            exact Or.inr ⟨rfl, hrest⟩
          · exact absurd hp (hrest _ hy)
        · exact absurd hx (hnone _ List.mem_cons_self)
    · rw [if_neg hx]
      refine or_congr (and_congr_right fun _ => ?_) (and_congr_right fun _ => ?_)
      · constructor
        · rintro ⟨y, hy, hp⟩
          exact ⟨y, List.mem_cons_of_mem _ hy, hp⟩
        · rintro ⟨y, hy, hp⟩
          rcases List.mem_cons.mp hy with hy | hy
          · exact absurd ((Prod.mk.inj hy).2 ▸ hp) hx
          · exact ⟨y, hy, hp⟩
      · simp [hx]

theorem get?_blank (complete : List RequestId) (id : RequestId) :
    (SortedMap.ofList (complete.map fun r => (r, (SortedMap.empty : Assignment)))).get? id
      = if id ∈ complete then some SortedMap.empty else none := by
  have hkeys : (complete.map fun r => (r, (SortedMap.empty : Assignment))).map Prod.fst
      = complete := by
    rw [List.map_map]
    exact List.map_id _
  have hget := SortedMap.get?_ofList (k := id) (v := SortedMap.empty)
    (l := complete.map fun r => (r, (SortedMap.empty : Assignment))) fun e he _ => by
      obtain ⟨_, _, rfl⟩ := List.mem_map.mp he
      rfl
  rw [hkeys] at hget
  exact hget

/-- The complete requests are those that the answer names. -/
theorem contains_assemble {id : RequestId} :
    (l.assemble complete).contains id = true ↔ id ∈ complete := by
  rw [assemble, contains_foldl_assign, SortedMap.contains_eq, get?_blank]
  split <;> simp_all

/-- An assignment is where the slot is. -/
theorem device?_assemble (hu : (l.slots.map Slot.purpose).Nodup) {id : RequestId} {name : Name}
    {d : DeviceId} : (l.assemble complete).device? id name = some d ↔
      id ∈ complete ∧ ∃ x ∈ (l.holding d).slots, x.purpose = (id, name) := by
  rw [slots, List.map_map] at hu
  rw [assemble, device?_foldl_assign _ _ hu, SortedMap.contains_eq, Placement.device?, get?_blank]
  simp only [mem_placements]
  by_cases hid : id ∈ complete <;> simp [hid]

end Ledger

/-! ## The answer of a batch -/

/-- What the microservices of requests cost is what the applications of the requests demand. -/
def Applications.Rates (apps : Applications) (requests : List Request)
    (cost : RequestId → Name → Nat) : Prop :=
  ∀ r ∈ requests, ∀ app, apps.get? r.app = some app → ∀ n ∈ app.names, cost r.id n = app.mipsOf n

/-- What a microservice of a request costs, if these are the requests. -/
def Applications.demandOf (apps : Applications) (requests : List Request) (id : RequestId)
    (name : Name) : Nat :=
  ((requests.find? fun r => r.id == id).bind fun r => apps.get? r.app).elim 0
    fun app => app.mipsOf name

theorem Applications.Rates.mono {apps : Applications} {requests requests' : List Request}
    {cost : RequestId → Name → Nat} (h : apps.Rates requests' cost)
    (hsub : requests ⊆ requests') : apps.Rates requests cost :=
  fun r hr => h r (hsub hr)

/-- A request is found by its number. -/
theorem find?_request {requests : List Request} (hn : (requests.map Request.id).Nodup) {r : Request}
    (hr : r ∈ requests) : (requests.find? fun r' => r'.id == r.id) = some r := by
  obtain ⟨r', hr'⟩ := Option.isSome_iff_exists.mp
    ((List.find?_isSome (p := fun r' : Request => r'.id == r.id)).mpr ⟨r, hr, beq_self_eq_true _⟩)
  have hid : r'.id = r.id := by simpa using List.find?_some hr'
  rw [hr', List.inj_on_of_nodup_map hn (List.mem_of_find?_eq_some hr') hr hid]

theorem Applications.rates_demandOf {apps : Applications} {requests : List Request}
    (hn : (requests.map Request.id).Nodup) : apps.Rates requests (apps.demandOf requests) := by
  intro r hr app happ n _
  rw [demandOf, find?_request hn hr, Option.bind_some, happ, Option.elim_some]

namespace PlacementSetting

variable {s : PlacementSetting} {requests : List Request}

theorem Balanced.load_eq {l : Ledger} (hb : s.Balanced requests l) (ha : s.Accountable requests)
    {cost : RequestId → Name → Nat} (hc : s.applications.Rates requests cost) (d : DeviceId) :
    l.load d = sumOf (((l.holding d).slots.map Slot.purpose).map fun a => cost a.1 a.2) := by
  rw [hb.load ha, Applications.cost, List.map_map]
  congr 1
  refine List.map_congr_left ?_
  intro x hx
  have hdecl := (hb.belongs d x hx).declares
  obtain ⟨r, hr, hid, _, app, happ, hn⟩ := hb.belongs d x hx
  have hname := (Application.mem_outstanding.mp hn).1
  rw [← ha.agree.mipsOf_eq (Applications.mem_values happ) (Or.inl hname) hdecl,
    Function.comp_apply, Slot.purpose, ← hid, hc r hr app happ _ hname]

variable (hf : s.layout.Forest) (hn : (requests.map Request.id).Nodup)
include hf hn

/-- The slots of a device are what the answer puts on it. -/
theorem run_on (d : DeviceId) : (((s.run requests).ledger.holding d).slots.map Slot.purpose).Perm
    ((s.run requests).placement.on d) := by
  obtain ⟨b, hb, hl, hp⟩ := consistent_run hf hn
  rw [hl, hp]
  refine (List.perm_ext_iff_of_nodup ?_ (Placement.on_nodup _ _)).mpr ?_
  · exact hb.unique.sublist ((b.ledger.slots_sublist d).map _)
  · rintro ⟨id, name⟩
    rw [Placement.mem_on, Ledger.device?_assemble hb.unique, List.mem_map]
    constructor
    · rintro ⟨x, hx, he⟩
      have hid : x.request = id := (Prod.mk.inj he).1
      exact ⟨hid ▸ hb.complete x (Ledger.mem_slots.mpr ⟨d, hx⟩), x, hx, he⟩
    · rintro ⟨_, h⟩
      exact h

/-- The load of a device is the demand of what the answer puts on it. -/
theorem run_load (ha : s.Accountable requests) {cost : RequestId → Name → Nat}
    (hc : s.applications.Rates requests cost) (d : DeviceId) :
    (s.run requests).ledger.load d = (s.run requests).placement.demandOn cost d := by
  obtain ⟨b, hb, hl, _⟩ := consistent_run hf hn
  rw [Placement.demandOn, ← sumOf_perm ((run_on hf hn d).map _), hl, hb.balanced.load_eq ha hc]

/-- No device takes more than is free. -/
theorem run_fits (d : DeviceId) : (s.run requests).ledger.load d ≤ s.free.freeCpu d := by
  obtain ⟨b, hb, hl, _⟩ := consistent_run hf hn
  rw [hl]
  exact hb.balanced.fits d

/-- The instances of a microservice on a device are the requests that the answer gives them to. -/
theorem run_count (d : DeviceId) (name : Name) :
    (s.run requests).ledger.count d name = (s.run requests).placement.countOn d name := by
  rw [← Placement.countP_on, ← (run_on hf hn d).countP_eq, List.countP_map]
  rfl

/-- A slot is only ever there for a request that the answer names. -/
theorem run_serves {id : RequestId} (h : (s.run requests).placement.contains id = false)
    (name : Name) : (s.run requests).ledger.serves id name = false := by
  rw [Ledger.serves, List.any_eq_false]
  intro v hv
  obtain ⟨⟨d, v⟩, he, rfl⟩ := List.mem_map.mp hv
  have hd := Ledger.holding_eq ((SortedMap.mem_entries_iff _ _ _).mp he)
  rw [Bool.not_eq_true, List.any_eq_false]
  intro x hx hmatch
  obtain ⟨hname, hid⟩ : x.microservice = name ∧ x.request = id := by simpa using hmatch
  have hon : (id, name) ∈ (s.run requests).placement.on d := by
    refine (run_on hf hn d).mem_iff.mp (List.mem_map.mpr ⟨x, hd ▸ hx, ?_⟩)
    rw [Slot.purpose, hid, hname]
  rw [Placement.contains_of_mem_on hon] at h
  simp at h

/-- What the answer puts on a device is declared for a request whose way up leads over it. -/
theorem run_device? {id : RequestId} {name : Name} {d : DeviceId}
    (h : (s.run requests).placement.device? id name = some d) :
    ∃ r ∈ requests, r.id = id ∧ s.layout.OnWay s.root r.gateway d
      ∧ ∃ app, s.applications.get? r.app = some app ∧ name ∈ app.names := by
  obtain ⟨b, hb, hl, _⟩ := consistent_run hf hn
  obtain ⟨x, hx, he⟩ := List.mem_map.mp ((run_on hf hn d).mem_iff.mpr (Placement.mem_on.mpr h))
  obtain ⟨r, hr, hid, hw, app, happ, hn⟩ := hb.balanced.belongs d x (hl ▸ hx)
  obtain ⟨rfl, rfl⟩ := Prod.mk.inj he
  exact ⟨r, hr, hid, hw, app, happ, (Application.mem_outstanding.mp hn).1⟩

end PlacementSetting

end FogNet
