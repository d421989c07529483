import FogNet.Placement.Edgeward

/-!
# Where the slots of a ledger go

Whatever placement does to a ledger, it never loses a slot and never makes one up. Noting a slot
adds that one, a shift adds the one it was asked for and only moves the others, and taking a request
back removes just the slots of that request. Slots are counted over all devices together, since a
shift may take them anywhere.

## Main statements

* `Ledger.slots_modify` — changing one holding changes the slots by what it held and holds now
* `PlacementSetting.grows_shift` — a shift adds the new slot and keeps all others
* `Ledger.slots_rollback` — taking a request back keeps the slots of the others
-/

namespace FogNet

open List (Perm)

/-! ## Holdings -/

namespace Holding

theorem slots_withoutRequest (app : Application) (request : RequestId) (h : Holding) :
    (h.withoutRequest app request).slots = h.slots.filter fun x => x.request != request := rfl

theorem demand_append (app : Application) (slots slots' : List Slot) :
    demand app (slots ++ slots') = wrap (demand app slots + demand app slots') := by
  rw [demand, List.map_append, sumOf_append, demand, demand, wrap_wrap_add, wrap_add_wrap]

theorem keep_of_all {app : Application} {p : Slot → Bool} {h : Holding}
    (hp : ∀ x ∈ h.slots, p x = true) : h.keep app p = h := by
  have hgone : (h.slots.filter fun x => !p x) = [] :=
    List.filter_eq_nil_iff.mpr fun x hx => by simp [hp x hx]
  rw [keep, hgone, List.filter_eq_self.mpr hp]
  rfl

/-- It matters only which of its microservices are taken off a device. -/
theorem without_filter {app : Application} {q : Name → Bool} : ∀ {names : List Name} {h : Holding},
    (∀ n ∈ names, q n = false → ∀ x ∈ h.slots, x.microservice ≠ n) →
      h.without app (names.filter q) = h.without app names
  | [], _, _ => rfl
  | n :: names, h, hskip => by
    have hrest := fun m hm => hskip m (List.mem_cons_of_mem n hm)
    cases hq : q n with
    | true =>
      rw [List.filter_cons_of_pos hq, without, List.foldl_cons, ← without, without_filter, without,
        without, List.foldl_cons]
      exact fun m hm hqm x hx => hrest m hm hqm x (List.mem_filter.mp hx).1
    | false =>
      have hnone : h.keep app (fun x => x.microservice != n) = h :=
        keep_of_all fun x hx => by simpa using hskip n List.mem_cons_self hq x hx
      rw [List.filter_cons_of_neg (by simp [hq]), without_filter hrest, without, without,
        List.foldl_cons, hnone]

/-- What is taken off a device and what stays make up all that it held. -/
theorem without_append_taken (app : Application) (names : List Name) (h : Holding) :
    ((h.without app names).slots ++ h.taken names).Perm h.slots := by
  rw [slots_without, taken]
  have hp := List.filter_append_perm (fun x : Slot => !names.contains x.microservice) h.slots
  simpa only [Bool.not_not] using hp

end Holding

/-! ## Ledgers -/

namespace Ledger

variable {l l' l₁ l₂ : Ledger} {d : DeviceId} {x : Slot}

/-- Every slot of a ledger, by device. -/
def slots (l : Ledger) : List Slot := l.placements.map Prod.snd

theorem holding_eq {h : Holding} (hd : l.get? d = some h) : l.holding d = h := by
  rw [holding, hd, Option.getD_some]

theorem get?_of_contains (h : l.contains d = true) : l.get? d = some (l.holding d) := by
  obtain ⟨v, hv⟩ := Option.isSome_iff_exists.mp h
  rw [holding_eq hv, hv]

theorem contains_of_mem (h : x ∈ (l.holding d).slots) : l.contains d = true := by
  rw [SortedMap.contains_eq]
  cases hd : l.get? d with
  | none =>
    rw [holding, hd] at h
    exact absurd h List.not_mem_nil
  | some v => rfl

theorem mem_placements : (d, x) ∈ l.placements ↔ x ∈ (l.holding d).slots := by
  simp only [placements, List.mem_flatMap, List.mem_map, Prod.mk.injEq]
  constructor
  · rintro ⟨⟨d', h⟩, he, x', hx, rfl, rfl⟩
    rw [holding_eq ((l.mem_entries_iff d' h).mp he)]
    exact hx
  · intro hx
    have hd := get?_of_contains (contains_of_mem hx)
    exact ⟨(d, l.holding d), (l.mem_entries_iff _ _).mpr hd, x, hx, rfl, rfl⟩

theorem mem_slots : x ∈ l.slots ↔ ∃ d, x ∈ (l.holding d).slots := by
  rw [slots, List.mem_map]
  constructor
  · rintro ⟨⟨d, x⟩, h, rfl⟩
    exact ⟨d, mem_placements.mp h⟩
  · rintro ⟨d, h⟩
    exact ⟨(d, x), mem_placements.mpr h, rfl⟩

theorem slots_eq (l : Ledger) : l.slots = l.entries.flatMap fun e => e.2.slots := by
  simp [slots, placements, List.map_flatMap, Function.comp_def]

theorem slots_sublist (l : Ledger) (d : DeviceId) : (l.holding d).slots.Sublist l.slots := by
  cases hd : l.get? d with
  | none =>
    rw [holding, hd]
    exact List.nil_sublist _
  | some h =>
    rw [holding_eq hd, slots_eq, List.flatMap]
    exact List.sublist_flatten_of_mem
      (List.mem_map.mpr ⟨(d, h), (l.mem_entries_iff d h).mpr hd, rfl⟩)

/-! ### One holding -/

theorem holding_modify_self (h : l.contains d = true) (f : Holding → Holding) :
    Ledger.holding (l.modify d f) d = f (l.holding d) := by
  rw [holding, SortedMap.get?_modify, if_pos rfl, get?_of_contains h]
  rfl

theorem holding_modify_ne {e : DeviceId} (h : e ≠ d) (f : Holding → Holding) :
    Ledger.holding (l.modify d f) e = l.holding e := by
  rw [holding, SortedMap.get?_modify, if_neg h, holding]

theorem modify_congr {f g : Holding → Holding} (h : f (l.holding d) = g (l.holding d)) :
    l.modify d f = l.modify d g := by
  refine SortedMap.ext_get? fun e => ?_
  rw [SortedMap.get?_modify, SortedMap.get?_modify]
  split
  · next he =>
    subst he
    cases hget : l.get? e with
    | none => rfl
    | some v =>
      rw [holding_eq hget] at h
      rw [Option.map_some, Option.map_some, h]
  · rfl

theorem modify_of_not_contains (h : l.contains d = false) (f : Holding → Holding) :
    l.modify d f = l := by
  refine SortedMap.ext_get? ?_
  intro e
  rw [SortedMap.get?_modify]
  split
  · next he =>
    rw [SortedMap.contains_eq, ← he, Option.isSome_eq_false_iff, Option.isNone_iff_eq_none] at h
    rw [h, Option.map_none]
  · rfl

theorem contains_modify (f : Holding → Holding) (e : DeviceId) :
    (l.modify d f).contains e = l.contains e := by
  rw [SortedMap.contains_eq, SortedMap.get?_modify, SortedMap.contains_eq]
  split <;> simp

/-- Changing one holding changes the slots by what it held and by what it holds now. -/
theorem slots_modify (h : l.contains d = true) (f : Holding → Holding) :
    (Ledger.slots (l.modify d f) ++ (l.holding d).slots).Perm
      (l.slots ++ (f (l.holding d)).slots) := by
  have key : ∀ (entries : List (DeviceId × Holding)) (v : Holding),
      (entries.map Prod.fst).Nodup → SortedMap.lookup d entries = some v →
        (((entries.map fun e => (e.1, if e.1 = d then f e.2 else e.2)).flatMap fun e => e.2.slots)
          ++ v.slots).Perm ((entries.flatMap fun e => e.2.slots) ++ (f v).slots) := by
    intro entries
    induction entries with
    | nil => intro v _ hv; simp [SortedMap.lookup] at hv
    | cons e entries ih =>
      intro v hn hv
      rw [List.map_cons, List.nodup_cons] at hn
      simp only [List.map_cons, List.flatMap_cons]
      by_cases he : e.1 = d
      · simp only [SortedMap.lookup, he, if_true, Option.some.injEq] at hv
        subst hv
        have hrest : (entries.map fun e => (e.1, if e.1 = d then f e.2 else e.2)) = entries := by
          refine (List.map_congr_left ?_).trans (List.map_id _)
          intro x hx
          rw [if_neg fun hxd => hn.1 (List.mem_map.mpr ⟨x, hx, hxd.trans he.symm⟩)]
          rfl
        rw [hrest, if_pos he, List.perm_iff_count]
        intro a
        simp only [List.count_append]
        omega
      · simp only [SortedMap.lookup, he, if_false] at hv
        have hp := ih v hn.2 hv
        rw [if_neg he, List.append_assoc, List.append_assoc]
        exact hp.append_left _
  have hk := key l.entries (l.holding d) l.keys_nodup (get?_of_contains h)
  rw [slots_eq, slots_eq]
  exact hk

theorem add_eq_modify (h : l.contains d = true) (slot : Slot) (mips : Nat) :
    l.add d slot mips = l.modify d fun h => h.add slot mips := by
  refine SortedMap.ext_get? ?_
  intro e
  rw [add, SortedMap.get?_insert, SortedMap.get?_modify]
  split
  · next he => rw [he, get?_of_contains h, Option.map_some]
  · rfl

/-! ### Growth -/

/-- A ledger of the same devices with the same slots and some new ones. -/
structure Grows (l l' : Ledger) (new : List Slot) : Prop where
  contains : ∀ d, l'.contains d = l.contains d
  slots : l'.slots.Perm (l.slots ++ new)

theorem Grows.refl (l : Ledger) : l.Grows l [] :=
  ⟨fun _ => rfl, by rw [List.append_nil]⟩

theorem Grows.trans {new more : List Slot} (h : l.Grows l₁ new) (h' : l₁.Grows l₂ more) :
    l.Grows l₂ (new ++ more) := by
  refine ⟨fun d => (h'.contains d).trans (h.contains d), ?_⟩
  rw [← List.append_assoc]
  exact h'.slots.trans (h.slots.append_right more)

theorem Grows.perm {new new' : List Slot} (h : l.Grows l' new) (hp : new.Perm new') :
    l.Grows l' new' :=
  ⟨h.contains, h.slots.trans (hp.append_left _)⟩

/-- Growing back by what was taken away, and by something new, is growing by what is new. -/
theorem Grows.of_taken {taken new : List Slot} (h : l₁.Grows l taken)
    (h' : l₁.Grows l₂ (new ++ taken)) : l.Grows l₂ new := by
  refine ⟨fun d => (h'.contains d).trans (h.contains d).symm, ?_⟩
  rw [List.perm_iff_count]
  intro a
  have hc := h.slots.count_eq a
  have hc' := h'.slots.count_eq a
  simp only [List.count_append] at hc hc' ⊢
  omega

theorem grows_add (h : l.contains d = true) (slot : Slot) (mips : Nat) :
    l.Grows (l.add d slot mips) [slot] := by
  rw [add_eq_modify h]
  refine ⟨contains_modify _, ?_⟩
  have hp := slots_modify h fun h => h.add slot mips
  rw [List.perm_iff_count] at hp ⊢
  intro a
  have hc := hp a
  simp only [Holding.add, List.count_append] at hc ⊢
  omega

/-! ### Taking back -/

theorem holding_rollback (app : Application) (request : RequestId) (l : Ledger) (d : DeviceId) :
    (l.rollback app request).holding d = (l.holding d).withoutRequest app request := by
  rw [rollback, holding, SortedMap.get?_mapValues, holding]
  cases l.get? d <;> rfl

theorem contains_rollback (app : Application) (request : RequestId) (l : Ledger) (d : DeviceId) :
    (l.rollback app request).contains d = l.contains d := by
  rw [rollback, SortedMap.contains_eq, SortedMap.get?_mapValues, SortedMap.contains_eq]
  cases l.get? d <;> rfl

/-- Taking a request back keeps the slots of the others, where they are. -/
theorem slots_rollback (app : Application) (request : RequestId) (l : Ledger) :
    (l.rollback app request).slots = l.slots.filter fun x => x.request != request := by
  rw [slots_eq, slots_eq, List.filter_flatMap, rollback, SortedMap.mapValues, List.flatMap_map]
  rfl

/-! ### The start of a batch -/

theorem holding_start (domain : List DeviceId) (d : DeviceId) :
    (Ledger.start domain).holding d = {} := by
  have hget : (Ledger.start domain).get? d = _ :=
    SortedMap.get?_ofList fun e he _ => by
      obtain ⟨_, _, rfl⟩ := List.mem_map.mp he
      rfl
  rw [holding, hget]
  split <;> rfl

theorem slots_start (domain : List DeviceId) : (Ledger.start domain).slots = [] := by
  refine List.eq_nil_iff_forall_not_mem.mpr ?_
  intro x hx
  obtain ⟨d, hx⟩ := mem_slots.mp hx
  rw [holding_start] at hx
  exact absurd hx List.not_mem_nil

end Ledger

/-! ## Shifts -/

namespace Moving

variable {l : Ledger} {d : DeviceId}

/-- What joins from a device is what the ledger loses. -/
theorem grows_collect (app : Application) (l : Ledger) (d : DeviceId) (names : List Name)
    (moving : Moving) : ∃ taken : List Slot,
      (moving.collect app l d names).1.Grows l taken
        ∧ (moving.collect app l d names).2.slots = moving.slots ++ taken := by
  refine ⟨_, ?_, rfl⟩
  refine ⟨fun e => (Ledger.contains_modify _ e).symm, ?_⟩
  simp only [collect]
  cases hd : l.contains d with
  | true =>
    have hp := Ledger.slots_modify hd
      (Holding.without app (names.filter fun n => !moving.names.contains n))
    have hw := Holding.without_append_taken app
      (names.filter fun n => !moving.names.contains n) (l.holding d)
    rw [List.perm_iff_count] at hp hw ⊢
    intro a
    have hc := hp a
    have hc' := hw a
    simp only [List.count_append] at hc hc' ⊢
    omega
  | false =>
    rw [Ledger.modify_of_not_contains hd]
    have hnone : l.get? d = none := by
      rw [SortedMap.contains_eq] at hd
      simpa using hd
    rw [Ledger.holding, hnone, Option.getD_none, Holding.taken, List.filter_nil, List.append_nil]

theorem grows_settle (h : l.contains d = true) (moving : Moving) :
    l.Grows (moving.settle l d) moving.slots := by
  refine ⟨Ledger.contains_modify _, ?_⟩
  have hp := Ledger.slots_modify h fun h =>
    { load := wrap (h.load + moving.load), slots := h.slots ++ moving.slots }
  rw [List.perm_iff_count] at hp ⊢
  intro a
  have hc := hp a
  simp only [settle, List.count_append] at hc ⊢
  omega

end Moving

namespace PlacementSetting

variable {s : PlacementSetting} {app : Application}

/-- What a step of a lift does: it puts everything on the parent, or takes more along from there. -/
theorem lift_some_cases {steps : Nat} {current : DeviceId} {l l' : Ledger} {moving : Moving}
    (h : s.lift app (steps + 1) current l moving = some l') :
    ∃ parent, current ≠ s.root ∧ s.layout.parent? current = some parent
      ∧ l.contains parent = true
      ∧ ((wrap (l.load parent + moving.load) ≤ s.free.freeCpu parent ∧ l' = moving.settle l parent)
        ∨ ∃ l₁ moving₁, moving.collect app l parent (app.closeUp (l.hosts parent) moving.names)
              = (l₁, moving₁)
            ∧ s.lift app steps parent l₁ moving₁ = some l') := by
  unfold lift at h
  split at h
  · simp at h
  · next hroot =>
    split at h
    · simp at h
    · next parent hp =>
      split at h
      · simp at h
      · next hc =>
        rw [Bool.not_eq_true', Bool.not_eq_false] at hc
        refine ⟨parent, hroot, hp, hc, ?_⟩
        split at h
        · next hfits => exact Or.inl ⟨hfits, (Option.some.inj h).symm⟩
        · exact Or.inr ⟨_, _, rfl, h⟩

/-- What is lifted ends up in the ledger, and nothing else is added or lost. -/
theorem grows_lift : ∀ {steps : Nat} {current : DeviceId} {l l' : Ledger} {moving : Moving},
    s.lift app steps current l moving = some l' → l.Grows l' moving.slots
  | 0, _, _, _, _, h => by simp [lift] at h
  | steps + 1, current, l, l', moving, h => by
    obtain ⟨parent, _, _, hc, ⟨_, rfl⟩ | ⟨l₁, moving₁, hcollect, hlift⟩⟩ := lift_some_cases h
    · exact moving.grows_settle hc
    · obtain ⟨taken, htaken, hslots⟩ := moving.grows_collect app l parent
        (app.closeUp (l.hosts parent) moving.names)
      rw [hcollect] at htaken hslots
      have hgrows := grows_lift hlift
      rw [hslots] at hgrows
      exact htaken.of_taken hgrows

/-- A shift takes what moves off the device and lifts it together with the new slot. -/
theorem shift_some_cases {l l' : Ledger} {slot : Slot} {device : DeviceId}
    (h : s.shift app l slot device = some l') :
    ∃ l₁ moving, Moving.collect app l device
          (app.closeUp (l.hosts device) [slot.microservice]) ⟨[], [], 0⟩ = (l₁, moving)
      ∧ s.lift app s.domain.length device l₁
          { moving with
            slots := moving.slots ++ [slot]
            load := wrap (moving.load + app.mipsOf slot.microservice) } = some l' :=
  ⟨_, _, rfl, h⟩

/-- A shift adds the new slot and keeps all others. -/
theorem grows_shift {l l' : Ledger} {slot : Slot} {device : DeviceId}
    (h : s.shift app l slot device = some l') : l.Grows l' [slot] := by
  obtain ⟨l₁, moving, hcollect, hlift⟩ := shift_some_cases h
  obtain ⟨taken, htaken, hslots⟩ := Moving.grows_collect app l device
    (app.closeUp (l.hosts device) [slot.microservice]) ⟨[], [], 0⟩
  rw [hcollect] at htaken hslots
  have hgrows := grows_lift hlift
  rw [hslots, List.nil_append] at hgrows
  exact htaken.of_taken (hgrows.perm List.perm_append_comm)

end PlacementSetting

end FogNet
