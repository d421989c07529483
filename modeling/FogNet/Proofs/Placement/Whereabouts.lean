import FogNet.Proofs.Placement.Answers

/-!
# Where slots are

An attempt puts a new slot on the device it is made on, or the device sends slots up. What moves
counts as being where it has come to: picking up slots there moves nothing, and setting all down
moves nothing. So a shift is a number of steps up for the slots that move, and slots come only to
devices above the one that they are shifted from.

## Main statements

* `Ledger.mem_holding_add`, `Moving.at_collect`, `Moving.mem_holding_settle` — where slots are after
  the operations on a ledger
* `lift_rule`, `shift_rule` — a shift as steps up
* `attempt_within`, `walk_within` — a walk puts slots only where it may
-/

namespace FogNet

/-! ## Operations on a ledger -/

namespace Ledger

variable {l : Ledger} {d e : DeviceId} {x : Slot}

theorem mem_holding_add (hc : l.contains d = true) {slot : Slot} {mips : Nat} :
    x ∈ ((l.add d slot mips).holding e).slots ↔
      x ∈ (l.holding e).slots ∨ (e = d ∧ x = slot) := by
  rw [add_eq_modify hc]
  by_cases he : e = d
  · subst he
    rw [holding_modify_self hc]
    simp [Holding.add]
  · rw [holding_modify_ne he]
    simp [he]

theorem mem_holding_rollback {app : Application} {id : RequestId} :
    x ∈ ((l.rollback app id).holding d).slots ↔ x ∈ (l.holding d).slots ∧ x.request ≠ id := by
  rw [holding_rollback, Holding.slots_withoutRequest, List.mem_filter, bne_iff_ne]

theorem hosts_iff {name : Name} :
    l.hosts d name = true ↔ ∃ x ∈ (l.holding d).slots, x.microservice = name := by
  simp [hosts, Holding.hosts]

theorem contains_start {domain : List DeviceId} :
    (Ledger.start domain).contains d = true ↔ d ∈ domain := by
  have hget : (Ledger.start domain).get? d = _ :=
    SortedMap.get?_ofList fun e he _ => by
      obtain ⟨_, _, rfl⟩ := List.mem_map.mp he
      rfl
  have hkeys : (domain.map fun d => (d, ({} : Holding))).map Prod.fst = domain := by
    rw [List.map_map]
    exact List.map_id _
  rw [SortedMap.contains_eq, hget, hkeys]
  split <;> simp_all

end Ledger

namespace Moving

variable {l : Ledger} {m : Moving} {c d e : DeviceId} {x : Slot} {app : Application}
  {names : List Name}

/-- A slot is on a device: in its holding, or on its way and come as far as this device. -/
def At (m : Moving) (l : Ledger) (current d : DeviceId) (x : Slot) : Prop :=
  x ∈ (l.holding d).slots ∨ (d = current ∧ x ∈ m.slots)

theorem contains_collect (app : Application) (l : Ledger) (d : DeviceId) (names : List Name)
    (m : Moving) (e : DeviceId) : (m.collect app l d names).1.contains e = l.contains e :=
  Ledger.contains_modify _ _

/-- What is left when slots were taken along: those elsewhere, and those for other microservices. -/
theorem mem_holding_collect (hc : l.contains d = true) :
    x ∈ ((m.collect app l d names).1.holding e).slots ↔ x ∈ (l.holding e).slots
      ∧ ¬ (e = d ∧ x.microservice ∈ names ∧ x.microservice ∉ m.names) := by
  rw [collect]
  by_cases he : e = d
  · subst he
    rw [Ledger.holding_modify_self hc, Holding.mem_without]
    simp
  · rw [Ledger.holding_modify_ne he]
    simp [he]

/-- What moves when slots were taken along: what moved before, and what was taken. -/
theorem mem_slots_collect : x ∈ (m.collect app l d names).2.slots ↔ x ∈ m.slots
    ∨ (x ∈ (l.holding d).slots ∧ x.microservice ∈ names ∧ x.microservice ∉ m.names) := by
  simp [collect, Holding.mem_taken]

/-- To be taken along is to be where it was. -/
theorem at_collect (app : Application) (names : List Name) (m : Moving)
    (hc : l.contains d = true) (e : DeviceId) (x : Slot) :
    (m.collect app l d names).2.At (m.collect app l d names).1 d e x ↔ m.At l d e x := by
  rw [At, At, mem_holding_collect hc, mem_slots_collect]
  by_cases he : e = d
  · subst he
    by_cases hx : x.microservice ∈ names ∧ x.microservice ∉ m.names
    · simp [hx, or_comm]
    · simp [hx]
  · simp [he]

/-- To be set down is to be where it was. -/
theorem mem_holding_settle (hc : l.contains d = true) :
    x ∈ ((m.settle l d).holding e).slots ↔ m.At l d e x := by
  rw [settle, At]
  by_cases he : e = d
  · subst he
    rw [Ledger.holding_modify_self hc]
    simp
  · rw [Ledger.holding_modify_ne he]
    simp [he]

end Moving

namespace PlacementSetting

variable {s : PlacementSetting} {app : Application} {l l' : Ledger} {d : DeviceId}

/-! ## Shifts -/

/--
What holds of all that moves on its way up, from device to device, holds where it is set down.
-/
theorem lift_rule {I : DeviceId → Ledger → Moving → Prop} {J : Ledger → Prop}
    (settle : ∀ c p l m, s.layout.StepUp s.root c p → l.contains p = true → I c l m →
      J (m.settle l p))
    (collect : ∀ c p l m, s.layout.StepUp s.root c p → l.contains p = true → I c l m →
      I p (m.collect app l p (app.closeUp (l.hosts p) m.names)).1
        (m.collect app l p (app.closeUp (l.hosts p) m.names)).2) :
    ∀ {steps : Nat} {current : DeviceId} {l l' : Ledger} {m : Moving}, I current l m →
      s.lift app steps current l m = some l' → J l'
  | 0, _, _, _, _, _, h => by simp [lift] at h
  | steps + 1, current, l, l', m, hI, h => by
    obtain ⟨parent, hroot, hp, hc, ⟨_, rfl⟩ | ⟨l₁, m₁, hcollect, hlift⟩⟩ := lift_some_cases h
    · exact settle current parent l m ⟨hroot, hp⟩ hc hI
    · have hnext := collect current parent l m ⟨hroot, hp⟩ hc hI
      rw [hcollect] at hnext
      exact lift_rule settle collect hnext hlift

/-- What a shift begins with: the microservice with all it feeds on its device, and the new slot. -/
def departing (app : Application) (l : Ledger) (slot : Slot) (device : DeviceId) :
    Ledger × Moving :=
  let (l₁, m) := Moving.collect app l device
    (app.closeUp (l.hosts device) [slot.microservice]) ⟨[], [], 0⟩
  (l₁, { m with slots := m.slots ++ [slot], load := wrap (m.load + app.mipsOf slot.microservice) })

theorem shift_rule {I : DeviceId → Ledger → Moving → Prop} {J : Ledger → Prop} {slot : Slot}
    (settle : ∀ c p l m, s.layout.StepUp s.root c p → l.contains p = true → I c l m →
      J (m.settle l p))
    (collect : ∀ c p l m, s.layout.StepUp s.root c p → l.contains p = true → I c l m →
      I p (m.collect app l p (app.closeUp (l.hosts p) m.names)).1
        (m.collect app l p (app.closeUp (l.hosts p) m.names)).2)
    (start : I d (departing app l slot d).1 (departing app l slot d).2)
    (h : s.shift app l slot d = some l') : J l' :=
  lift_rule settle collect start h

theorem contains_departing (app : Application) (l : Ledger) (slot : Slot) (d e : DeviceId) :
    (departing app l slot d).1.contains e = l.contains e :=
  Moving.contains_collect _ _ _ _ _ _

/-- What begins to move is where it was, and the new slot is there as well. -/
theorem at_departing (app : Application) (slot : Slot) (hc : l.contains d = true) (e : DeviceId)
    (x : Slot) : (departing app l slot d).2.At (departing app l slot d).1 d e x ↔
      x ∈ (l.holding e).slots ∨ (e = d ∧ x = slot) := by
  have hcollect := Moving.at_collect app (app.closeUp (l.hosts d) [slot.microservice])
    ⟨[], [], 0⟩ hc e x
  simp only [Moving.At] at hcollect
  simp only [departing, Moving.At, List.mem_append, List.mem_singleton, and_or_left, ← or_assoc,
    hcollect]
  simp

/-! ## Where slots come to -/

section Within

variable {Good : DeviceId → Prop}

/-- A shift puts slots only on devices above the one that they come from. -/
theorem shift_within {slot : Slot} (hc : l.contains d = true)
    (hup : ∀ c p, s.layout.StepUp s.root c p → l.contains p = true → Good c → Good p)
    (hd : Good d) (h : s.shift app l slot d = some l') :
    ∀ e, ∀ x ∈ (l'.holding e).slots, x ∈ (l.holding e).slots ∨ Good e := by
  refine shift_rule
    (I := fun c l₁ m => (∀ e, l₁.contains e = l.contains e) ∧ Good c
      ∧ ∀ e x, m.At l₁ c e x → x ∈ (l.holding e).slots ∨ Good e)
    (J := fun l₁ => ∀ e, ∀ x ∈ (l₁.holding e).slots, x ∈ (l.holding e).slots ∨ Good e) ?_ ?_ ?_ h
  · intro c p l₁ m hs hp ⟨hkeep, hgood, hat⟩ e x hx
    rcases (Moving.mem_holding_settle hp).mp hx with hx | ⟨rfl, _⟩
    · exact hat e x (Or.inl hx)
    · exact Or.inr (hup c e hs ((hkeep e).symm.trans hp) hgood)
  · intro c p l₁ m hs hp ⟨hkeep, hgood, hat⟩
    have hgood' := hup c p hs ((hkeep p).symm.trans hp) hgood
    refine ⟨fun e => (Moving.contains_collect _ _ _ _ _ e).trans (hkeep e), hgood', ?_⟩
    intro e x hx
    rcases (Moving.at_collect _ _ _ hp e x).mp hx with hx | ⟨rfl, _⟩
    · exact hat e x (Or.inl hx)
    · exact Or.inr hgood'
  · refine ⟨fun e => contains_departing _ _ _ _ e, hd, ?_⟩
    intro e x hx
    rcases (at_departing app slot hc e x).mp hx with hx | ⟨rfl, _⟩
    · exact Or.inl hx
    · exact Or.inr hd

/-- An attempt puts slots only on its device or above it. -/
theorem attempt_within (path : List DeviceId) (id : RequestId) {w : Walk}
    (hc : w.ledger.contains d = true)
    (hup : ∀ c p, s.layout.StepUp s.root c p → w.ledger.contains p = true → Good c → Good p)
    (hd : Good d) (name : Name) :
    ∀ e, ∀ x ∈ ((s.attempt app path id d w name).ledger.holding e).slots,
      x ∈ (w.ledger.holding e).slots ∨ Good e := by
  rcases s.attempt_cases app path id d w name with ⟨hl, _⟩ | ⟨_, ⟨_, hl⟩ | hl⟩
  · rw [hl]
    exact fun _ _ hx => Or.inl hx
  · rw [hl]
    intro e x hx
    rcases (Ledger.mem_holding_add hc).mp hx with hx | ⟨rfl, _⟩
    · exact Or.inl hx
    · exact Or.inr hd
  · exact shift_within hc hup hd hl

/-- A walk puts slots only on the devices that it may use or above them. -/
theorem walk_within {path : List DeviceId} (r : Request) (failures : Nat)
    (hup : ∀ c p, s.layout.StepUp s.root c p → l.contains p = true → Good c → Good p)
    (husable : ∀ d ∈ path, s.usable l d = true → Good d) :
    ∀ e, ∀ x ∈ ((s.walk app path r l failures).ledger.holding e).slots,
      x ∈ (l.holding e).slots ∨ Good e := by
  refine (walk_induction (I := fun _ w => (∀ e, w.ledger.contains e = l.contains e)
    ∧ ∀ e, ∀ x ∈ (w.ledger.holding e).slots, x ∈ (l.holding e).slots ∨ Good e) ?_ ?_ ?_).2
  · exact ⟨fun _ => rfl, fun _ _ hx => Or.inl hx⟩
  · exact fun _ _ _ h => h
  · intro met d after w name hpath hu _ ⟨hkeep, hslots⟩
    have hc := Advances.of_usable hu
    have hd : Good d := husable d (hpath ▸ List.mem_append_right met List.mem_cons_self)
      ((usable_congr (hkeep d)).symm.trans hu)
    refine ⟨fun e => (attempt_contains s app path r.id hc name e).trans (hkeep e), ?_⟩
    intro e x hx
    rcases attempt_within path r.id hc (fun c p hs hp => hup c p hs ((hkeep p).symm.trans hp)) hd
      name e x hx with hx | hgood
    · exact hslots e x hx
    · exact Or.inr hgood

end Within

/-- Placing a request along a path puts slots only on devices of the path. -/
theorem placeRequest_within {path : List DeviceId}
    (hclosed : ∀ d ∈ path, ∀ e, s.layout.StepUp s.root d e → e ∈ path) (b : Batch) (r : Request)
    {e : DeviceId} {x : Slot}
    (hx : x ∈ ((s.placeRequest path b r).ledger.holding e).slots) :
    x ∈ (b.ledger.holding e).slots ∨ e ∈ path := by
  unfold PlacementSetting.placeRequest at hx
  split at hx
  · exact Or.inl hx
  · next app _ =>
    have hwalk : x ∈ ((s.walk app path r b.ledger b.failures).ledger.holding e).slots →
        x ∈ (b.ledger.holding e).slots ∨ e ∈ path :=
      walk_within r b.failures (fun c p hs _ hc => hclosed c hc p hs) (fun e he _ => he) e x
    simp only at hx
    split at hx
    · exact hwalk hx
    · exact hwalk (Ledger.mem_holding_rollback.mp hx).1

end PlacementSetting

end FogNet
