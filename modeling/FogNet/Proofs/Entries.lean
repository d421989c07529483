import FogNet.Identifier
import FogNet.SortedMap
import FogNet.Sum
import Mathlib.Data.List.Nodup

/-!
# Entries of maps

What the entries of a map are after a change, up to their order, and what becomes of a sum over
them. A table is a map of maps, so that its cells are found by an application and a name.

## Main statements

* `entries_insert_new`, `entries_insert_some` — the entries after an insertion
* `sumOf_upsert` — a sum over the entries changes by the entry that changes
* `Table.cell?_change`, `Table.total_change` — what a change of one cell does to a table
-/

namespace FogNet

namespace SortedMap

variable {κ ν α : Type} [Ord κ] [Std.TransOrd κ] [Std.LawfulEqOrd κ] [DecidableEq κ]
  {m : SortedMap κ ν} {k : κ}

omit [Std.TransOrd κ] [Std.LawfulEqOrd κ] [DecidableEq κ] in
theorem entries_nodup [Std.ReflOrd κ] (m : SortedMap κ ν) : m.entries.Nodup :=
  List.Nodup.of_map Prod.fst m.keys_nodup

theorem entries_insert (m : SortedMap κ ν) (k : κ) (v : ν) :
    (m.insert k v).entries.Perm ((k, v) :: (m.erase k).entries) := by
  have hnew : (k, v) ∉ (m.erase k).entries := by
    rw [mem_entries_iff, get?_erase, if_pos rfl]
    simp
  -- Neither list has an entry twice, so it is enough that they have the same entries.
  refine (List.perm_ext_iff_of_nodup (entries_nodup _)
    (List.nodup_cons.mpr ⟨hnew, entries_nodup _⟩)).mpr fun ⟨k', v'⟩ => ?_
  rw [mem_entries_iff, get?_insert, List.mem_cons, mem_entries_iff, get?_erase]
  by_cases hk : k' = k
  · simp [hk, eq_comm]
  · simp [hk]

/-- A new entry comes to those that were. -/
theorem entries_insert_new (h : m.get? k = none) (v : ν) :
    (m.insert k v).entries.Perm ((k, v) :: m.entries) := by
  have herase : m.erase k = m := by
    refine ext_get? fun k' => ?_
    rw [get?_erase]
    split
    · next hk => rw [hk, h]
    · rfl
  have hinsert := m.entries_insert k v
  rwa [herase] at hinsert

/-- What is there already may be inserted again. -/
theorem insert_of_get? {v : ν} (h : m.get? k = some v) : m.insert k v = m := by
  refine ext_get? fun k' => ?_
  rw [get?_insert]
  split
  · next hk => rw [hk, h]
  · rfl

/-- An entry takes the place of the one that had its key. -/
theorem entries_insert_some {v : ν} (h : m.get? k = some v) (v' : ν) : ∃ rest,
    m.entries.Perm ((k, v) :: rest) ∧ (m.insert k v').entries.Perm ((k, v') :: rest) := by
  -- The entries that were there are those of an insertion that changes nothing.
  have hold := m.entries_insert k v
  rw [insert_of_get? h] at hold
  exact ⟨_, hold, m.entries_insert k v'⟩

/-- A sum over the entries of a map changes by the entry that changes. -/
theorem sumOf_upsert (m : SortedMap κ ν) (k : κ) (d : ν) (f : ν → ν) (g : κ × ν → Nat) :
    sumOf ((m.upsert k d f).entries.map g) + (m.get? k).elim 0 (fun v => g (k, v))
      = sumOf (m.entries.map g) + g (k, f ((m.get? k).getD d)) := by
  rw [upsert]
  cases hk : m.get? k with
  | none =>
    rw [sumOf_perm ((entries_insert_new hk _).map g), List.map_cons, sumOf_cons]
    simp only [Option.elim_none, Option.getD_none]
    omega
  | some v =>
    obtain ⟨rest, hold, hnew⟩ := entries_insert_some hk (f v)
    rw [Option.getD_some, sumOf_perm (hnew.map g), sumOf_perm (hold.map g), List.map_cons,
      sumOf_cons, List.map_cons, sumOf_cons]
    simp only [Option.elim_some]
    omega

theorem sumOf_upsert_succ (m : SortedMap κ ν) (k : κ) (d : ν) (f : ν → ν) (g : κ × ν → Nat)
    (h : g (k, f ((m.get? k).getD d)) = (m.get? k).elim 0 (fun v => g (k, v)) + 1) :
    sumOf ((m.upsert k d f).entries.map g) = sumOf (m.entries.map g) + 1 := by
  have hsum := m.sumOf_upsert k d f g
  omega

omit [Std.TransOrd κ] in
/-- No other entry has the key of one. -/
theorem filter_entries (m : SortedMap κ ν) (k : κ) :
    (m.entries.filter fun e => e.1 = k) = ((m.get? k).map fun v => (k, v)).toList := by
  have hmem : ∀ e, e ∈ (m.entries.filter fun e => e.1 = k)
      ↔ e ∈ ((m.get? k).map fun v => (k, v)).toList := by
    intro ⟨k', v⟩
    rw [List.mem_filter, mem_entries_iff, Option.mem_toList, Option.map_eq_some_iff,
      decide_eq_true_iff]
    constructor
    · rintro ⟨hv, rfl⟩
      exact ⟨v, hv, rfl⟩
    · rintro ⟨_, hv, he⟩
      obtain ⟨rfl, rfl⟩ := Prod.mk.inj he
      exact ⟨hv, rfl⟩
  have hperm := (List.perm_ext_iff_of_nodup (m.entries_nodup.filter _) (by
    cases (m.get? k).map fun v => (k, v) <;> simp)).mpr hmem
  cases h : (m.get? k).map fun v => (k, v) with
  | none => rw [h] at hperm; exact hperm.eq_nil
  | some e => rw [h] at hperm; exact hperm.eq_singleton

theorem contains_insert {k' : κ} {v : ν} (h : m.contains k' = true) :
    (m.insert k v).contains k' = true := by
  rw [contains_eq, get?_insert]
  split
  · rfl
  · exact h

/-- A key that is there already is there as before when its value changes. -/
theorem contains_insert_of_get? {v : ν} (h : m.get? k = some v) (v' : ν) (k' : κ) :
    (m.insert k v').contains k' = m.contains k' := by
  rw [contains_eq, get?_insert]
  split
  · next hk =>
    rw [hk, contains_eq, h]
    rfl
  · rfl

theorem get?_upsert (m : SortedMap κ ν) (k k' : κ) (d : ν) (f : ν → ν) :
    (m.upsert k d f).get? k' = if k' = k then some (f ((m.get? k).getD d)) else m.get? k' :=
  m.get?_insert k k' _

end SortedMap

/-! ## Tables -/

/-- A cell for each microservice, by application and name. -/
abbrev Table (ν : Type) := SortedMap AppId (SortedMap Name ν)

namespace Table

variable {ν : Type}

def cell? (t : Table ν) (l : AppId × Name) : Option ν :=
  (t.get? l.1).bind fun names => names.get? l.2

/-- Sets a cell from what it held, or from `d`. -/
def change (t : Table ν) (l : AppId × Name) (d : ν) (f : ν → ν) : Table ν :=
  t.upsert l.1 SortedMap.empty fun names => names.upsert l.2 d f

/-- The sum of what the cells count. -/
def total (g : ν → Nat) (t : Table ν) : Nat :=
  sumOf (t.entries.map fun e => sumOf (e.2.entries.map fun c => g c.2))

theorem cell?_change (t : Table ν) (l l' : AppId × Name) (d : ν) (f : ν → ν) :
    (t.change l d f).cell? l' = if l' = l then some (f ((t.cell? l).getD d)) else t.cell? l' := by
  obtain ⟨app, name⟩ := l
  obtain ⟨app', name'⟩ := l'
  simp only [cell?, change, SortedMap.get?_upsert, Prod.mk.injEq]
  by_cases happ : app' = app
  · subst happ
    by_cases hname : name' = name
    · subst hname
      cases t.get? app' <;> simp [SortedMap.get?_upsert]
    · cases t.get? app' <;> simp [SortedMap.get?_upsert, hname]
  · simp [happ]

/-- What one cell counts in addition is counted in all. -/
theorem total_change {g : ν → Nat} {d : ν} {f : ν → ν} (hd : g d = 0)
    (hf : ∀ v, g (f v) = g v + 1) (t : Table ν) (l : AppId × Name) :
    (t.change l d f).total g = t.total g + 1 := by
  have hrow : ∀ row : SortedMap Name ν, sumOf ((row.upsert l.2 d f).entries.map fun c => g c.2)
      = sumOf (row.entries.map fun c => g c.2) + 1 := by
    intro row
    refine SortedMap.sumOf_upsert_succ row _ _ _ _ ?_
    cases row.get? l.2 <;> simp [hf, hd]
  refine SortedMap.sumOf_upsert_succ t _ _ _ _ ?_
  rw [hrow]
  cases t.get? l.1 <;> rfl

end Table

end FogNet
