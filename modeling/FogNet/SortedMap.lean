/-!
# Maps listed in the order of their keys

Every table of the simulator that is ever listed (machines, sensors, applications, free resources,
statistics) is listed by ascending key, so the tables are association lists that stay strictly
sorted. The proof of sortedness is a field, which makes keys unique in every map.

## Main statements

* `get?_insert` — what a map answers after an insertion
* `get?_modify`, `get?_erase` — the same for the other two changes
* `get?_ofList` — what the map of a list answers
* `mem_entries_iff` — the entries of a map are exactly its answers
* `ext_get?` — two maps with the same answers are the same map
-/

namespace FogNet

variable {κ ν : Type}

/-- A finite map whose entries are strictly ascending by key. -/
structure SortedMap (κ ν : Type) [Ord κ] where
  entries : List (κ × ν)
  sorted : entries.Pairwise (fun a b => compare a.1 b.1 = .lt)

namespace SortedMap

/-! ## Operations on entry lists -/

theorem compare_self_ne_lt [Ord κ] [Std.ReflOrd κ] (k : κ) : compare k k ≠ .lt := by
  rw [show compare k k = .eq from Std.ReflCmp.compare_self]; decide

theorem compare_self_ne_gt [Ord κ] [Std.ReflOrd κ] (k : κ) : compare k k ≠ .gt := by
  rw [show compare k k = .eq from Std.ReflCmp.compare_self]; decide

/-- The value at the first entry with key `k`. -/
def lookup [DecidableEq κ] (k : κ) : List (κ × ν) → Option ν
  | [] => none
  | e :: rest => if e.1 = k then some e.2 else lookup k rest

/-- Puts an entry at its place by key; an entry with the same key is replaced. -/
def insertEntry [Ord κ] (k : κ) (v : ν) : List (κ × ν) → List (κ × ν)
  | [] => [(k, v)]
  | e :: rest =>
    match compare k e.1 with
    | .lt => (k, v) :: e :: rest
    | .eq => (k, v) :: rest
    | .gt => e :: insertEntry k v rest

theorem mem_insertEntry [Ord κ] {k : κ} {v : ν} {a : κ × ν} :
    ∀ {l : List (κ × ν)}, a ∈ insertEntry k v l → a = (k, v) ∨ a ∈ l
  | [], h => by simpa [insertEntry] using h
  | e :: rest, h => by
    unfold insertEntry at h
    split at h
    · simpa using h
    · rcases List.mem_cons.mp h with h | h
      · exact Or.inl h
      · exact Or.inr (List.mem_cons_of_mem _ h)
    · rcases List.mem_cons.mp h with h | h
      · exact Or.inr (h ▸ List.mem_cons_self)
      · exact (mem_insertEntry h).imp id (List.mem_cons_of_mem _)

theorem insertEntry_sorted [Ord κ] [Std.TransOrd κ] [Std.LawfulEqOrd κ] (k : κ) (v : ν) :
    ∀ {l : List (κ × ν)}, l.Pairwise (fun a b => compare a.1 b.1 = .lt) →
      (insertEntry k v l).Pairwise (fun a b => compare a.1 b.1 = .lt)
  | [], _ => by simp [insertEntry]
  | e :: rest, h => by
    have hhead : ∀ a ∈ rest, compare e.1 a.1 = .lt := fun _ => List.rel_of_pairwise_cons h
    have htail := List.Pairwise.of_cons h
    unfold insertEntry
    split
    · next hk =>
      refine List.Pairwise.cons (fun a ha => ?_) h
      rcases List.mem_cons.mp ha with ha | ha
      · exact ha ▸ hk
      · exact Std.TransCmp.lt_trans hk (hhead a ha)
    · next hk =>
      have hke : k = e.1 := Std.LawfulEqOrd.eq_of_compare hk
      subst hke
      exact List.Pairwise.cons hhead htail
    · next hk =>
      have hek : compare e.1 k = .lt := Std.OrientedCmp.lt_of_gt hk
      refine List.Pairwise.cons (fun a ha => ?_) (insertEntry_sorted k v htail)
      rcases mem_insertEntry ha with ha | ha
      · exact ha ▸ hek
      · exact hhead a ha

theorem lookup_insertEntry_self [Ord κ] [Std.LawfulEqOrd κ] [DecidableEq κ] (k : κ) (v : ν) :
    ∀ l : List (κ × ν), (∀ e ∈ l, compare k e.1 = .gt → e.1 ≠ k) →
      lookup k (insertEntry k v l) = some v
  | [], _ => by simp [insertEntry, lookup]
  | e :: rest, h => by
    unfold insertEntry
    split
    · simp [lookup]
    · simp [lookup]
    · next hk =>
      have hne : e.1 ≠ k := h e List.mem_cons_self hk
      simp only [lookup, hne, if_false]
      exact lookup_insertEntry_self k v rest fun e' he' => h e' (List.mem_cons_of_mem _ he')

theorem lookup_insertEntry_ne [Ord κ] [Std.LawfulEqOrd κ] [DecidableEq κ] {k k' : κ} (v : ν)
    (hne : k' ≠ k) : ∀ l : List (κ × ν), lookup k' (insertEntry k v l) = lookup k' l
  | [] => by simp [insertEntry, lookup, Ne.symm hne]
  | e :: rest => by
    unfold insertEntry
    split
    · simp [lookup, Ne.symm hne]
    · next hk =>
      have hke : k = e.1 := Std.LawfulEqOrd.eq_of_compare hk
      simp [lookup, ← hke, Ne.symm hne]
    · simp only [lookup, lookup_insertEntry_ne v hne rest]

/-! ## Maps -/

variable [Ord κ]

/-- The map without entries. -/
def empty : SortedMap κ ν := ⟨[], List.Pairwise.nil⟩

instance : Inhabited (SortedMap κ ν) := ⟨empty⟩

/-- The keys, ascending. -/
def keys (m : SortedMap κ ν) : List κ := m.entries.map Prod.fst

/-- The values, by ascending key. -/
def values (m : SortedMap κ ν) : List ν := m.entries.map Prod.snd

def isEmpty (m : SortedMap κ ν) : Bool := m.entries.isEmpty

/-- The value at a key. -/
def get? [DecidableEq κ] (m : SortedMap κ ν) (k : κ) : Option ν := lookup k m.entries

def contains [DecidableEq κ] (m : SortedMap κ ν) (k : κ) : Bool := (m.get? k).isSome

/-- Sets the value at a key. -/
def insert [Std.TransOrd κ] [Std.LawfulEqOrd κ] (m : SortedMap κ ν) (k : κ) (v : ν) :
    SortedMap κ ν :=
  ⟨insertEntry k v m.entries, insertEntry_sorted k v m.sorted⟩

/-- Changes every value, knowing its key; the keys stay. -/
def mapValues {ω : Type} (f : κ → ν → ω) (m : SortedMap κ ν) : SortedMap κ ω :=
  ⟨m.entries.map fun e => (e.1, f e.1 e.2), by
    rw [List.pairwise_map]
    exact m.sorted⟩

/-- Changes the value at a key, if there is one. -/
def modify [DecidableEq κ] (m : SortedMap κ ν) (k : κ) (f : ν → ν) : SortedMap κ ν :=
  m.mapValues fun k' v => if k' = k then f v else v

/-- Removes a key. -/
def erase [DecidableEq κ] (m : SortedMap κ ν) (k : κ) : SortedMap κ ν :=
  ⟨m.entries.filter fun e => !decide (e.1 = k), m.sorted.filter _⟩

/-- Sets the value at a key from the value that stood there, or from `d`. -/
def upsert [Std.TransOrd κ] [Std.LawfulEqOrd κ] [DecidableEq κ] (m : SortedMap κ ν) (k : κ) (d : ν)
    (f : ν → ν) : SortedMap κ ν :=
  m.insert k (f ((m.get? k).getD d))

/-- The entry with the least key. -/
def first? (m : SortedMap κ ν) : Option (κ × ν) := m.entries.head?

/-- The map without its first entry. -/
def dropFirst (m : SortedMap κ ν) : SortedMap κ ν := ⟨m.entries.tail, m.sorted.tail⟩

def size (m : SortedMap κ ν) : Nat := m.entries.length

/-- The map of a list of entries; of two entries with one key the later stands. -/
def ofList [Std.TransOrd κ] [Std.LawfulEqOrd κ] (l : List (κ × ν)) : SortedMap κ ν :=
  l.foldl (fun m e => m.insert e.1 e.2) empty

/-! ## What a map answers -/

section Answers

variable [DecidableEq κ]

@[simp] theorem get?_empty (k : κ) : (empty : SortedMap κ ν).get? k = none := rfl

theorem contains_eq (m : SortedMap κ ν) (k : κ) : m.contains k = (m.get? k).isSome := rfl

section Laws

variable [Std.TransOrd κ] [Std.LawfulEqOrd κ]

@[simp] theorem get?_insert_self (m : SortedMap κ ν) (k : κ) (v : ν) :
    (m.insert k v).get? k = some v :=
  lookup_insertEntry_self k v m.entries fun _ _ hgt he =>
    compare_self_ne_gt k (he ▸ hgt)

theorem get?_insert_ne (m : SortedMap κ ν) {k k' : κ} (v : ν) (h : k' ≠ k) :
    (m.insert k v).get? k' = m.get? k' :=
  lookup_insertEntry_ne v h m.entries

theorem get?_insert (m : SortedMap κ ν) (k k' : κ) (v : ν) :
    (m.insert k v).get? k' = if k' = k then some v else m.get? k' := by
  by_cases h : k' = k
  · subst h; simp
  · rw [get?_insert_ne m v h, if_neg h]

theorem get?_foldl_insert {k : κ} {v : ν} : ∀ (l : List (κ × ν)) (m : SortedMap κ ν),
    (∀ e ∈ l, e.1 = k → e.2 = v) → (l.foldl (fun m e => m.insert e.1 e.2) m).get? k
      = if k ∈ l.map Prod.fst then some v else m.get? k
  | [], m, _ => by simp
  | e :: l, m, h => by
    rw [List.foldl_cons, get?_foldl_insert l _ fun e' he' => h e' (List.mem_cons_of_mem _ he'),
      get?_insert]
    by_cases hk : k = e.1
    · rw [if_pos hk, h e List.mem_cons_self hk.symm]
      simp [hk]
    · have hmem : k ∈ (e :: l).map Prod.fst ↔ k ∈ l.map Prod.fst := by
        rw [List.map_cons, List.mem_cons, or_iff_right hk]
      simp only [hmem, if_neg hk]

/-- The value of a key in the map of a list in which the key has one value. -/
theorem get?_ofList {l : List (κ × ν)} {k : κ} {v : ν} (h : ∀ e ∈ l, e.1 = k → e.2 = v) :
    (ofList l).get? k = if k ∈ l.map Prod.fst then some v else none := by
  rw [ofList, get?_foldl_insert l _ h, get?_empty]

theorem mem_of_get?_foldl_insert {k : κ} {v : ν} : ∀ {l : List (κ × ν)} {m : SortedMap κ ν},
    (l.foldl (fun m e => m.insert e.1 e.2) m).get? k = some v → (k, v) ∈ l ∨ m.get? k = some v
  | [], _, h => Or.inr h
  | e :: l, m, h => by
    rw [List.foldl_cons] at h
    rcases mem_of_get?_foldl_insert h with h | h
    · exact Or.inl (List.mem_cons_of_mem _ h)
    · rw [get?_insert] at h
      split at h
      · next hk =>
        rw [← Option.some.inj h, hk]
        exact Or.inl List.mem_cons_self
      · exact Or.inr h

/-- The map of a list has only entries of the list. -/
theorem mem_of_get?_ofList {l : List (κ × ν)} {k : κ} {v : ν} (h : (ofList l).get? k = some v) :
    (k, v) ∈ l := by
  rcases mem_of_get?_foldl_insert h with h | h
  · exact h
  · simp at h

end Laws

omit [Ord κ] in
theorem lookup_map_values {ω : Type} (f : κ → ν → ω) (k : κ) :
    ∀ l : List (κ × ν), lookup k (l.map fun e => (e.1, f e.1 e.2)) = (lookup k l).map (f k)
  | [] => rfl
  | e :: rest => by
    by_cases h : e.1 = k
    · subst h; simp [lookup]
    · simp [lookup, h, lookup_map_values f k rest]

theorem get?_mapValues {ω : Type} (f : κ → ν → ω) (m : SortedMap κ ν) (k : κ) :
    (m.mapValues f).get? k = (m.get? k).map (f k) :=
  lookup_map_values f k m.entries

theorem get?_modify (m : SortedMap κ ν) (k k' : κ) (f : ν → ν) :
    (m.modify k f).get? k' = if k' = k then (m.get? k').map f else m.get? k' := by
  unfold modify
  rw [get?_mapValues]
  by_cases h : k' = k <;> cases m.get? k' <;> simp [h]

omit [DecidableEq κ] in
@[simp] theorem keys_mapValues {ω : Type} (f : κ → ν → ω) (m : SortedMap κ ν) :
    (m.mapValues f).keys = m.keys := by
  simp [keys, mapValues, List.map_map, Function.comp_def]

@[simp] theorem keys_modify (m : SortedMap κ ν) (k : κ) (f : ν → ν) :
    (m.modify k f).keys = m.keys := keys_mapValues _ _

omit [Ord κ] in
theorem lookup_filter_ne (k k' : κ) :
    ∀ l : List (κ × ν), lookup k' (l.filter fun e => !decide (e.1 = k))
      = if k' = k then none else lookup k' l
  | [] => by simp [lookup]
  | e :: rest => by
    by_cases h : e.1 = k
    · rw [List.filter_cons_of_neg (by simp [h]), lookup_filter_ne k k' rest]
      by_cases hk : k' = k
      · simp [hk]
      · have : e.1 ≠ k' := fun he => hk (he.symm.trans h)
        simp [hk, lookup, this]
    · rw [List.filter_cons_of_pos (by simp [h])]
      by_cases hk : k' = k
      · subst hk
        simp only [lookup, h, if_false, if_true]
        rw [lookup_filter_ne k' k' rest, if_pos rfl]
      · simp only [lookup, hk, if_false]
        rw [lookup_filter_ne k k' rest, if_neg hk]

theorem get?_erase (m : SortedMap κ ν) (k k' : κ) :
    (m.erase k).get? k' = if k' = k then none else m.get? k' :=
  lookup_filter_ne k k' m.entries

omit [Ord κ] in
theorem mem_of_lookup {k : κ} {v : ν} :
    ∀ {l : List (κ × ν)}, lookup k l = some v → (k, v) ∈ l
  | e :: rest, h => by
    by_cases he : e.1 = k
    · simp only [lookup, he, if_true, Option.some.injEq] at h
      subst he; subst h; exact List.mem_cons_self
    · simp only [lookup, he, if_false] at h
      exact List.mem_cons_of_mem _ (mem_of_lookup h)

theorem lookup_of_mem [Std.ReflOrd κ] {k : κ} {v : ν} :
    ∀ {l : List (κ × ν)}, l.Pairwise (fun a b => compare a.1 b.1 = .lt) → (k, v) ∈ l →
      lookup k l = some v
  | e :: rest, hs, h => by
    rcases List.mem_cons.mp h with h | h
    · subst h; simp [lookup]
    · have hlt : compare e.1 k = .lt := List.rel_of_pairwise_cons hs h
      have hne : e.1 ≠ k := fun he => compare_self_ne_lt k (he ▸ hlt)
      simp only [lookup, hne, if_false]
      exact lookup_of_mem (List.Pairwise.of_cons hs) h

/-- The entries of a map are exactly its answers. -/
theorem mem_entries_iff [Std.ReflOrd κ] (m : SortedMap κ ν) (k : κ) (v : ν) :
    (k, v) ∈ m.entries ↔ m.get? k = some v :=
  ⟨lookup_of_mem m.sorted, mem_of_lookup⟩

theorem mem_keys_iff [Std.ReflOrd κ] (m : SortedMap κ ν) (k : κ) :
    k ∈ m.keys ↔ m.contains k = true := by
  rw [contains_eq, Option.isSome_iff_exists]
  constructor
  · intro h
    obtain ⟨e, he, rfl⟩ := List.mem_map.mp h
    exact ⟨e.2, (m.mem_entries_iff e.1 e.2).mp he⟩
  · rintro ⟨v, hv⟩
    exact List.mem_map.mpr ⟨(k, v), (m.mem_entries_iff k v).mpr hv, rfl⟩

end Answers

theorem keys_sorted (m : SortedMap κ ν) : m.keys.Pairwise (fun a b => compare a b = .lt) := by
  rw [keys, List.pairwise_map]
  exact m.sorted

theorem keys_nodup [Std.ReflOrd κ] (m : SortedMap κ ν) : m.keys.Nodup :=
  List.Pairwise.imp
    (fun {a b} hab (heq : a = b) => compare_self_ne_lt a (by rw [← heq] at hab; exact hab))
    m.keys_sorted

/-- Two maps with the same answers are the same map. -/
theorem ext_get? [Std.TransOrd κ] [DecidableEq κ] {m m' : SortedMap κ ν}
    (h : ∀ k, m.get? k = m'.get? k) : m = m' := by
  have key : ∀ {l l' : List (κ × ν)}, l.Pairwise (fun a b => compare a.1 b.1 = .lt) →
      l'.Pairwise (fun a b => compare a.1 b.1 = .lt) →
      (∀ e, e ∈ l ↔ e ∈ l') → l = l' := by
    intro l
    induction l with
    | nil =>
      intro l' _ _ hm
      cases l' with
      | nil => rfl
      | cons e rest => exact absurd ((hm e).mpr List.mem_cons_self) (by simp)
    | cons a l ih =>
      intro l' hs hs' hm
      cases l' with
      | nil => exact absurd ((hm a).mp List.mem_cons_self) (by simp)
      | cons b l' =>
        have hab : a = b := by
          rcases List.mem_cons.mp ((hm a).mp List.mem_cons_self) with ha | ha
          · exact ha
          · rcases List.mem_cons.mp ((hm b).mpr List.mem_cons_self) with hb | hb
            · exact hb.symm
            · exact absurd (Std.TransCmp.lt_trans (List.rel_of_pairwise_cons hs hb)
                (List.rel_of_pairwise_cons hs' ha)) (compare_self_ne_lt _)
        subst hab
        congr 1
        refine ih (List.Pairwise.of_cons hs) (List.Pairwise.of_cons hs') fun e => ?_
        constructor
        · intro he
          rcases List.mem_cons.mp ((hm e).mp (List.mem_cons_of_mem _ he)) with h1 | h1
          · exact absurd (h1 ▸ List.rel_of_pairwise_cons hs he) (compare_self_ne_lt _)
          · exact h1
        · intro he
          rcases List.mem_cons.mp ((hm e).mpr (List.mem_cons_of_mem _ he)) with h1 | h1
          · exact absurd (h1 ▸ List.rel_of_pairwise_cons hs' he) (compare_self_ne_lt _)
          · exact h1
  obtain ⟨l, hs⟩ := m
  obtain ⟨l', hs'⟩ := m'
  have : l = l' := key hs hs' fun e => by
    rw [show (e ∈ l ↔ _) from mem_entries_iff ⟨l, hs⟩ e.1 e.2,
      show (e ∈ l' ↔ _) from mem_entries_iff ⟨l', hs'⟩ e.1 e.2, h e.1]
  subst this
  rfl

end SortedMap

end FogNet
