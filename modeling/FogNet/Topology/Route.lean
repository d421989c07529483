import FogNet.Duration
import FogNet.Sum

/-!
# Routes of least latency

Routes between places that are numbered from zero, where some ordered pairs of places are joined by
a link with a latency. A table of routes is relaxed sweep by sweep: an unknown route is filled, a
known one of positive distance is shortened, by going through one other place, and the first of the
places with the least total is taken. Sweeping ends when a sweep changes nothing.

## Termination

A sweep that changes the table lowers it in the order `RouteTable.Below`: fewer routes are unknown,
or as many are and the distances add up to less. No count of sweeps is given in advance.

## Main statements

* `get_set` — what a table answers after one of its entries is set
* `sweep_below` — a sweep that reports a change lowers the table
* `sweep_unchanged` — a sweep that reports no change leaves the table alone
-/

namespace FogNet

/-! ## Tables -/

/-- How to get from one place to another: the total latency, and the place to go to first. -/
structure Route (n : Nat) where
  distance : Duration
  hop : Fin n
  deriving DecidableEq, Repr

/-- The known routes among `n` places, by starting place and destination. -/
structure RouteTable (n : Nat) where
  cells : Vector (Vector (Option (Route n)) n) n

namespace RouteTable

variable {n : Nat}

def empty (n : Nat) : RouteTable n := ⟨Vector.replicate n (Vector.replicate n none)⟩

def get (t : RouteTable n) (row column : Fin n) : Option (Route n) := t.cells[row][column]

def set (t : RouteTable n) (row column : Fin n) (r : Route n) : RouteTable n :=
  ⟨t.cells.set row (t.cells[row].set column (some r))⟩

theorem get_set (t : RouteTable n) (row column i j : Fin n) (r : Route n) :
    (t.set row column r).get i j = if i = row ∧ j = column then some r else t.get i j := by
  obtain ⟨row, hr⟩ := row
  obtain ⟨column, hc⟩ := column
  obtain ⟨i, hi⟩ := i
  obtain ⟨j, hj⟩ := j
  simp only [get, set, Fin.getElem_fin, Vector.getElem_set, Fin.mk.injEq]
  by_cases h : row = i
  · subst h
    by_cases h' : column = j
    · subst h'; simp
    · simp [h', Ne.symm h']
  · simp [h, Ne.symm h]

/-- The totals of the known ways through one place, with the first hop of each, by that place. -/
def ways (t : RouteTable n) (row column : Fin n) : List (Route n) :=
  (List.finRange n).filterMap fun middle =>
    match t.get row middle, t.get middle column with
    | some first, some second => some ⟨first.distance + second.distance, first.hop⟩
    | _, _ => none

/-- The first of the least candidates, if it is strictly below what is known. -/
def cheaper : Option Duration → List (Route n) → Option (Route n)
  | _, [] => none
  | known, c :: rest =>
    if known.all fun d => c.distance < d then some ((cheaper (some c.distance) rest).getD c)
    else cheaper known rest

theorem cheaper_distance_lt : ∀ {known : Option Duration} {candidates : List (Route n)}
    {r : Route n}, cheaper known candidates = some r → ∀ d ∈ known, r.distance < d
  | _, [], _, h => by simp [cheaper] at h
  | known, c :: rest, r, h => by
    intro d hd
    unfold cheaper at h
    split at h
    · next hall =>
      have hcd : c.distance < d := by
        rw [Option.mem_def.mp hd] at hall
        simpa using hall
      simp only [Option.some.injEq] at h
      cases hch : cheaper (some c.distance) rest with
      | none => rw [hch] at h; simp at h; exact h ▸ hcd
      | some r' =>
        rw [hch] at h
        simp at h
        subst h
        exact Nat.lt_trans (cheaper_distance_lt hch c.distance rfl) hcd
    · exact cheaper_distance_lt h d hd

/-! ## The order that relaxation descends -/

/-- The sum of a weight over all entries. -/
def sumCells (weight : Option (Route n) → Nat) (t : RouteTable n) : Nat :=
  sumOf ((List.finRange n).map fun i =>
    sumOf ((List.finRange n).map fun j => weight (t.get i j)))

/-- How many routes are unknown. -/
def unknown (t : RouteTable n) : Nat := t.sumCells fun r => if r.isNone then 1 else 0

/-- The sum of the known distances. -/
def total (t : RouteTable n) : Nat := t.sumCells fun r => (r.map Route.distance).getD 0

/-- Fewer unknown routes, or as many and a smaller sum of distances. -/
def Below (t t' : RouteTable n) : Prop :=
  t.unknown < t'.unknown ∨ (t.unknown = t'.unknown ∧ t.total < t'.total)

theorem Below.trans {a b c : RouteTable n} (h : a.Below b) (h' : b.Below c) : a.Below c := by
  unfold Below at *
  omega

theorem sumCells_set_le {weight : Option (Route n) → Nat} (t : RouteTable n) (row column : Fin n)
    (r : Route n) (h : weight (some r) ≤ weight (t.get row column)) :
    (t.set row column r).sumCells weight ≤ t.sumCells weight := by
  refine sumOf_map_le fun i _ => sumOf_map_le fun j _ => ?_
  rw [get_set]
  split
  · next hij => obtain ⟨rfl, rfl⟩ := hij; exact h
  · exact Nat.le_refl _

theorem sumCells_set_lt {weight : Option (Route n) → Nat} (t : RouteTable n) (row column : Fin n)
    (r : Route n) (h : weight (some r) < weight (t.get row column)) :
    (t.set row column r).sumCells weight < t.sumCells weight := by
  have cell : ∀ i j, weight ((t.set row column r).get i j) ≤ weight (t.get i j) := by
    intro i j
    rw [get_set]
    split
    · next hij => obtain ⟨rfl, rfl⟩ := hij; exact Nat.le_of_lt h
    · exact Nat.le_refl _
  refine sumOf_map_lt (fun i _ => sumOf_map_le fun j _ => cell i j) ⟨row, List.mem_finRange row, ?_⟩
  refine sumOf_map_lt (fun j _ => cell row j) ⟨column, List.mem_finRange column, ?_⟩
  rw [get_set, if_pos ⟨rfl, rfl⟩]
  exact h

theorem sumCells_set_ge {weight : Option (Route n) → Nat} (t : RouteTable n) (row column : Fin n)
    (r : Route n) (h : weight (t.get row column) ≤ weight (some r)) :
    t.sumCells weight ≤ (t.set row column r).sumCells weight := by
  refine sumOf_map_le fun i _ => sumOf_map_le fun j _ => ?_
  rw [get_set]
  split
  · next hij => obtain ⟨rfl, rfl⟩ := hij; exact h
  · exact Nat.le_refl _

/-- Setting an entry that was unknown, or farther, lowers the table. -/
theorem set_below (t : RouteTable n) (row column : Fin n) (r : Route n)
    (h : ∀ d ∈ (t.get row column).map Route.distance, r.distance < d) :
    (t.set row column r).Below t := by
  cases hc : t.get row column with
  | none => exact Or.inl (sumCells_set_lt t row column r (by simp [hc]))
  | some old =>
    refine Or.inr ⟨Nat.le_antisymm ?_ ?_, sumCells_set_lt t row column r ?_⟩
    · exact sumCells_set_le t row column r (by simp [hc])
    · exact sumCells_set_ge t row column r (by simp [hc])
    · rw [hc] at h
      simpa [hc] using h old.distance (by simp)

end RouteTable

/-! ## Relaxation -/

/-- A table under relaxation. -/
structure Relaxation (n : Nat) where
  table : RouteTable n
  /-- Whether the current sweep has changed the table. -/
  changed : Bool := false
  /-- The largest sum of two distances that was formed so far. -/
  peak : Duration := 0

namespace Relaxation

variable {n : Nat}

/-- Takes the best way through one place, if it is better than what is known. -/
def improve (s : Relaxation n) (row column : Fin n) : Relaxation n :=
  let ways := s.table.ways row column
  let peak := ways.foldl (fun p r => max p r.distance) s.peak
  match RouteTable.cheaper ((s.table.get row column).map Route.distance) ways with
  | none => { s with peak }
  | some r => { table := s.table.set row column r, changed := true, peak }

/-- Fills an unknown entry, then shortens a known one of positive distance. -/
def relax (s : Relaxation n) (row column : Fin n) : Relaxation n :=
  let s := if (s.table.get row column).isNone then s.improve row column else s
  -- A route that was just filled in is tried once more.
  match s.table.get row column with
  | none => s
  | some r => if r.distance = 0 then s else s.improve row column

/-- All ordered pairs of places, row by row. -/
def pairs (n : Nat) : List (Fin n × Fin n) :=
  (List.finRange n).flatMap fun row => (List.finRange n).map fun column => (row, column)

/-- Relaxes every entry once, row by row. -/
def sweep (s : Relaxation n) : Relaxation n :=
  (pairs n).foldl (fun s p => s.relax p.1 p.2) { s with changed := false }

/-- Either nothing was reported and the table is the same, or a change was and it is lower. -/
def Follows (s' s : Relaxation n) : Prop :=
  (s'.changed = s.changed ∧ s'.table = s.table) ∨ (s'.changed = true ∧ s'.table.Below s.table)

theorem Follows.refl (s : Relaxation n) : s.Follows s := Or.inl ⟨rfl, rfl⟩

theorem Follows.trans {a b c : Relaxation n} (h : a.Follows b) (h' : b.Follows c) :
    a.Follows c := by
  rcases h with ⟨hc, ht⟩ | ⟨hc, ht⟩
  · rcases h' with ⟨hc', ht'⟩ | ⟨hc', ht'⟩
    · exact Or.inl ⟨hc.trans hc', ht.trans ht'⟩
    · exact Or.inr ⟨hc.trans hc', ht ▸ ht'⟩
  · rcases h' with ⟨hc', ht'⟩ | ⟨hc', ht'⟩
    · exact Or.inr ⟨hc, ht' ▸ ht⟩
    · exact Or.inr ⟨hc, ht.trans ht'⟩

theorem improve_follows (s : Relaxation n) (row column : Fin n) :
    (s.improve row column).Follows s := by
  unfold improve
  simp only
  split
  · exact Or.inl ⟨rfl, rfl⟩
  · next r hr =>
    exact Or.inr ⟨rfl, s.table.set_below row column r (RouteTable.cheaper_distance_lt hr)⟩

theorem relax_follows (s : Relaxation n) (row column : Fin n) :
    (s.relax row column).Follows s := by
  unfold relax
  have first : (if (s.table.get row column).isNone then s.improve row column else s).Follows s := by
    split
    · exact improve_follows s row column
    · exact Follows.refl s
  simp only
  split
  · exact first
  · split
    · exact first
    · exact (improve_follows _ row column).trans first

theorem foldl_relax_follows : ∀ (l : List (Fin n × Fin n)) (s : Relaxation n),
    (l.foldl (fun s p => s.relax p.1 p.2) s).Follows s
  | [], s => Follows.refl s
  | p :: l, s => (foldl_relax_follows l _).trans (relax_follows s p.1 p.2)

/-- A sweep that reports a change lowers the table. -/
theorem sweep_below {s : Relaxation n} (h : s.sweep.changed = true) :
    s.sweep.table.Below s.table := by
  rcases foldl_relax_follows (pairs n) { s with changed := false } with ⟨hc, _⟩ | ⟨_, ht⟩
  · rw [sweep, hc] at h
    exact absurd h (by simp)
  · exact ht

/-- A sweep that reports no change leaves the table alone. -/
theorem sweep_unchanged {s : Relaxation n} (h : s.sweep.changed = false) :
    s.sweep.table = s.table := by
  rcases foldl_relax_follows (pairs n) { s with changed := false } with ⟨_, ht⟩ | ⟨hc, _⟩
  · exact ht
  · rw [sweep, hc] at h
    exact absurd h (by simp)

/-- Sweeps until a sweep changes nothing. -/
def settle (s : Relaxation n) : Relaxation n :=
  let next := s.sweep
  if _h : next.changed = true then settle next else next
termination_by (s.table.unknown, s.table.total)
decreasing_by
  rcases sweep_below _h with hlt | ⟨heq, hlt⟩
  · exact Prod.Lex.left _ _ hlt
  · rw [heq]; exact Prod.Lex.right _ hlt

/-! ## The first sweep -/

/-- Enters a direct link in both directions, and every place as its own neighbour at no distance. -/
def enterLink (link : Fin n → Fin n → Option Duration) (s : Relaxation n) (row column : Fin n) :
    Relaxation n :=
  match s.table.get row column with
  | some _ => s
  | none =>
    match if row = column then some 0 else link row column with
    | none => s
    | some d =>
      -- The link back is entered as well, with the latency of this direction.
      { s with
        table := (s.table.set row column ⟨d, column⟩).set column row ⟨d, row⟩
        changed := true }

/-- Enters the direct links, relaxing every entry as soon as its link is entered. -/
def firstSweep (link : Fin n → Fin n → Option Duration) : Relaxation n :=
  (pairs n).foldl (fun s p => (enterLink link s p.1 p.2).relax p.1 p.2) { table := .empty n }

/-- The routes for given direct links, with the largest sum that was formed on the way. -/
def routes (link : Fin n → Fin n → Option Duration) : Relaxation n := (firstSweep link).settle

end Relaxation

end FogNet
