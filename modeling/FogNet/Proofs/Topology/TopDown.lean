import FogNet.Proofs.Folds
import FogNet.Proofs.Topology.Validity

/-!
# Layouts from the top down

A route is filled in with the best way that is known at that moment, which may be a detour made of
detours, so what relaxation adds up can outgrow the latencies of the shortest routes. How far
depends on the order of declaration. When every device but the first is declared after its parent,
an unknown entry that can be filled has a way that ends, or starts, with a single link to an
earlier place. So the distance between two places is never more than as many of the longest links
as their numbers add up to, and all sums stay in range unless the links are enormous.

## Main statements

* `Surveyed.turn` — what the first sweep keeps from entry to entry
* `Swept.turn` — what the later sweeps keep
* `peak_routes_le` — the largest sum that relaxation forms
* `Topology.build_topDown` — a layout from the top down with short links has a topology
-/

namespace FogNet

open Relation

variable {n : Nat} {link : Fin n → Fin n → Option Duration} {longest : Duration}

/--
Links that lead both ways, none longer than `longest`, one of them from every place but the first
to an earlier one.
-/
structure Anchored (link : Fin n → Fin n → Option Duration) (longest : Duration) : Prop where
  symm : ∀ i j, link i j = link j i
  short : ∀ {i j d}, link i j = some d → d ≤ longest
  anchor : ∀ i : Fin n, 0 < i.val → ∃ j < i, (link i j).isSome

namespace Anchored

theorem direct_le (ha : Anchored link longest) {i j : Fin n} {d : Duration}
    (hd : direct link i j = some d) : d ≤ longest := by
  unfold direct at hd
  split at hd
  · rw [← Option.some.inj hd]; exact Nat.zero_le _
  · exact ha.short hd

theorem exists_anchor (ha : Anchored link longest) {i : Fin n} (hi : 0 < i.val) :
    ∃ j < i, (direct link j i).isSome := by
  obtain ⟨j, hj, hlink⟩ := ha.anchor i hi
  refine ⟨j, hj, ?_⟩
  rw [direct_symm ha.symm, direct, if_neg (Fin.ne_of_gt hj)]
  exact hlink

end Anchored

namespace RouteTable

/-- The way that is taken is the least one. -/
theorem cheaper_le : ∀ {known : Option Duration} {candidates : List (Route n)} {r : Route n},
    cheaper known candidates = some r → ∀ c ∈ candidates, r.distance ≤ c.distance
  | _, [], _, h => by simp [cheaper] at h
  | known, c :: rest, r, h => by
    intro x hx
    unfold cheaper at h
    split at h
    · rw [Option.some.injEq] at h
      cases hc : cheaper (some c.distance) rest with
      | none =>
        rw [hc, Option.getD_none] at h
        rcases List.mem_cons.mp hx with rfl | hx
        · exact Nat.le_of_eq (congrArg Route.distance h.symm)
        · obtain ⟨d, hd, hle⟩ := cheaper_eq_none hc x hx
          rw [← h, Option.mem_some_iff.mp hd]
          exact hle
      | some r' =>
        rw [hc, Option.getD_some] at h
        subst h
        rcases List.mem_cons.mp hx with rfl | hx
        · exact Nat.le_of_lt (cheaper_distance_lt hc _ rfl)
        · exact cheaper_le hc x hx
    · next hall =>
      rcases List.mem_cons.mp hx with rfl | hx
      · cases known with
        | none => simp at hall
        | some d =>
          have hd : d ≤ x.distance := by simpa using hall
          exact Nat.le_trans (Nat.le_of_lt (cheaper_distance_lt h d rfl)) hd
      · exact cheaper_le h x hx

/-- Every known distance is at most as many of the longest links as the two numbers add up to. -/
def Near (longest : Duration) (t : RouteTable n) : Prop :=
  ∀ i j r, t.get i j = some r → r.distance ≤ longest * (i.val + j.val)

variable {t : RouteTable n}

/-- What is known between linked places takes no longer than the longest link. -/
theorem linked_le (ha : Anchored link longest) (hf : Faithful link t) {i j : Fin n} {r : Route n}
    (hlink : (direct link i j).isSome) (hr : t.get i j = some r) : r.distance ≤ longest := by
  obtain ⟨d, hd⟩ := Option.isSome_iff_exists.mp hlink
  exact Nat.le_trans (hf.bounded hr hd) (ha.direct_le hd)

theorem Near.set (h : t.Near longest) {row column : Fin n} {r : Route n}
    (hr : r.distance ≤ longest * (row.val + column.val)) : (t.set row column r).Near longest := by
  intro i j r' hr'
  rw [get_set] at hr'
  split at hr'
  · next hij =>
    obtain ⟨rfl, rfl⟩ := hij
    rw [← Option.some.inj hr']
    exact hr
  · exact h i j r' hr'

theorem Near.way_le (h : t.Near longest) {row column : Fin n} {w : Route n}
    (hw : w ∈ t.ways row column) : w.distance ≤ longest * (4 * n) := by
  obtain ⟨m, a, b, hfirst, hsecond, rfl⟩ := mem_ways.mp hw
  calc a.distance + b.distance
      ≤ longest * (row.val + m.val) + longest * (m.val + column.val) :=
        Nat.add_le_add (h _ _ _ hfirst) (h _ _ _ hsecond)
    _ = longest * (row.val + m.val + (m.val + column.val)) := (Nat.mul_add _ _ _).symm
    _ ≤ longest * (4 * n) := Nat.mul_le_mul_left _ (by omega)

/-- A way whose last step is a link from an earlier place. -/
theorem Near.exists_way_down (ha : Anchored link longest) (h : t.Near longest)
    (hf : Faithful link t) {row m column : Fin n} (hm : m < column)
    (hlink : (direct link m column).isSome) (hfirst : (t.get row m).isSome)
    (hsecond : (t.get m column).isSome) :
    ∃ w ∈ t.ways row column, w.distance ≤ longest * (row.val + column.val) := by
  obtain ⟨a, hfirst⟩ := Option.isSome_iff_exists.mp hfirst
  obtain ⟨b, hsecond⟩ := Option.isSome_iff_exists.mp hsecond
  refine ⟨_, mem_ways.mpr ⟨m, a, b, hfirst, hsecond, rfl⟩, ?_⟩
  have hb : b.distance ≤ longest := linked_le ha hf hlink hsecond
  calc a.distance + b.distance
      ≤ longest * (row.val + m.val) + longest := Nat.add_le_add (h _ _ _ hfirst) hb
    _ = longest * (row.val + m.val + 1) := (Nat.mul_succ _ _).symm
    _ ≤ longest * (row.val + column.val) := Nat.mul_le_mul_left _ (by omega)

/-- A way whose first step is a link to an earlier place. -/
theorem Near.exists_way_up (ha : Anchored link longest) (h : t.Near longest)
    (hf : Faithful link t) {row m column : Fin n} (hm : m < row)
    (hlink : (direct link row m).isSome) (hfirst : (t.get row m).isSome)
    (hsecond : (t.get m column).isSome) :
    ∃ w ∈ t.ways row column, w.distance ≤ longest * (row.val + column.val) := by
  obtain ⟨a, hfirst⟩ := Option.isSome_iff_exists.mp hfirst
  obtain ⟨b, hsecond⟩ := Option.isSome_iff_exists.mp hsecond
  refine ⟨_, mem_ways.mpr ⟨m, a, b, hfirst, hsecond, rfl⟩, ?_⟩
  have hle : a.distance ≤ longest := linked_le ha hf hlink hfirst
  calc a.distance + b.distance
      ≤ longest + longest * (m.val + column.val) := Nat.add_le_add hle (h _ _ _ hsecond)
    _ = longest * (m.val + column.val + 1) := by rw [Nat.mul_succ, Nat.add_comm]
    _ ≤ longest * (row.val + column.val) := Nat.mul_le_mul_left _ (by omega)

end RouteTable

namespace Relaxation

open RouteTable

variable {s : Relaxation n} {row column : Fin n} {done rest : List (Fin n × Fin n)}
  {p q : Fin n × Fin n}

/-! ## One entry -/

/-- Known distances are near, and so is every sum that was formed. -/
structure Held (longest : Duration) (s : Relaxation n) : Prop where
  near : s.table.Near longest
  low : s.peak ≤ longest * (4 * n)

theorem foldl_max_le {bound : Duration} : ∀ {ways : List (Route n)} {peak : Duration},
    peak ≤ bound → (∀ w ∈ ways, w.distance ≤ bound) →
      ways.foldl (fun p r => max p r.distance) peak ≤ bound
  | [], _, hpeak, _ => hpeak
  | w :: ways, peak, hpeak, hways => by
    obtain ⟨hw, hways⟩ := List.forall_mem_cons.mp hways
    rw [List.foldl_cons]
    exact foldl_max_le (Nat.max_le.mpr ⟨hpeak, hw⟩) hways

/-- An entry can be improved, if one that is unknown has a near way whenever it has any. -/
theorem Held.improve (h : s.Held longest)
    (hway : s.table.get row column = none → s.table.ways row column ≠ [] →
      ∃ w ∈ s.table.ways row column, w.distance ≤ longest * (row.val + column.val)) :
    (s.improve row column).Held longest := by
  have hlow : (s.table.ways row column).foldl (fun p r => max p r.distance) s.peak ≤ _ :=
    foldl_max_le h.low fun w hw => h.near.way_le hw
  unfold Relaxation.improve
  simp only
  split
  · exact ⟨h.near, hlow⟩
  · next r hr =>
    refine ⟨h.near.set ?_, hlow⟩
    cases hold : s.table.get row column with
    | none =>
      have hne : s.table.ways row column ≠ [] := List.ne_nil_of_mem (cheaper_mem hr)
      obtain ⟨w, hw, hle⟩ := hway hold hne
      exact Nat.le_trans (cheaper_le hr w hw) hle
    | some old =>
      have hlt := cheaper_distance_lt hr old.distance (by rw [hold]; rfl)
      exact Nat.le_trans (Nat.le_of_lt hlt) (h.near _ _ _ hold)

theorem Held.relax (h : s.Held longest)
    (hway : s.table.get row column = none → s.table.ways row column ≠ [] →
      ∃ w ∈ s.table.ways row column, w.distance ≤ longest * (row.val + column.val)) :
    (s.relax row column).Held longest := by
  have hfirst : (if (s.table.get row column).isNone then s.improve row column else s).Held
      longest := by
    split
    · exact h.improve hway
    · exact h
  unfold Relaxation.relax
  simp only
  split
  · exact hfirst
  · next r hr =>
    split
    · exact hfirst
    · exact hfirst.improve fun hnone => absurd (hr.symm.trans hnone) (Option.some_ne_none r)

theorem improve_known_cases {i j : Fin n} (h : ((s.improve row column).table.get i j).isSome) :
    (s.table.get i j).isSome ∨ ((i = row ∧ j = column) ∧ s.table.ways row column ≠ []) := by
  rcases improve_cases s row column with ⟨_, ht, _⟩ | ⟨r, hr, _, ht, _⟩
  · exact Or.inl (ht ▸ h)
  · rw [ht, get_set] at h
    split at h
    · next hij => exact Or.inr ⟨hij, List.ne_nil_of_mem hr⟩
    · exact Or.inl h

/-- Relaxing an entry makes no other one known, and that one only if there is a way. -/
theorem relax_known_cases {i j : Fin n} (h : ((s.relax row column).table.get i j).isSome) :
    (s.table.get i j).isSome ∨ ((i = row ∧ j = column) ∧ s.table.ways row column ≠ []) := by
  cases hold : s.table.get row column with
  | none =>
    have hfirst : ∀ {i j}, ((s.improve row column).table.get i j).isSome → _ :=
      improve_known_cases
    unfold relax at h
    rw [hold] at h
    simp only [Option.isNone_none, if_true] at h
    split at h
    · exact hfirst h
    · next r hr =>
      split at h
      · exact hfirst h
      · rcases improve_known_cases h with h | ⟨⟨rfl, rfl⟩, _⟩
        · exact hfirst h
        · exact hfirst (by rw [hr]; rfl)
  | some old =>
    unfold relax at h
    simp only [hold, Option.isNone_some, Bool.false_eq_true, if_false] at h
    split at h
    · exact Or.inl h
    · rcases improve_known_cases h with h | ⟨⟨rfl, rfl⟩, _⟩
      · exact Or.inl h
      · exact Or.inl (by rw [hold]; rfl)

/-- An entry is known after it was relaxed if there was a way. -/
theorem relax_filled (h : s.table.ways row column ≠ []) :
    ((s.relax row column).table.get row column).isSome := by
  cases hold : s.table.get row column with
  | some old => exact relax_known row column (by rw [hold]; rfl)
  | none =>
    have hfilled : ((s.improve row column).table.get row column).isSome := by
      rcases improve_cases s row column with ⟨hways, _, _⟩ | ⟨r, _, _, ht, _⟩
      · obtain ⟨w, hw⟩ := List.exists_mem_of_ne_nil _ h
        obtain ⟨r, hr, _⟩ := hways w hw
        simp [hold] at hr
      · rw [ht, get_set, if_pos ⟨rfl, rfl⟩]; rfl
    unfold relax
    simp only [hold, Option.isNone_none, if_true]
    split
    · exact hfilled
    · split
      · exact hfilled
      · exact improve_known row column hfilled

theorem enterLink_peak : (enterLink link s row column).peak = s.peak := by
  unfold enterLink
  split
  · rfl
  · split <;> rfl

/-- Entering a link makes at most two entries known. -/
theorem enterLink_known_cases {i j : Fin n}
    (h : ((enterLink link s row column).table.get i j).isSome) : (s.table.get i j).isSome
      ∨ (direct link row column).isSome ∧ ((i = row ∧ j = column) ∨ (i = column ∧ j = row)) := by
  rcases enterLink_cases s row column with ⟨_, ht⟩ | ⟨d, hd, ht⟩
  · exact Or.inl (ht ▸ h)
  · have hlink : (direct link row column).isSome := by rw [hd]; rfl
    rw [ht, get_set, get_set] at h
    split at h
    · next hij => exact Or.inr ⟨hlink, Or.inr hij⟩
    · split at h
      · next hij => exact Or.inr ⟨hlink, Or.inl hij⟩
      · exact Or.inl h

theorem Held.enterLink (ha : Anchored link longest) (h : s.Held longest) :
    (enterLink link s row column).Held longest := by
  refine ⟨?_, enterLink_peak.symm ▸ h.low⟩
  rcases enterLink_cases s row column with ⟨_, ht⟩ | ⟨d, hd, ht⟩
  · rw [ht]; exact h.near
  · have hle : d ≤ longest * (row.val + column.val) := by
      by_cases hrc : row = column
      · rw [direct, if_pos hrc] at hd
        rw [← Option.some.inj hd]
        exact Nat.zero_le _
      · have hpos : 0 < row.val + column.val := by omega
        exact Nat.le_trans (ha.direct_le hd) (Nat.le_mul_of_pos_right _ hpos)
    rw [ht]
    exact (h.near.set hle).set (Nat.add_comm row.val column.val ▸ hle)

/-! ## The order of the entries -/

/-- Entries come row by row. -/
def Earlier (q p : Fin n × Fin n) : Prop := q.1 < p.1 ∨ (q.1 = p.1 ∧ q.2 < p.2)

theorem Earlier.irrefl (p : Fin n × Fin n) : ¬ Earlier p p := by
  unfold Earlier
  omega

theorem Earlier.asymm (h : Earlier q p) : ¬ Earlier p q := by
  unfold Earlier at *
  omega

theorem pairs_pairwise : (pairs n).Pairwise Earlier := by
  unfold pairs
  rw [List.pairwise_flatMap]
  refine ⟨fun i _ => ?_, ?_⟩
  · rw [List.pairwise_map]
    exact (List.pairwise_lt_finRange n).imp fun hlt => Or.inr ⟨rfl, hlt⟩
  · refine (List.pairwise_lt_finRange n).imp ?_
    intro i i' hlt q hq q' hq'
    obtain ⟨j, _, rfl⟩ := List.mem_map.mp hq
    obtain ⟨j', _, rfl⟩ := List.mem_map.mp hq'
    exact Or.inl hlt

/-- What a sweep has passed when it comes to an entry. -/
theorem mem_done_iff (h : pairs n = done ++ p :: rest) : q ∈ done ↔ Earlier q p := by
  have hsorted := pairs_pairwise (n := n)
  rw [h, List.pairwise_append, List.pairwise_cons] at hsorted
  obtain ⟨_, ⟨hafter, _⟩, hbefore⟩ := hsorted
  refine ⟨fun hq => hbefore q hq p List.mem_cons_self, fun hqp => ?_⟩
  have hmem : q ∈ pairs n := mem_pairs q.1 q.2
  rw [h, List.mem_append, List.mem_cons] at hmem
  rcases hmem with hq | rfl | hq
  · exact hq
  · exact absurd hqp (Earlier.irrefl q)
  · exact absurd hqp (hafter q hq).asymm

/-! ## The first sweep -/

/--
A table in the first sweep, where the links of the entries in `entered` have been entered and the
entries in `filled` have been relaxed.
-/
structure Surveyed (link : Fin n → Fin n → Option Duration) (longest : Duration)
    (entered filled : List (Fin n × Fin n)) (s : Relaxation n) : Prop where
  held : s.Held longest
  faithful : Faithful link s.table
  linked : ∀ {i j}, (i, j) ∈ entered → (direct link i j).isSome →
    (s.table.get i j).isSome ∧ (s.table.get j i).isSome
  /-- Left of the diagonal everything is known. -/
  lower : ∀ {i j}, (i, j) ∈ filled → j ≤ i → (s.table.get i j).isSome
  touched : ∀ {i j}, (s.table.get i j).isSome → (i, j) ∈ entered ∨ (j, i) ∈ entered
  /-- Right of the diagonal only such places are known as have a link from no later row. -/
  reached : ∀ {i j}, (s.table.get i j).isSome → ∃ k ≤ i, (direct link k j).isSome

theorem Surveyed.empty : Surveyed link longest [] [] { table := .empty n } where
  held := ⟨fun _ _ _ h => by simp [RouteTable.empty, RouteTable.get] at h, Nat.zero_le _⟩
  faithful := Faithful.empty
  linked h := absurd h List.not_mem_nil
  lower h := absurd h List.not_mem_nil
  touched h := by simp [RouteTable.empty, RouteTable.get] at h
  reached h := by simp [RouteTable.empty, RouteTable.get] at h

theorem Surveyed.enterLink (ha : Anchored link longest) (h : Surveyed link longest done done s)
    (hp : pairs n = done ++ p :: rest) :
    Surveyed link longest (done ++ [p]) done (enterLink link s p.1 p.2) := by
  have hnew : p ∈ done ++ [p] := List.mem_append_right _ List.mem_cons_self
  have hkeep : ∀ {q}, q ∈ done → q ∈ done ++ [p] := List.mem_append_left _
  refine ⟨h.held.enterLink ha, Faithful.enterLink ha.symm h.faithful p.1 p.2, ?_, ?_, ?_, ?_⟩
  · intro i j hij hd
    rcases List.mem_append.mp hij with hij | hij
    · obtain ⟨hto, hback⟩ := h.linked hij hd
      exact ⟨enterLink_known _ _ hto, enterLink_known _ _ hback⟩
    · obtain rfl := List.mem_singleton.mp hij
      refine ⟨enterLink_entered s i j hd, ?_⟩
      rcases enterLink_cases s i j with ⟨hk, ht⟩ | ⟨d, _, ht⟩
      · -- The entry was known before, so the link had been entered from its other end.
        rcases h.touched (hk hd) with hdone | hdone
        · exact absurd ((mem_done_iff hp).mp hdone) (Earlier.irrefl _)
        · exact enterLink_known _ _ (h.linked hdone (direct_symm ha.symm i j ▸ hd)).1
      · rw [ht, get_set, if_pos ⟨rfl, rfl⟩]; rfl
  · exact fun hij hle => enterLink_known _ _ (h.lower hij hle)
  · intro i j hk
    rcases enterLink_known_cases hk with hk | ⟨_, ⟨rfl, rfl⟩ | ⟨rfl, rfl⟩⟩
    · exact (h.touched hk).imp hkeep hkeep
    · exact Or.inl hnew
    · exact Or.inr hnew
  · intro i j hk
    rcases enterLink_known_cases hk with hk | ⟨hd, ⟨rfl, rfl⟩ | ⟨rfl, rfl⟩⟩
    · exact h.reached hk
    · exact ⟨p.1, Fin.le_refl _, hd⟩
    · exact ⟨p.2, Fin.le_refl _, direct_symm ha.symm p.1 p.2 ▸ hd⟩

/-- An unknown entry right of the diagonal that has a way has one through an earlier row. -/
theorem Surveyed.exists_earlier (h : Surveyed link longest (done ++ [(row, column)]) done s)
    (hp : pairs n = done ++ (row, column) :: rest) (hnone : s.table.get row column = none)
    (hlt : row < column) (hne : s.table.ways row column ≠ []) :
    ∃ k < row, (direct link k column).isSome := by
  obtain ⟨w, hw⟩ := List.exists_mem_of_ne_nil _ hne
  obtain ⟨m, a, b, _, hsecond, _⟩ := mem_ways.mp hw
  have hknown : (s.table.get m column).isSome := by rw [hsecond]; rfl
  have hmr : m ≠ row := by
    rintro rfl
    simp [hnone] at hknown
  have hpassed : ∀ {q}, q ∈ done ++ [(row, column)] → q.1 < row ∨ q.1 = row := by
    intro q hq
    rcases List.mem_append.mp hq with hq | hq
    · rcases (mem_done_iff hp).mp hq with hlt | ⟨heq, _⟩
      · exact Or.inl hlt
      · exact Or.inr heq
    · exact Or.inr (congrArg Prod.fst (List.mem_singleton.mp hq))
  -- What is known in a later row was touched when that row was passed.
  have hm : m < row := by
    rcases h.touched hknown with ht | ht
    · exact (hpassed ht).resolve_right hmr
    · have := hpassed ht
      simp only at this
      omega
  obtain ⟨k, hk, hd⟩ := h.reached hknown
  exact ⟨k, Fin.lt_of_le_of_lt hk hm, hd⟩

/-- An unknown entry has a near way if it is left of the diagonal, or has a way at all. -/
theorem Surveyed.exists_way (ha : Anchored link longest)
    (h : Surveyed link longest (done ++ [(row, column)]) done s)
    (hp : pairs n = done ++ (row, column) :: rest) (hnone : s.table.get row column = none)
    (hfill : column ≤ row ∨ s.table.ways row column ≠ []) :
    ∃ w ∈ s.table.ways row column, w.distance ≤ longest * (row.val + column.val) := by
  have hlinked : ∀ {i j}, i < row → (direct link i j).isSome →
      (s.table.get i j).isSome ∧ (s.table.get j i).isSome := fun hlt =>
    h.linked (List.mem_append_left _ ((mem_done_iff hp).mpr (Or.inl hlt)))
  have hlower : ∀ {i j}, Earlier (i, j) (row, column) → j ≤ i → (s.table.get i j).isSome :=
    fun he => h.lower ((mem_done_iff hp).mpr he)
  have hne : row ≠ column := by
    rintro rfl
    have hself := (h.linked (List.mem_append_right _ List.mem_cons_self)
      (by rw [direct_self]; rfl)).1
    simp [hnone] at hself
  by_cases hle : column ≤ row
  · by_cases hzero : 0 < column.val
    · -- Over the place that the column hangs on.
      obtain ⟨m, hm, hd⟩ := ha.exists_anchor hzero
      exact h.held.near.exists_way_down ha h.faithful hm hd
        (hlower (Or.inr ⟨rfl, hm⟩) (by omega)) (hlinked (by omega) hd).1
    · -- Over the place that the row hangs on.
      obtain ⟨m, hm, hd⟩ := ha.exists_anchor (i := row) (by omega)
      exact h.held.near.exists_way_up ha h.faithful hm (direct_symm ha.symm m row ▸ hd)
        (hlinked hm hd).2 (hlower (Or.inl hm) (by omega))
  · obtain ⟨k, hk, hd⟩ :=
      h.exists_earlier hp hnone (Nat.lt_of_not_le hle) (hfill.resolve_left hle)
    have hkc : k < column := Fin.lt_trans hk (Nat.lt_of_not_le hle)
    exact h.held.near.exists_way_down ha h.faithful hkc hd
      (hlower (Or.inr ⟨rfl, hkc⟩) (Fin.le_of_lt hk)) (hlinked hk hd).1

theorem Surveyed.relax (ha : Anchored link longest)
    (h : Surveyed link longest (done ++ [p]) done s) (hp : pairs n = done ++ p :: rest) :
    Surveyed link longest (done ++ [p]) (done ++ [p]) (s.relax p.1 p.2) := by
  obtain ⟨row, column⟩ := p
  have hnew : (row, column) ∈ done ++ [(row, column)] :=
    List.mem_append_right _ List.mem_cons_self
  refine ⟨h.held.relax fun hnone hne => h.exists_way ha hp hnone (Or.inr hne),
    Faithful.relax h.faithful fun hd => (h.linked hnew hd).1, ?_, ?_, ?_, ?_⟩
  · intro i j hij hd
    obtain ⟨hto, hback⟩ := h.linked hij hd
    exact ⟨relax_known _ _ hto, relax_known _ _ hback⟩
  · intro i j hij hle
    rcases List.mem_append.mp hij with hij | hij
    · exact relax_known _ _ (h.lower hij hle)
    · obtain ⟨rfl, rfl⟩ := Prod.mk.inj (List.mem_singleton.mp hij)
      cases hold : s.table.get i j with
      | some r => exact relax_known _ _ (by rw [hold]; rfl)
      | none =>
        obtain ⟨w, hw, _⟩ := h.exists_way ha hp hold (Or.inl hle)
        exact relax_filled (List.ne_nil_of_mem hw)
  · intro i j hk
    rcases relax_known_cases hk with hk | ⟨⟨rfl, rfl⟩, _⟩
    · exact h.touched hk
    · exact Or.inl hnew
  · intro i j hk
    by_cases hle : j ≤ i
    · exact ⟨j, hle, by rw [direct_self]; rfl⟩
    · by_cases hold : (s.table.get i j).isSome
      · exact h.reached hold
      · obtain ⟨⟨rfl, rfl⟩, hne⟩ := (relax_known_cases hk).resolve_left hold
        have hnone := Option.not_isSome_iff_eq_none.mp hold
        obtain ⟨k, hk, hd⟩ := h.exists_earlier hp hnone (Nat.lt_of_not_le hle) hne
        exact ⟨k, Nat.le_of_lt hk, hd⟩

/-- What the first sweep keeps from entry to entry. -/
theorem Surveyed.turn (ha : Anchored link longest) (h : Surveyed link longest done done s)
    (hp : pairs n = done ++ p :: rest) :
    Surveyed link longest (done ++ [p]) (done ++ [p])
      ((Relaxation.enterLink link s p.1 p.2).relax p.1 p.2) :=
  (h.enterLink ha hp).relax ha hp

theorem firstSweep_surveyed (ha : Anchored link longest) :
    Surveyed link longest (pairs n) (pairs n) (firstSweep link) :=
  foldl_rule (I := fun done s => Surveyed link longest done done s) Surveyed.empty
    fun _ _ _ _ hp h => h.turn ha hp

/-! ## Later sweeps -/

/-- A table in a later sweep, which has passed the entries in `done`. -/
structure Swept (link : Fin n → Fin n → Option Duration) (longest : Duration)
    (done : List (Fin n × Fin n)) (s : Relaxation n) : Prop where
  held : s.Held longest
  faithful : Faithful link s.table
  linked : Linked link s.table
  first : ∀ {i j}, j.val = 0 → (s.table.get i j).isSome
  passed : ∀ {i j}, (i, j) ∈ done → (s.table.get i j).isSome

theorem firstSweep_swept (ha : Anchored link longest) :
    Swept link longest [] (firstSweep link) := by
  have h := firstSweep_surveyed ha
  refine ⟨h.held, h.faithful, fun i j hd => (h.linked (mem_pairs i j) hd).1, ?_, ?_⟩
  · intro i j hj
    exact h.lower (mem_pairs i j) (Fin.le_def.mpr (hj ▸ Nat.zero_le _))
  · exact fun hij => absurd hij List.not_mem_nil

theorem Swept.exists_way (ha : Anchored link longest) (h : Swept link longest done s)
    (hp : pairs n = done ++ (row, column) :: rest) (hnone : s.table.get row column = none) :
    ∃ w ∈ s.table.ways row column, w.distance ≤ longest * (row.val + column.val) := by
  have hpos : 0 < column.val := by
    refine Nat.pos_of_ne_zero fun hzero => ?_
    have hknown := h.first (i := row) hzero
    simp [hnone] at hknown
  obtain ⟨m, hm, hd⟩ := ha.exists_anchor hpos
  exact h.held.near.exists_way_down ha h.faithful hm hd
    (h.passed ((mem_done_iff hp).mpr (Or.inr ⟨rfl, hm⟩))) (h.linked _ _ hd)

/-- What the later sweeps keep from entry to entry. -/
theorem Swept.turn (ha : Anchored link longest) (h : Swept link longest done s)
    (hp : pairs n = done ++ p :: rest) : Swept link longest (done ++ [p]) (s.relax p.1 p.2) := by
  obtain ⟨row, column⟩ := p
  refine ⟨h.held.relax fun hnone _ => h.exists_way ha hp hnone,
    Faithful.relax h.faithful (h.linked row column),
    fun i j hd => relax_known _ _ (h.linked i j hd), fun hj => relax_known _ _ (h.first hj), ?_⟩
  intro i j hij
  rcases List.mem_append.mp hij with hij | hij
  · exact relax_known _ _ (h.passed hij)
  · obtain ⟨rfl, rfl⟩ := Prod.mk.inj (List.mem_singleton.mp hij)
    cases hold : s.table.get i j with
    | some r => exact relax_known _ _ (by rw [hold]; rfl)
    | none =>
      obtain ⟨w, hw, _⟩ := h.exists_way ha hp hold
      exact relax_filled (List.ne_nil_of_mem hw)

/-- Another sweep starts over. -/
theorem Swept.sweep (ha : Anchored link longest) (h : Swept link longest [] s) :
    Swept link longest [] s.sweep := by
  have hstart : Swept link longest [] { s with changed := false } :=
    ⟨⟨h.held.near, h.held.low⟩, h.faithful, h.linked, h.first, h.passed⟩
  have hend : Swept link longest (pairs n) s.sweep :=
    foldl_rule (I := fun done s => Swept link longest done s) hstart
      fun _ _ _ _ hp h => h.turn ha hp
  exact ⟨hend.held, hend.faithful, hend.linked, hend.first,
    fun hij => absurd hij List.not_mem_nil⟩

theorem Swept.settle (ha : Anchored link longest) (h : Swept link longest [] s) :
    Swept link longest [] s.settle := by
  fun_induction Relaxation.settle s with
  | case1 s next hchanged ih => exact ih (h.sweep ha)
  | case2 s next hchanged => exact h.sweep ha

/-- The largest sum that relaxation forms over anchored links. -/
theorem peak_routes_le (ha : Anchored link longest) :
    (routes link).peak ≤ longest * (4 * n) :=
  ((firstSweep_swept ha).settle ha).held.low

end Relaxation

namespace Layout

variable {l : Layout} {known : List DeviceId} {d : Device} {devices before after : List Device}

/-! ## Declared after its parent -/

/-- Every device has a parent that is known or declared before it. -/
def Descends (known : List DeviceId) : List Device → Prop
  | [] => True
  | d :: rest => (∃ p ∈ known, d.parent = some p) ∧ Descends (d.id :: known) rest

theorem Descends.mono : ∀ {devices : List Device} {known known' : List DeviceId},
    Descends known devices → known ⊆ known' → Descends known' devices
  | [], _, _, _, _ => trivial
  | d :: _, _, _, ⟨⟨p, hp, hd⟩, hrest⟩, hsub =>
    ⟨⟨p, hsub hp, hd⟩, hrest.mono (List.cons_subset_cons d.id hsub)⟩

theorem Descends.append : ∀ {before : List Device} {known : List DeviceId},
    Descends known before → Descends known after → Descends known (before ++ after)
  | [], _, _, hafter => hafter
  | d :: _, _, ⟨hd, hrest⟩, hafter =>
    ⟨hd, hrest.append (hafter.mono (List.subset_cons_self d.id _))⟩

/-- Devices below known ones. -/
theorem descends_of_known (h : ∀ d ∈ devices, ∃ p ∈ known, d.parent = some p) :
    Descends known devices := by
  induction devices with
  | nil => trivial
  | cons d rest ih =>
    obtain ⟨hd, hrest⟩ := List.forall_mem_cons.mp h
    exact ⟨hd, (ih hrest).mono (List.subset_cons_self d.id known)⟩

/-- Groups of devices, each of which hangs on what is known before all of them. -/
theorem descends_flatMap {α : Type} {group : α → List Device} {xs : List α}
    (h : ∀ x ∈ xs, Descends known (group x)) : Descends known (xs.flatMap group) := by
  induction xs with
  | nil => trivial
  | cons x xs ih =>
    obtain ⟨hx, hxs⟩ := List.forall_mem_cons.mp h
    rw [List.flatMap_cons]
    exact hx.append (ih hxs)

theorem Descends.parent_before : ∀ {before : List Device} {known : List DeviceId},
    Descends known (before ++ d :: after) →
      ∃ p, d.parent = some p ∧ (p ∈ known ∨ p ∈ before.map Device.id)
  | [], _, ⟨⟨p, hp, hd⟩, _⟩ => ⟨p, hd, Or.inl hp⟩
  | b :: before, known, ⟨_, hrest⟩ => by
    obtain ⟨p, hd, hp⟩ := Descends.parent_before hrest
    refine ⟨p, hd, ?_⟩
    rw [List.mem_cons] at hp
    rw [List.map_cons, List.mem_cons]
    tauto

/-- A single top, declared first, and all other devices after their parents. -/
def TopDown (l : Layout) : Prop :=
  ∃ top rest, l.devices = top :: rest ∧ top.parent = none ∧ Descends [top.id] rest

namespace TopDown

theorem parent_before (h : l.TopDown) (hl : l.devices = before ++ d :: after)
    (hne : before ≠ []) : ∃ p, d.parent = some p ∧ p ∈ before.map Device.id := by
  obtain ⟨top, rest, hdevices, _, hrest⟩ := h
  obtain ⟨first, before, rfl⟩ := List.exists_cons_of_ne_nil hne
  obtain ⟨rfl, rfl⟩ := List.cons.inj (hdevices.symm.trans hl)
  obtain ⟨p, hd, hp⟩ := hrest.parent_before
  refine ⟨p, hd, ?_⟩
  rcases hp with hp | hp
  · rw [List.mem_singleton.mp hp]; exact List.mem_cons_self
  · exact List.mem_cons_of_mem _ hp

/-- The parent of every device but the first stands at an earlier place. -/
theorem exists_parent (h : l.TopDown) (i : Fin l.devices.length) (hi : 0 < i.val) :
    ∃ j < i, (l.devices.get i).parent = some (l.idAt j) := by
  have hl : l.devices = l.devices.take i ++ l.devices.get i :: l.devices.drop (i + 1) := by
    rw [List.get_eq_getElem, List.getElem_cons_drop, List.take_append_drop]
  have hne : l.devices.take i ≠ [] := by
    rw [← List.length_pos_iff, List.length_take]
    omega
  obtain ⟨p, hp, hbefore⟩ := h.parent_before hl hne
  obtain ⟨d, hd, rfl⟩ := List.mem_map.mp hbefore
  obtain ⟨j, hj, rfl⟩ := List.mem_take_iff_getElem.mp hd
  obtain ⟨hji, hjl⟩ := Nat.lt_min.mp hj
  exact ⟨⟨j, hjl⟩, hji, hp⟩

theorem parent_place (h : l.TopDown) {i : Fin l.devices.length} {p : DeviceId}
    (hp : (l.devices.get i).parent = some p) : ∃ j < i, l.idAt j = p := by
  by_cases hi : 0 < i.val
  · obtain ⟨j, hj, hparent⟩ := h.exists_parent i hi
    exact ⟨j, hj, Option.some.inj (hparent.symm.trans hp)⟩
  · -- The first device has no parent.
    obtain ⟨top, rest, hdevices, htop, _⟩ := h
    have hzero : i.val = 0 := by omega
    have hfirst : l.devices.get i = top := by
      simp [hdevices, hzero]
    rw [hfirst, htop] at hp
    cases hp

/-- Going up leads to an earlier place. -/
theorem above_place (h : l.TopDown) (hids : l.ids.Nodup) {i : Fin l.devices.length}
    {b : DeviceId} (hu : TransGen l.Under (l.idAt i) b) : ∃ j < i, l.idAt j = b := by
  have hup : ∀ {j : Fin l.devices.length} {c : DeviceId}, l.Under (l.idAt j) c →
      ∃ k < j, l.idAt k = c := by
    intro j c hc
    obtain ⟨d, hd, hp⟩ := parent?_eq_some.mp hc
    have hj : l.device? (l.idAt j) = some l.devices[j] :=
      device?_of_mem hids (List.getElem_mem j.isLt)
    obtain rfl := Option.some.inj (hj.symm.trans hd)
    exact h.parent_place hp
  induction hu with
  | single hc => exact hup hc
  | tail _ hc ih =>
    obtain ⟨j, hj, rfl⟩ := ih
    obtain ⟨k, hk, rfl⟩ := hup hc
    exact ⟨k, Fin.lt_trans hk hj, rfl⟩

theorem valid (h : l.TopDown) (hids : l.ids.Nodup)
    (husable : ∀ d ∈ l.devices, d.hasUsableLinks = true) : l.Valid where
  nodup := hids
  usable d hd := Device.hasUsableLinks_iff.mp (husable d hd)
  parent_known d hd p hp := by
    obtain ⟨i, hi, rfl⟩ := List.getElem_of_mem hd
    obtain ⟨j, _, rfl⟩ := h.parent_place (i := ⟨i, hi⟩) hp
    exact idAt_mem j
  acyclic id hid hu := by
    obtain ⟨i, hi⟩ := exists_place hid
    obtain rfl := place?_some hi
    obtain ⟨j, hj, hsame⟩ := h.above_place hids hu
    have hne := List.pairwise_iff_getElem.mp (List.pairwise_map.mp hids)
    exact hne j i j.isLt i.isLt hj hsame

end TopDown

/-- No link takes longer than the slowest uplink, or than the links between siblings. -/
theorem linkLatency_le {i j : Fin l.devices.length} {d : Duration}
    (hup : ∀ d ∈ l.devices, d.uplinkLatency ≤ longest) (hbeside : l.clusterLatency ≤ longest)
    (hd : l.linkLatency i j = some d) : d ≤ longest := by
  unfold linkLatency at hd
  simp only at hd
  split at hd
  · rw [← Option.some.inj hd]
    exact hup _ (List.getElem_mem i.isLt)
  · obtain ⟨branch, hbranch, rfl⟩ := Option.map_eq_some_iff.mp hd
    rcases List.mem_append.mp (List.mem_of_find?_eq_some hbranch) with hmem | hmem
    · obtain ⟨c, hc, rfl⟩ := List.mem_map.mp hmem
      exact hup c (List.mem_filter.mp hc).1
    · obtain ⟨o, _, rfl⟩ := List.mem_map.mp hmem
      exact hbeside

theorem TopDown.anchored (h : l.TopDown) (hf : l.Forest)
    (hup : ∀ d ∈ l.devices, d.uplinkLatency ≤ longest) (hbeside : l.clusterLatency ≤ longest) :
    Anchored l.linkLatency longest where
  symm := hf.linkLatency_symm
  short := linkLatency_le hup hbeside
  anchor i hi := by
    obtain ⟨j, hj, hp⟩ := h.exists_parent i hi
    refine ⟨j, hj, ?_⟩
    have hlink : l.linkLatency i j = some l.devices[i].uplinkLatency := if_pos hp
    rw [hlink]
    rfl

end Layout

/-- A layout from the top down whose links are short has a topology. -/
theorem Topology.build_topDown {l : Layout} (h : l.TopDown) (hids : l.ids.Nodup)
    (husable : ∀ d ∈ l.devices, d.hasUsableLinks = true)
    (hup : ∀ d ∈ l.devices, d.uplinkLatency ≤ longest) (hbeside : l.clusterLatency ≤ longest)
    (hshort : longest * (4 * l.devices.length) < Duration.limit) : ∃ t, build l = .ok t := by
  have hvalid := h.valid hids husable
  have hf := Layout.forest_of_fault? (Layout.fault?_eq_none_iff.mpr hvalid)
  have hpeak := Relaxation.peak_routes_le (h.anchored hf hup hbeside)
  rw [build_of_valid hvalid, if_neg (Nat.not_le.mpr (Nat.lt_of_le_of_lt hpeak hshort))]
  exact ⟨_, rfl⟩

end FogNet
