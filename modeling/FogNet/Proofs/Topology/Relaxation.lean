import FogNet.Topology.Route

/-!
# Relaxed tables hold the least latencies

A table under relaxation stays `Faithful`: every route in it is the total of a walk along direct
links that goes to the route's hop first, and no route is above a direct link. A sweep that changes
nothing leaves a table in which going through a third place is never shorter. The two together make
every entry the least total of all walks.

## Main statements

* `Faithful.improve`, `Faithful.enterLink` — the two ways to change a table keep it faithful
* `relax_still` — what it means for an entry that relaxing it changes nothing
* `routes_optimal` — the settled table has the least totals, and hops that lead along them
-/

namespace FogNet

variable {n : Nat} {link : Fin n → Fin n → Option Duration}

/-! ## Walks -/

/-- A walk along direct links, with the total of their latencies. -/
inductive LinkWalk (link : Fin n → Fin n → Option Duration) : Fin n → Fin n → Duration → Prop where
  | stay (i : Fin n) : LinkWalk link i i 0
  | step {i j k : Fin n} {d w : Duration} (first : link i j = some d) (rest : LinkWalk link j k w) :
    LinkWalk link i k (d + w)

theorem LinkWalk.append {i j k : Fin n} {v w : Duration} (h : LinkWalk link i j v)
    (h' : LinkWalk link j k w) : LinkWalk link i k (v + w) := by
  induction h with
  | stay => rw [Nat.zero_add]; exact h'
  | step first _ ih =>
    rw [Nat.add_assoc]
    exact .step first (ih h')

/-- The latency of a direct link, where every place is linked to itself at no cost. -/
def direct (link : Fin n → Fin n → Option Duration) (i j : Fin n) : Option Duration :=
  if i = j then some 0 else link i j

theorem direct_self (i : Fin n) : direct link i i = some 0 := by simp [direct]

theorem direct_symm (hs : ∀ i j, link i j = link j i) (i j : Fin n) :
    direct link i j = direct link j i := by
  unfold direct
  by_cases h : i = j
  · rw [if_pos h, if_pos h.symm]
  · rw [if_neg h, if_neg (Ne.symm h), hs]

namespace RouteTable

variable {t : RouteTable n}

/-! ## The choice of a way -/

theorem mem_ways {row column : Fin n} {r : Route n} : r ∈ t.ways row column ↔
    ∃ m a b, t.get row m = some a ∧ t.get m column = some b ∧
      r = ⟨a.distance + b.distance, a.hop⟩ := by
  unfold ways
  rw [List.mem_filterMap]
  constructor
  · rintro ⟨m, _, h⟩
    split at h
    · next a b ha hb =>
      rw [Option.some.injEq] at h
      exact ⟨m, a, b, ha, hb, h.symm⟩
    · simp at h
  · rintro ⟨m, a, b, ha, hb, rfl⟩
    exact ⟨m, List.mem_finRange m, by rw [ha, hb]⟩

theorem cheaper_mem : ∀ {known : Option Duration} {candidates : List (Route n)} {r : Route n},
    cheaper known candidates = some r → r ∈ candidates
  | _, [], _, h => by simp [cheaper] at h
  | known, c :: rest, r, h => by
    unfold cheaper at h
    split at h
    · rw [Option.some.injEq] at h
      cases hc : cheaper (some c.distance) rest with
      | none =>
        rw [hc, Option.getD_none] at h
        exact h ▸ List.mem_cons_self
      | some r' =>
        rw [hc, Option.getD_some] at h
        exact List.mem_cons_of_mem _ (h ▸ cheaper_mem hc)
    · exact List.mem_cons_of_mem _ (cheaper_mem h)

/-- No way is taken only where none is below what is known. -/
theorem cheaper_eq_none : ∀ {known : Option Duration} {candidates : List (Route n)},
    cheaper known candidates = none → ∀ c ∈ candidates, ∃ d ∈ known, d ≤ c.distance
  | _, [], _, c, hc => by simp at hc
  | known, c :: rest, h, x, hx => by
    unfold cheaper at h
    split at h
    · simp at h
    · next hall =>
      rcases List.mem_cons.mp hx with rfl | hx
      · cases known with
        | none => simp at hall
        | some d =>
          refine ⟨d, rfl, ?_⟩
          simpa using hall
      · exact cheaper_eq_none h x hx

/-! ## Faithful tables -/

/-- What holds of a table at every moment of the relaxation over some direct links. -/
structure Faithful (link : Fin n → Fin n → Option Duration) (t : RouteTable n) : Prop where
  bounded : ∀ {i j r d}, t.get i j = some r → direct link i j = some d → r.distance ≤ d
  walked : ∀ {i j r}, t.get i j = some r → i ≠ j → ∃ first rest,
    link i r.hop = some first ∧ LinkWalk link r.hop j rest ∧ r.distance = first + rest

/-- Every direct link has been entered. -/
def Linked (link : Fin n → Fin n → Option Duration) (t : RouteTable n) : Prop :=
  ∀ i j, (direct link i j).isSome → (t.get i j).isSome

/-- Going through a third place is never shorter than what is known. -/
def Closed (t : RouteTable n) : Prop :=
  ∀ {i m j a b}, t.get i m = some a → t.get m j = some b →
    ∃ r, t.get i j = some r ∧ r.distance ≤ a.distance + b.distance

theorem Faithful.empty : Faithful link (RouteTable.empty n) where
  bounded h := by simp [RouteTable.empty, get] at h
  walked h := by simp [RouteTable.empty, get] at h

theorem Faithful.walk (h : Faithful link t) {i j : Fin n} {r : Route n} (hr : t.get i j = some r) :
    LinkWalk link i j r.distance := by
  by_cases hij : i = j
  · subst hij
    rw [Nat.le_zero.mp (h.bounded hr (direct_self i))]
    exact .stay i
  · obtain ⟨first, rest, hfirst, hrest, hd⟩ := h.walked hr hij
    rw [hd]
    exact .step hfirst hrest

/-- Any way that is below what is known can be set, if a direct link would be known. -/
theorem Faithful.set_way (h : Faithful link t) {row column : Fin n} {r : Route n}
    (hk : (direct link row column).isSome → (t.get row column).isSome)
    (hr : r ∈ t.ways row column) (hlt : ∀ r' ∈ t.get row column, r.distance < r'.distance) :
    Faithful link (t.set row column r) := by
  obtain ⟨m, a, b, ha, hb, rfl⟩ := mem_ways.mp hr
  have hbound : ∀ d, direct link row column = some d → a.distance + b.distance < d := by
    intro d hd
    obtain ⟨r', hr'⟩ := Option.isSome_iff_exists.mp (hk (by rw [hd]; rfl))
    exact Nat.lt_of_lt_of_le (hlt r' hr') (h.bounded hr' hd)
  -- A way back through the starting place would be no shorter.
  have hm : row ≠ m := by
    rintro rfl
    exact Nat.not_lt.mpr (Nat.le_add_left _ _) (hlt b hb)
  constructor
  · intro i j r' d hr' hd
    rw [get_set] at hr'
    split at hr'
    · next hij =>
      obtain ⟨rfl, rfl⟩ := hij
      rw [← Option.some.inj hr']
      exact Nat.le_of_lt (hbound d hd)
    · exact h.bounded hr' hd
  · intro i j r' hr' hne
    rw [get_set] at hr'
    split at hr'
    · next hij =>
      obtain ⟨rfl, rfl⟩ := hij
      rw [← Option.some.inj hr']
      obtain ⟨first, rest, hfirst, hrest, hd⟩ := h.walked ha hm
      refine ⟨first, rest + b.distance, hfirst, hrest.append (h.walk hb), ?_⟩
      rw [hd, Nat.add_assoc]
    · exact h.walked hr' hne

end RouteTable

namespace Relaxation

open RouteTable

/-! ## One step -/

/-- What an attempt to improve an entry does to the table. -/
theorem improve_cases (s : Relaxation n) (row column : Fin n) :
    ((∀ c ∈ s.table.ways row column, ∃ r ∈ s.table.get row column, r.distance ≤ c.distance) ∧
        (s.improve row column).table = s.table ∧ (s.improve row column).changed = s.changed) ∨
      ∃ r ∈ s.table.ways row column,
        (∀ r' ∈ s.table.get row column, r.distance < r'.distance) ∧
          (s.improve row column).table = s.table.set row column r ∧
          (s.improve row column).changed = true := by
  unfold improve
  simp only
  split
  · next hc =>
    refine Or.inl ⟨?_, rfl, rfl⟩
    intro c hw
    obtain ⟨d, hd, hle⟩ := cheaper_eq_none hc c hw
    obtain ⟨r, hr, rfl⟩ := Option.map_eq_some_iff.mp hd
    exact ⟨r, hr, hle⟩
  · next r hc =>
    refine Or.inr ⟨r, cheaper_mem hc, ?_, rfl, rfl⟩
    intro r' hr'
    exact cheaper_distance_lt hc r'.distance (by rw [Option.mem_def.mp hr']; rfl)

theorem improve_known {s : Relaxation n} (row column : Fin n) {i j : Fin n}
    (h : (s.table.get i j).isSome) : ((s.improve row column).table.get i j).isSome := by
  rcases improve_cases s row column with ⟨_, ht, _⟩ | ⟨r, _, _, ht, _⟩
  · rw [ht]; exact h
  · rw [ht, get_set]
    split
    · rfl
    · exact h

theorem relax_known {s : Relaxation n} (row column : Fin n) {i j : Fin n}
    (h : (s.table.get i j).isSome) : ((s.relax row column).table.get i j).isSome := by
  have first : ((if (s.table.get row column).isNone then s.improve row column else s).table.get
      i j).isSome := by
    split
    · exact improve_known row column h
    · exact h
  unfold relax
  simp only
  split
  · exact first
  · split
    · exact first
    · exact improve_known row column first

theorem Faithful.improve {s : Relaxation n} (h : Faithful link s.table) {row column : Fin n}
    (hk : (direct link row column).isSome → (s.table.get row column).isSome) :
    Faithful link (s.improve row column).table := by
  rcases improve_cases s row column with ⟨_, ht, _⟩ | ⟨r, hr, hlt, ht, _⟩
  · rw [ht]; exact h
  · rw [ht]; exact h.set_way hk hr hlt

theorem Faithful.relax {s : Relaxation n} (h : Faithful link s.table) {row column : Fin n}
    (hk : (direct link row column).isSome → (s.table.get row column).isSome) :
    Faithful link (s.relax row column).table := by
  unfold Relaxation.relax
  simp only
  by_cases hn : (s.table.get row column).isNone = true
  · rw [if_pos hn]
    have h' := Faithful.improve h hk
    have hk' := fun hd => improve_known row column (hk hd)
    split
    · exact h'
    · split
      · exact h'
      · exact Faithful.improve h' hk'
  · rw [if_neg hn]
    split
    · exact h
    · split
      · exact h
      · exact Faithful.improve h hk

/-- What entering a direct link does to the table. -/
theorem enterLink_cases (s : Relaxation n) (row column : Fin n) :
    (((direct link row column).isSome → (s.table.get row column).isSome) ∧
        enterLink link s row column = s) ∨
      ∃ d, direct link row column = some d ∧ (enterLink link s row column).table
        = (s.table.set row column ⟨d, column⟩).set column row ⟨d, row⟩ := by
  unfold enterLink
  split
  · next r hr => exact Or.inl ⟨fun _ => by rw [hr]; rfl, rfl⟩
  · split
    · next hd =>
      have hd' : direct link row column = none := hd
      exact Or.inl ⟨fun h => by rw [hd'] at h; simp at h, rfl⟩
    · next d hd => exact Or.inr ⟨d, hd, rfl⟩

theorem enterLink_known {s : Relaxation n} (row column : Fin n) {i j : Fin n}
    (h : (s.table.get i j).isSome) : ((enterLink link s row column).table.get i j).isSome := by
  rcases enterLink_cases s row column with ⟨_, ht⟩ | ⟨d, _, ht⟩
  · rw [ht]; exact h
  · rw [ht, get_set, get_set]
    split
    · rfl
    · split
      · rfl
      · exact h

theorem enterLink_entered (s : Relaxation n) (row column : Fin n)
    (h : (direct link row column).isSome) :
    ((enterLink link s row column).table.get row column).isSome := by
  rcases enterLink_cases s row column with ⟨hk, ht⟩ | ⟨d, _, ht⟩
  · rw [ht]; exact hk h
  · rw [ht, get_set, get_set]
    split
    · rfl
    · rw [if_pos ⟨rfl, rfl⟩]; rfl

theorem Faithful.enterLink (hs : ∀ i j, link i j = link j i) {s : Relaxation n}
    (h : Faithful link s.table) (row column : Fin n) :
    Faithful link (enterLink link s row column).table := by
  rcases enterLink_cases s row column with ⟨_, ht⟩ | ⟨d, hd, ht⟩
  · rw [ht]; exact h
  · rw [ht]
    have hd' : direct link column row = some d := by rw [direct_symm hs]; exact hd
    have entered : ∀ {i j}, direct link i j = some d → i ≠ j → link i j = some d := by
      intro i j hij hne
      rwa [direct, if_neg hne] at hij
    constructor
    · intro i j r e hr he
      rw [get_set, get_set] at hr
      split at hr
      · next hij =>
        obtain ⟨rfl, rfl⟩ := hij
        refine Nat.le_of_eq ?_
        rw [← Option.some.inj hr, ← Option.some.inj (hd'.symm.trans he)]
      · split at hr
        · next hij =>
          obtain ⟨rfl, rfl⟩ := hij
          refine Nat.le_of_eq ?_
          rw [← Option.some.inj hr, ← Option.some.inj (hd.symm.trans he)]
        · exact h.bounded hr he
    · intro i j r hr hne
      rw [get_set, get_set] at hr
      split at hr
      · next hij =>
        obtain ⟨rfl, rfl⟩ := hij
        rw [← Option.some.inj hr]
        exact ⟨d, 0, entered hd' hne, .stay _, rfl⟩
      · split at hr
        · next hij =>
          obtain ⟨rfl, rfl⟩ := hij
          rw [← Option.some.inj hr]
          exact ⟨d, 0, entered hd hne, .stay _, rfl⟩
        · exact h.walked hr hne

/-! ## Sweeps -/

theorem mem_pairs (i j : Fin n) : (i, j) ∈ pairs n :=
  List.mem_flatMap.mpr ⟨i, List.mem_finRange i, List.mem_map.mpr ⟨j, List.mem_finRange j, rfl⟩⟩

/-- The first sweep keeps the table faithful and enters the links of all pairs it has passed. -/
theorem foldl_enterLink (hs : ∀ i j, link i j = link j i) :
    ∀ (l : List (Fin n × Fin n)) (s : Relaxation n), Faithful link s.table →
      let s' := l.foldl (fun s p => (enterLink link s p.1 p.2).relax p.1 p.2) s
      Faithful link s'.table ∧ (∀ i j, (s.table.get i j).isSome → (s'.table.get i j).isSome) ∧
        ∀ p ∈ l, (direct link p.1 p.2).isSome → (s'.table.get p.1 p.2).isSome
  | [], s, h => ⟨h, fun _ _ hk => hk, by simp⟩
  | p :: l, s, h => by
    have hstep := Faithful.relax (Faithful.enterLink hs h p.1 p.2) (enterLink_entered s p.1 p.2)
    obtain ⟨hf, hkeep, hlinked⟩ := foldl_enterLink hs l _ hstep
    refine ⟨hf, ?_, ?_⟩
    · intro i j hk
      exact hkeep i j (relax_known p.1 p.2 (enterLink_known p.1 p.2 hk))
    · intro q hq hd
      rcases List.mem_cons.mp hq with rfl | hq
      · exact hkeep _ _ (relax_known _ _ (enterLink_entered s _ _ hd))
      · exact hlinked q hq hd

theorem firstSweep_faithful (hs : ∀ i j, link i j = link j i) :
    Faithful link (firstSweep link).table ∧ Linked link (firstSweep link).table := by
  obtain ⟨hf, _, hl⟩ := foldl_enterLink hs (pairs n) { table := .empty n } Faithful.empty
  exact ⟨hf, fun i j => hl (i, j) (mem_pairs i j)⟩

theorem foldl_relax_faithful : ∀ (l : List (Fin n × Fin n)) (s : Relaxation n),
    Faithful link s.table → Linked link s.table →
      let s' := l.foldl (fun s p => s.relax p.1 p.2) s
      Faithful link s'.table ∧ Linked link s'.table
  | [], _, h, hl => ⟨h, hl⟩
  | p :: l, _, h, hl => foldl_relax_faithful l _ (Faithful.relax h (hl p.1 p.2))
      fun i j hd => relax_known p.1 p.2 (hl i j hd)

theorem Faithful.sweep {s : Relaxation n} (h : Faithful link s.table) (hl : Linked link s.table) :
    Faithful link s.sweep.table ∧ Linked link s.sweep.table :=
  foldl_relax_faithful (pairs n) { s with changed := false } h hl

/-- If relaxing an entry reports no change, no way through a third place is shorter. -/
theorem relax_still {s : Relaxation n} {row column : Fin n}
    (h : (s.relax row column).changed = false) :
    s.changed = false ∧ (s.relax row column).table = s.table ∧
      ∀ c ∈ s.table.ways row column, ∃ r ∈ s.table.get row column, r.distance ≤ c.distance := by
  obtain ⟨hc, ht⟩ : (s.relax row column).changed = s.changed ∧
      (s.relax row column).table = s.table := by
    rcases relax_follows s row column with hf | ⟨hc, _⟩
    · exact hf
    · rw [hc] at h; exact absurd h (by simp)
  refine ⟨hc ▸ h, ht, ?_⟩
  unfold relax at h
  simp only at h
  cases hg : s.table.get row column with
  | none =>
    rw [hg] at h
    simp only [Option.isNone_none, if_true] at h
    rcases improve_cases s row column with ⟨hw, _, _⟩ | ⟨r, _, _, htab, hch⟩
    · rw [hg] at hw; exact hw
    · -- The entry is filled, and a change that is reported once stays reported.
      exfalso
      have hstays := improve_follows (s.improve row column) row column
      rw [htab, get_set, if_pos ⟨rfl, rfl⟩] at h
      simp only at h
      split at h
      · rw [hch] at h; simp at h
      · rcases hstays with ⟨hc', _⟩ | ⟨hc', _⟩
        · rw [hc', hch] at h; simp at h
        · rw [hc'] at h; simp at h
  | some r =>
    rw [hg] at h
    simp only [Option.isNone_some, Bool.false_eq_true, if_false, hg] at h
    intro c hcw
    refine ⟨r, rfl, ?_⟩
    split at h
    · next hz => rw [hz]; exact Nat.zero_le _
    · rcases improve_cases s row column with ⟨hw, _, _⟩ | ⟨_, _, _, _, hch⟩
      · obtain ⟨r', hr', hle⟩ := hw c hcw
        rw [hg] at hr'
        rw [Option.mem_some_iff.mp hr']
        exact hle
      · rw [hch] at h; simp at h

theorem foldl_relax_still : ∀ (l : List (Fin n × Fin n)) (s : Relaxation n),
    (l.foldl (fun s p => s.relax p.1 p.2) s).changed = false → s.changed = false ∧
      ∀ p ∈ l, ∀ c ∈ s.table.ways p.1 p.2, ∃ r ∈ s.table.get p.1 p.2, r.distance ≤ c.distance
  | [], _, h => ⟨h, by simp⟩
  | p :: l, s, h => by
    obtain ⟨hstep, hrest⟩ := foldl_relax_still l _ h
    obtain ⟨hs, ht, hp⟩ := relax_still hstep
    refine ⟨hs, ?_⟩
    intro q hq
    rcases List.mem_cons.mp hq with rfl | hq
    · exact hp
    · rw [← ht]; exact hrest q hq

/-- A sweep without a change leaves a closed table. -/
theorem sweep_closed {s : Relaxation n} (h : s.sweep.changed = false) : Closed s.sweep.table := by
  obtain ⟨_, hstill⟩ := foldl_relax_still (pairs n) { s with changed := false } h
  rw [sweep_unchanged h]
  intro i m j a b ha hb
  exact hstill (i, j) (mem_pairs i j) _ (mem_ways.mpr ⟨m, a, b, ha, hb, rfl⟩)

theorem settle_of_still {s : Relaxation n} (h : s.sweep.changed = false) : s.settle = s.sweep := by
  rw [settle, dif_neg (Bool.eq_false_iff.mp h)]

theorem settle_of_changed {s : Relaxation n} (h : s.sweep.changed = true) :
    s.settle = s.sweep.settle := by
  rw [settle, dif_pos h]

theorem settle_spec {s : Relaxation n} (h : Faithful link s.table) (hl : Linked link s.table) :
    Faithful link s.settle.table ∧ Linked link s.settle.table ∧ Closed s.settle.table := by
  fun_induction settle s with
  | case1 s next hchanged ih =>
    obtain ⟨h', hl'⟩ := Faithful.sweep h hl
    exact ih h' hl'
  | case2 s next hchanged =>
    obtain ⟨h', hl'⟩ := Faithful.sweep h hl
    exact ⟨h', hl', sweep_closed (Bool.eq_false_iff.mpr hchanged)⟩

/-! ## The settled table -/

/-- A table whose entries are the least totals of walks, with hops that lead along such walks. -/
structure Optimal (link : Fin n → Fin n → Option Duration) (t : RouteTable n) : Prop where
  walk : ∀ {i j r}, t.get i j = some r → LinkWalk link i j r.distance
  least : ∀ {i j w}, LinkWalk link i j w → ∃ r, t.get i j = some r ∧ r.distance ≤ w
  hop : ∀ {i j r}, t.get i j = some r → i ≠ j → ∃ first r',
    link i r.hop = some first ∧ t.get r.hop j = some r' ∧ r.distance = first + r'.distance

theorem least_of_closed {t : RouteTable n} (h : Faithful link t) (hl : Linked link t)
    (hc : Closed t) {i j : Fin n} {w : Duration} (hw : LinkWalk link i j w) :
    ∃ r, t.get i j = some r ∧ r.distance ≤ w := by
  induction hw with
  | stay i =>
    obtain ⟨r, hr⟩ := Option.isSome_iff_exists.mp (hl i i (by rw [direct_self]; rfl))
    exact ⟨r, hr, h.bounded hr (direct_self i)⟩
  | @step i j k d w first _ ih =>
    obtain ⟨b, hb, hle⟩ := ih
    by_cases hij : i = j
    · subst hij
      exact ⟨b, hb, Nat.le_trans hle (Nat.le_add_left _ _)⟩
    · have hd : direct link i j = some d := by rw [direct, if_neg hij, first]
      obtain ⟨a, ha⟩ := Option.isSome_iff_exists.mp (hl i j (by rw [hd]; rfl))
      obtain ⟨r, hr, hsum⟩ := hc ha hb
      exact ⟨r, hr, Nat.le_trans hsum (Nat.add_le_add (h.bounded ha hd) hle)⟩

/-- The routes over links that are the same in both directions are optimal. -/
theorem routes_optimal (hs : ∀ i j, link i j = link j i) : Optimal link (routes link).table := by
  obtain ⟨hf, hl⟩ := firstSweep_faithful hs
  obtain ⟨hf, hl, hc⟩ := settle_spec hf hl
  have least : ∀ {i j w}, LinkWalk link i j w →
      ∃ r, (routes link).table.get i j = some r ∧ r.distance ≤ w := least_of_closed hf hl hc
  refine ⟨fun hr => hf.walk hr, least, ?_⟩
  intro i j r hr hne
  obtain ⟨first, rest, hfirst, hrest, hd⟩ := hf.walked hr hne
  obtain ⟨r', hr', hle⟩ := least hrest
  refine ⟨first, r', hfirst, hr', Nat.le_antisymm ?_ ?_⟩
  · obtain ⟨r₀, hr₀, hle₀⟩ := least (.step hfirst (hf.walk hr'))
    rw [hr] at hr₀
    rw [Option.some.inj hr₀]
    exact hle₀
  · rw [hd]
    exact Nat.add_le_add_left hle first

end Relaxation

end FogNet
