import FogNet.Proofs.Placement.Hauls

/-!
# What moves along is the least that must

What moves along with some microservices is found by going over the edges of the application again
and again, until a pass over all of them adds nothing. Every pass but the last one adds something
that the device hosts, so the passes come to an end, also where edges lead in a circle. What is
found then holds what moved at first, is closed under the edges going up to what is hosted, and is
the least that is both.

## Main statements

* `pass_eq` — a pass over the edges, with a flag that tells whether it added something
* `exists_passes` — the passes come to an end, with what moves along
* `closeUp_extends`, `closeUp_nodup` — what moves first stays first, and nothing comes twice
* `closeUp_least` — what moves along
-/

namespace FogNet

open Relation

namespace Application

variable {app : Application} {hosted : Name → Bool} {moving : List Name}

/-! ## Passes over the edges -/

/-- Adds the destination of an edge, as `joinAlong` does, and notes that something was added. -/
def addAlong (hosted : Name → Bool) (state : List Name × Bool) (e : Edge) : List Name × Bool :=
  if e.direction = .up ∧ e.source ∈ state.1 ∧ e.destination ∉ state.1
      ∧ hosted e.destination = true
  then (state.1 ++ [e.destination], true)
  else state

/-- One pass over all edges. None is made after one that added nothing. -/
def pass (app : Application) (hosted : Name → Bool) : List Name × Bool → List Name × Bool
  | (moving, false) => (moving, false)
  | (moving, true) => app.moduleEdges.foldl (addAlong hosted) (moving, false)

theorem addAlong_eq (hosted : Name → Bool) (moving : List Name) (changed : Bool) (e : Edge) :
    addAlong hosted (moving, changed) e
      = (joinAlong hosted moving e, changed || decide (joinAlong hosted moving e ≠ moving)) := by
  unfold addAlong joinAlong
  split <;> simp

theorem joinAlong_extends (hosted : Name → Bool) (moving : List Name) (e : Edge) :
    moving <+: joinAlong hosted moving e := by
  rcases joinAlong_cases hosted moving e with h | ⟨_, h⟩
  · exact h.symm ▸ List.prefix_refl moving
  · exact h.symm ▸ List.prefix_append moving [e.destination]

theorem foldl_joinAlong_extends (hosted : Name → Bool) : ∀ (edges : List Edge) (moving : List Name),
    moving <+: edges.foldl (joinAlong hosted) moving
  | [], moving => List.prefix_refl moving
  | e :: edges, moving =>
    (joinAlong_extends hosted moving e).trans (foldl_joinAlong_extends hosted edges _)

/-- A pass notes a change just when it has added something. -/
theorem foldl_addAlong (hosted : Name → Bool) :
    ∀ (edges : List Edge) (moving : List Name) (changed : Bool),
      edges.foldl (addAlong hosted) (moving, changed)
        = (edges.foldl (joinAlong hosted) moving,
          changed || decide (edges.foldl (joinAlong hosted) moving ≠ moving))
  | [], moving, changed => by simp
  | e :: edges, moving, changed => by
    rw [List.foldl_cons, List.foldl_cons, addAlong_eq, foldl_addAlong hosted edges]
    have hfirst := joinAlong_extends hosted moving e
    have hrest := foldl_joinAlong_extends hosted edges (joinAlong hosted moving e)
    by_cases hsame : joinAlong hosted moving e = moving
    · simp [hsame]
    · -- What was added once is not taken away again.
      have hgrown : edges.foldl (joinAlong hosted) (joinAlong hosted moving e) ≠ moving := by
        intro hback
        rw [hback] at hrest
        exact hsame (hrest.eq_of_length (Nat.le_antisymm hrest.length_le hfirst.length_le))
      simp [hsame, hgrown]

theorem pass_eq (app : Application) (hosted : Name → Bool) (moving : List Name) :
    app.pass hosted (moving, true)
      = (app.joinOnce hosted moving, decide (app.joinOnce hosted moving ≠ moving)) := by
  rw [pass, foldl_addAlong, Bool.false_or]
  rfl

/-- The passes come to an end, after one more than there are additions at most. -/
theorem exists_passes (app : Application) (hosted : Name → Bool) (moving : List Name) :
    ∃ passes, passes + moving.length ≤ (app.closeUp hosted moving).length + 1 ∧
      (app.pass hosted)^[passes] (moving, true) = (app.closeUp hosted moving, false) := by
  fun_induction closeUp app hosted moving with
  | case1 moving next hsame =>
    have hstill : app.joinOnce hosted moving = moving := hsame
    refine ⟨1, by omega, ?_⟩
    rw [Function.iterate_one, pass_eq, hstill]
    simp
  | case2 moving next hnew ih =>
    obtain ⟨passes, hle, hpasses⟩ := ih
    have hext : moving <+: next := foldl_joinAlong_extends hosted _ _
    have hlonger : moving.length < next.length := by
      refine Nat.lt_of_le_of_ne hext.length_le fun hlength => hnew ?_
      exact (hext.eq_of_length hlength).symm
    refine ⟨passes + 1, by omega, ?_⟩
    rw [Function.iterate_succ_apply, pass_eq, decide_eq_true hnew]
    exact hpasses

/-! ## What is found -/

/-- What moves at first stays where it is, and the rest comes after it. -/
theorem closeUp_extends (app : Application) (hosted : Name → Bool) (moving : List Name) :
    moving <+: app.closeUp hosted moving := by
  fun_induction closeUp app hosted moving with
  | case1 moving => exact List.prefix_refl moving
  | case2 moving _ _ ih => exact (foldl_joinAlong_extends hosted _ _).trans ih

theorem joinAlong_nodup (h : moving.Nodup) (e : Edge) : (joinAlong hosted moving e).Nodup := by
  rcases joinAlong_cases hosted moving e with hsame | ⟨hnew, hadded⟩
  · rwa [hsame]
  · rw [hadded, ← List.concat_eq_append]
    exact h.concat hnew

/-- Nothing is added twice. -/
theorem closeUp_nodup (h : moving.Nodup) : (app.closeUp hosted moving).Nodup := by
  fun_induction closeUp app hosted moving with
  | case1 => exact h
  | case2 moving _ _ ih =>
    refine ih (foldl_rule (I := fun (_ : List Edge) (names : List Name) => names.Nodup) h ?_)
    exact fun _ e _ _ _ hnames => joinAlong_nodup hnames e

/--
What moves along with different microservices that leave a device: they come first, in their order,
and after them, each once, the others that they lead to over edges going up into what is hosted on
the device. All of these are hosted there. Nothing smaller holds the ones that leave and is closed
under such edges. The passes that find all this come to an end.
-/
theorem closeUp_least (app : Application) (l : Ledger) (device : DeviceId) (hn : moving.Nodup) :
    ∃ joined, app.closeUp (l.hosts device) moving = moving ++ joined
      ∧ (moving ++ joined).Nodup
      ∧ (∀ n, n ∈ joined ↔ n ∉ moving
        ∧ ∃ x ∈ moving, ReflTransGen (app.Draws (l.hosts device)) x n)
      ∧ (∀ n ∈ joined, l.hosts device n = true)
      ∧ (∀ x y, x ∈ moving ++ joined → app.Draws (l.hosts device) x y → y ∈ moving ++ joined)
      ∧ (∀ P : Name → Prop, (∀ n ∈ moving, P n) →
        (∀ x y, P x → app.Draws (l.hosts device) x y → P y) → ∀ n ∈ moving ++ joined, P n)
      ∧ ∃ passes ≤ joined.length + 1, (app.pass (l.hosts device))^[passes] (moving, true)
        = (moving ++ joined, false) := by
  obtain ⟨joined, hjoined⟩ := closeUp_extends app (l.hosts device) moving
  have hnodup : (moving ++ joined).Nodup := hjoined ▸ closeUp_nodup hn
  have hmem : ∀ n, n ∈ moving ++ joined
      ↔ ∃ x ∈ moving, ReflTransGen (app.Draws (l.hosts device)) x n := by
    intro n
    rw [hjoined, mem_closeUp_iff]
  have hnew : ∀ n ∈ joined, n ∉ moving := by
    intro n hn hm
    exact (List.nodup_append.mp hnodup).2.2 n hm n hn rfl
  refine ⟨joined, hjoined.symm, hnodup, ?_, ?_, ?_, ?_, ?_⟩
  · intro n
    rw [← hmem, List.mem_append]
    exact ⟨fun h => ⟨hnew n h, Or.inr h⟩, fun h => h.2.resolve_left h.1⟩
  · intro n hn
    have hfound : n ∈ app.closeUp (l.hosts device) moving := by
      rw [← hjoined]
      exact List.mem_append_right _ hn
    exact (mem_or_hosted_of_mem_closeUp hfound).resolve_left (hnew n hn)
  · intro x y hx hdraws
    obtain ⟨z, hz, hway⟩ := (hmem x).mp hx
    exact (hmem y).mpr ⟨z, hz, hway.tail hdraws⟩
  · intro P hmoving hclosed n hn
    obtain ⟨x, hx, hway⟩ := (hmem n).mp hn
    induction hway with
    | refl => exact hmoving x hx
    | tail hway hdraws ih =>
      exact hclosed _ _ (ih ((hmem _).mpr ⟨x, hx, hway⟩)) hdraws
  · obtain ⟨passes, hle, hpasses⟩ := exists_passes app (l.hosts device) moving
    rw [← hjoined, List.length_append] at hle
    rw [← hjoined] at hpasses
    exact ⟨passes, by omega, hpasses⟩

/-- An application whose messages go round in a circle, with one way out of it. -/
def circle : Application :=
  { id := "circle"
    user := 1
    microservices := [⟨"a", 1, 0, 0, []⟩, ⟨"b", 1, 0, 0, []⟩, ⟨"c", 1, 0, 0, []⟩,
      ⟨"d", 1, 0, 0, []⟩]
    edges := [⟨.module, "c", "a", "v", .up, 1, 1⟩, ⟨.module, "b", "c", "u", .up, 1, 1⟩,
      ⟨.module, "a", "b", "t", .up, 1, 1⟩, ⟨.module, "c", "d", "w", .up, 1, 1⟩] }

/-- A device with all of the circle on it, and nothing else. -/
def circleLedger : Ledger :=
  ["a", "b", "c"].foldl (fun l n => l.add 1 ⟨1, "circle", n⟩ 1) (.start [1])

/-- With one of the circle all of it moves, the next ones over two edges and over three. -/
theorem closeUp_least_circle : ["a"].Nodup ∧ ∃ joined,
    circle.closeUp (circleLedger.hosts 1) ["a"] = "a" :: joined
      ∧ "b" ∈ joined ∧ "c" ∈ joined ∧ "a" ∉ joined ∧ "d" ∉ joined := by
  have hn : ["a"].Nodup := by decide
  obtain ⟨joined, hjoined, _, hmem, hhosted, _⟩ :=
    closeUp_least circle circleLedger 1 hn
  have hb : circle.Draws (circleLedger.hosts 1) "a" "b" :=
    ⟨⟨circle.edges[2], by decide, rfl, rfl, rfl⟩, by decide +kernel⟩
  have hc : circle.Draws (circleLedger.hosts 1) "b" "c" :=
    ⟨⟨circle.edges[1], by decide, rfl, rfl, rfl⟩, by decide +kernel⟩
  refine ⟨hn, joined, hjoined, (hmem "b").mpr ⟨by decide, "a", by decide, .single hb⟩,
    (hmem "c").mpr ⟨by decide, "a", by decide, .head hb (.single hc)⟩, fun ha => ?_, fun hd => ?_⟩
  · exact ((hmem "a").mp ha).1 (List.mem_singleton_self "a")
  · exact absurd (hhosted "d" hd) (by decide +kernel)

end Application

end FogNet
