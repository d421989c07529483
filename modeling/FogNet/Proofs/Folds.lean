import Mathlib.Data.List.Basic

/-!
# Loops over lists

A loop over a list is a fold. What holds before it and is kept by every turn holds after it, and
when turns may fail, a loop comes to its end just when every turn succeeds where it stands.

## Main statements

* `foldl_rule` — the turns of a loop, each with what came before it
* `foldlM_keeps` — the turns of a loop that may fail
* `foldlM_ok_iff` — when every turn takes something away from the later ones, and nothing else
-/

namespace FogNet

/-- What every step of a loop keeps holds at its end; it may speak of the steps so far. -/
theorem foldl_rule {α β : Type} {f : β → α → β} {l : List α} {b : β} {I : List α → β → Prop}
    (start : I [] b)
    (step : ∀ before a after b, l = before ++ a :: after → I before b → I (before ++ [a]) (f b a)) :
    I l (l.foldl f b) := by
  have key : ∀ (after before : List α) (b : β), l = before ++ after → I before b →
      I l (after.foldl f b) := by
    intro after
    induction after with
    | nil =>
      intro before b hl h
      rw [hl, List.append_nil]
      exact h
    | cons a after ih =>
      intro before b hl h
      refine ih (before ++ [a]) (f b a) ?_ (step before a after b hl h)
      rw [hl, List.append_assoc, List.singleton_append]
  exact key l [] b rfl start

section

variable {α σ ε : Type} {f : σ → α → Except ε σ} {I : σ → Prop} {xs : List α} {s s' : σ}

/-- What every turn keeps is kept by a loop that comes to its end. -/
theorem foldlM_keeps (keep : ∀ {s s' x}, I s → f s x = .ok s' → I s') (h : I s)
    (hs : xs.foldlM f s = .ok s') : I s' := by
  induction xs generalizing s with
  | nil =>
    rw [← Except.ok.inj hs]
    exact h
  | cons x xs ih =>
    rw [List.foldlM_cons] at hs
    cases hx : f s x with
    | error e => simp [hx, bind, Except.bind] at hs
    | ok s₁ =>
      rw [hx] at hs
      exact ih (keep h hx) hs

/--
When a turn succeeds for what fits and is free, and leaves free what is apart from it, the loop
comes to its end just if everything fits, is free at the start and is apart from all the rest.
-/
theorem foldlM_ok_iff {fits : α → Prop} (free : σ → α → Prop) {apart : α → α → Prop}
    (turn : ∀ {s x}, I s → ((∃ s', f s x = .ok s') ↔ fits x ∧ free s x))
    (keep : ∀ {s s' x}, I s → f s x = .ok s' → I s' ∧ ∀ y, free s' y ↔ apart x y ∧ free s y)
    (h : I s) :
    (∃ s', xs.foldlM f s = .ok s') ↔ (∀ x ∈ xs, fits x ∧ free s x) ∧ xs.Pairwise apart := by
  induction xs generalizing s with
  | nil => simp [pure, Except.pure]
  | cons x xs ih =>
    have hx := turn (x := x) h
    rw [List.foldlM_cons, List.forall_mem_cons, List.pairwise_cons]
    cases hs : f s x with
    | error e =>
      rw [hs] at hx
      have hno : ¬ (fits x ∧ free s x) := fun hfits => by
        obtain ⟨_, he⟩ := hx.mpr hfits
        cases he
      simp [bind, Except.bind, hno]
    | ok s₁ =>
      have hfirst := hx.mp ⟨s₁, hs⟩
      obtain ⟨h₁, hfree⟩ := keep h hs
      have hrest : (∀ y ∈ xs, fits y ∧ free s₁ y)
          ↔ (∀ y ∈ xs, fits y ∧ free s y) ∧ ∀ y ∈ xs, apart x y := by
        simp only [hfree]
        constructor
        · intro hall
          exact ⟨fun y hy => ⟨(hall y hy).1, (hall y hy).2.2⟩, fun y hy => (hall y hy).2.1⟩
        · rintro ⟨hall, hapart⟩ y hy
          exact ⟨(hall y hy).1, hapart y hy, (hall y hy).2⟩
      rw [show (Except.ok s₁ >>= fun s => xs.foldlM f s) = xs.foldlM f s₁ from rfl, ih h₁, hrest]
      tauto

end

end FogNet
