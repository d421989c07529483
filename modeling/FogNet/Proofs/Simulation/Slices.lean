import FogNet.Proofs.Simulation.Messages
import FogNet.Proofs.Simulation.Scheduling
import FogNet.Report

/-!
# Runs in slices

A run up to some time may stop on the way and go on later: what is left behind is the same. The only
thing that a stop changes is the time, and the next task that is processed sets it anew.

The budget of a run plays no part in this. `Ends` is the run without it: from a simulation to the
one that is left when nothing more is due.

## Main statements

* `ends_iff` — a simulation ends in another just when some budget is enough
* `Ends.slice`, `Ends.join` — a run can be cut in two, and two runs can be joined
* `runUntil_slices` — slicing a run changes nothing
-/

namespace FogNet

namespace Simulation

variable {s s' s'' : Simulation} {stop stop' : Duration} {key : Key} {task : Task}

/-! ## Runs without a budget -/

/-- A simulation processes its tasks up to `stop`, and another one is left. -/
inductive Ends (stop : Duration) : Simulation → Simulation → Prop
  | idle {s : Simulation} : s.next? stop = none → Ends stop s (s.settle stop)
  | step {s s' s'' : Simulation} {key : Key} {task : Task} : s.next? stop = some (key, task) →
      (s.take key task).process key task = .ok s' → Ends stop s' s'' → Ends stop s s''

theorem ends_of_advance {budget : Nat} (h : advance stop budget s = .finished s') :
    Ends stop s s' := by
  induction budget generalizing s with
  | zero =>
    unfold advance at h
    split at h
    · next hnext => exact Outcome.finished.inj h ▸ .idle hnext
    · simp at h
  | succ budget ih =>
    unfold advance at h
    split at h
    · next hnext => exact Outcome.finished.inj h ▸ .idle hnext
    · next hnext =>
      simp only at h
      split at h
      · simp at h
      · next hp => exact .step hnext hp (ih h)

theorem Ends.advance (h : Ends stop s s') : ∃ budget, advance stop budget s = .finished s' := by
  induction h with
  | idle hnext =>
    refine ⟨0, ?_⟩
    rw [Simulation.advance, hnext]
  | step hnext hp _ ih =>
    obtain ⟨budget, h⟩ := ih
    refine ⟨budget + 1, ?_⟩
    rw [Simulation.advance, hnext]
    simp only [hp, h]

/-- A simulation ends in another just when some budget is enough for the run. -/
theorem ends_iff : Ends stop s s' ↔ ∃ budget, advance stop budget s = .finished s' :=
  ⟨Ends.advance, fun ⟨_, h⟩ => ends_of_advance h⟩

/-! ## Stops on the way -/

theorem next?_time (h : s.next? stop = some (key, task)) : key.time ≤ stop :=
  of_decide_eq_true (Option.filter_eq_some_iff.mp h).2

/-- What is due by some time is due by any later time. -/
theorem next?_later (hle : stop ≤ stop') (h : s.next? stop = some (key, task)) :
    s.next? stop' = some (key, task) :=
  Option.filter_eq_some_iff.mpr ⟨(Option.filter_eq_some_iff.mp h).1,
    decide_eq_true ((next?_time h).trans hle)⟩

theorem next?_sooner (hle : key.time ≤ stop) (h : s.next? stop' = some (key, task)) :
    s.next? stop = some (key, task) :=
  Option.filter_eq_some_iff.mpr ⟨(Option.filter_eq_some_iff.mp h).1, decide_eq_true hle⟩

theorem settle_settle (hle : stop ≤ stop') : (s.settle stop).settle stop' = s.settle stop' := by
  simp only [settle, Nat.max_assoc, Nat.max_eq_right hle]

/-- A stop changes nothing but the time, and the next task sets that anew. -/
theorem ends_settle (hle : stop ≤ stop') :
    Ends stop' (s.settle stop) s' ↔ Ends stop' s s' := by
  constructor
  · intro h
    cases h with
    | idle hnext =>
      rw [settle_settle hle]
      exact .idle hnext
    | step hnext hp hrest => exact .step (s := s) hnext hp hrest
  · intro h
    cases h with
    | idle hnext =>
      rw [← settle_settle hle]
      exact .idle (s := s.settle stop) hnext
    | step hnext hp hrest => exact .step (s := s.settle stop) hnext hp hrest

/-- A run can be cut in two at any time before its end. -/
theorem Ends.slice (hle : stop ≤ stop') (h : Ends stop' s s'') :
    ∃ s', Ends stop s s' ∧ Ends stop' s' s'' := by
  induction h with
  | @idle s hnext =>
    have hnone : s.next? stop = none := by
      rw [Option.eq_none_iff_forall_ne_some]
      rintro ⟨key, task⟩ hsome
      rw [next?_later hle hsome] at hnext
      cases hnext
    exact ⟨_, .idle hnone, (ends_settle hle).mpr (.idle hnext)⟩
  | @step s s₁ s'' key task hnext hp hrest ih =>
    by_cases hdue : key.time ≤ stop
    · obtain ⟨s', hfirst, hsecond⟩ := ih
      exact ⟨s', .step (next?_sooner hdue hnext) hp hfirst, hsecond⟩
    · have hnone : s.next? stop = none := by
        rw [Option.eq_none_iff_forall_ne_some]
        rintro ⟨key', task'⟩ hsome
        have hsame := next?_later hle hsome
        rw [hnext, Option.some.injEq, Prod.mk.injEq] at hsame
        exact hdue (hsame.1 ▸ next?_time hsome)
      exact ⟨_, .idle hnone, (ends_settle hle).mpr (.step hnext hp hrest)⟩

/-- Two runs, one after the other, are one run. -/
theorem Ends.join (hle : stop ≤ stop') (h : Ends stop s s') (h' : Ends stop' s' s'') :
    Ends stop' s s'' := by
  induction h with
  | idle _ => exact (ends_settle hle).mp h'
  | step hnext hp _ ih => exact .step (next?_later hle hnext) hp (ih h')

/-! ## What a run does to the time and to the start -/

theorem process_now (h : s.process key task = .ok s') : s'.now = s.now := by
  obtain ⟨_, _, hbooks⟩ := process_books h
  exact hbooks.now

/-- A run that has not passed its end before it begins ends just there. -/
theorem Ends.now (h : Ends stop s s') (hn : s.now ≤ stop) : s'.now = stop := by
  induction h with
  | idle _ => exact Nat.max_eq_right hn
  | step hnext hp _ ih =>
    refine ih ?_
    rw [process_now hp]
    exact next?_time hnext

theorem Ends.started (h : Ends stop s s') : s'.started = s.started := by
  induction h with
  | idle _ => rfl
  | step _ hp _ ih =>
    obtain ⟨_, _, hbooks⟩ := process_books hp
    exact ih.trans hbooks.started

theorem start_now (h : s.start = .ok s') : s'.now = s.now := by
  obtain ⟨_, hbooks, _⟩ := start_books h
  exact hbooks.now

theorem start_started (h : s.start = .ok s') : s'.started = true := by
  obtain ⟨_, hbooks, _⟩ := start_books h
  exact hbooks.started

/-- A simulation that has started does not start again. -/
theorem start_of_started (h : s.started = true) : s.start = .ok s := by
  rw [start, h]
  rfl

/-! ## Runs from the start -/

theorem runUntil_iff : (∃ budget, s.runUntil stop budget = .finished s')
    ↔ ∃ s₀, s.start = .ok s₀ ∧ Ends stop s₀ s' := by
  cases hs : s.start with
  | error left =>
    simp only [runUntil, hs]
    simp
  | ok s₀ =>
    simp only [runUntil, hs, ← ends_iff, Except.ok.injEq, exists_eq_left']

theorem exists_runUntil_iff (hle : stop ≤ stop') :
    (∃ budget, s.runUntil stop' budget = .finished s'')
      ↔ ∃ s' budget budget', s.runUntil stop budget = .finished s'
        ∧ s'.runUntil stop' budget' = .finished s'' := by
  constructor
  · intro h
    obtain ⟨s₀, hstart, hends⟩ := runUntil_iff.mp h
    obtain ⟨s', hfirst, hsecond⟩ := hends.slice hle
    obtain ⟨budget, hrun⟩ := runUntil_iff.mpr ⟨s₀, hstart, hfirst⟩
    have hstarted : s'.started = true := hfirst.started.trans (start_started hstart)
    obtain ⟨budget', hrun'⟩ := runUntil_iff.mpr ⟨s', start_of_started hstarted, hsecond⟩
    exact ⟨s', budget, budget', hrun, hrun'⟩
  · rintro ⟨s', budget, budget', hrun, hrun'⟩
    obtain ⟨s₀, hstart, hfirst⟩ := runUntil_iff.mp ⟨budget, hrun⟩
    obtain ⟨s₁, hstart', hsecond⟩ := runUntil_iff.mp ⟨budget', hrun'⟩
    have hstarted : s'.started = true := hfirst.started.trans (start_started hstart)
    rw [start_of_started hstarted, Except.ok.injEq] at hstart'
    subst hstart'
    exact runUntil_iff.mpr ⟨s₀, hstart, hfirst.join hle hsecond⟩

theorem runUntil_now {budget : Nat} (hn : s.now ≤ stop)
    (h : s.runUntil stop budget = .finished s') : s'.now = stop := by
  obtain ⟨s₀, hstart, hends⟩ := runUntil_iff.mp ⟨budget, h⟩
  exact hends.now (by rw [start_now hstart]; exact hn)

/-- A run for some duration is a run up to the time that it leads to, if that is in range. -/
theorem runFor_eq_finished_iff {d : Duration} {budget : Nat} :
    s.runFor d budget = .finished s'
      ↔ s.now + d < Duration.limit ∧ s.runUntil (s.now + d) budget = .finished s' := by
  rw [runFor, later]
  by_cases hlt : s.now + d < Duration.limit
  · simp [Duration.add?, hlt]
  · simp [Duration.add?, hlt]

theorem exists_runFor_iff {d d' : Duration} :
    (∃ budget, s.runFor (d + d') budget = .finished s'')
      ↔ ∃ s' budget budget', s.runFor d budget = .finished s'
        ∧ s'.runFor d' budget' = .finished s'' := by
  have hle : s.now + d ≤ s.now + (d + d') := Nat.add_le_add_left (Nat.le_add_right d d') _
  simp only [runFor_eq_finished_iff]
  constructor
  · rintro ⟨budget, hlt, hrun⟩
    obtain ⟨s', first, second, hfirst, hsecond⟩ := (exists_runUntil_iff hle).mp ⟨budget, hrun⟩
    have hnow := runUntil_now (Nat.le_add_right _ _) hfirst
    refine ⟨s', first, second, ⟨Nat.lt_of_le_of_lt hle hlt, hfirst⟩, ?_⟩
    rw [hnow, Nat.add_assoc]
    exact ⟨hlt, hsecond⟩
  · rintro ⟨s', first, second, ⟨_, hfirst⟩, hlt, hsecond⟩
    have hnow := runUntil_now (Nat.le_add_right _ _) hfirst
    rw [hnow, Nat.add_assoc] at hlt hsecond
    obtain ⟨budget, hrun⟩ := (exists_runUntil_iff hle).mpr ⟨s', first, second, hfirst, hsecond⟩
    exact ⟨budget, hlt, hrun⟩

/--
Slicing a run changes nothing. A run up to some time comes to its end just when the run up to an
earlier time does and can go on to its end from there, and all that is left is the same simulation.
So it is with runs for some durations, and then they are reported alike.
-/
theorem runUntil_slices (s : Simulation) (hle : stop ≤ stop') :
    (∀ s'', (∃ budget, s.runUntil stop' budget = .finished s'')
      ↔ ∃ s' budget budget', s.runUntil stop budget = .finished s'
        ∧ s'.runUntil stop' budget' = .finished s'')
    ∧ ∀ (d d' : Duration) s'', (∃ budget, s.runFor (d + d') budget = .finished s'')
      ↔ ∃ s' budget budget', s.runFor d budget = .finished s'
        ∧ s'.runFor d' budget' = .finished s'' :=
  ⟨fun _ => exists_runUntil_iff hle, fun _ _ _ => exists_runFor_iff⟩

/--
The sensors of the phone emit after half a second, just when the first slice ends. The second slice
leaves the same simulation as the run without a stop.
-/
theorem runUntil_slices_phone : ∃ s' s'' budget budget',
    phoneStart.runUntil (Duration.ofMillis 500) budget = .finished s'
      ∧ s'.runUntil (Duration.ofMillis 1003) budget' = .finished s''
      ∧ phoneStart.runUntil (Duration.ofMillis 1003) 60 = .finished s''
      ∧ s''.lastMessage = 4 := by
  obtain ⟨s'', hs, hp⟩ := exists_of_finishesWith (p := fun s => decide (s.lastMessage = 4))
    (show finishesWith _ (phoneStart.runUntil (Duration.ofMillis 1003) 60) = true by
      decide +kernel)
  obtain ⟨s', budget, budget', hfirst, hsecond⟩ := ((runUntil_slices phoneStart
    (show Duration.ofMillis 500 ≤ Duration.ofMillis 1003 by decide)).1 s'').mp ⟨60, hs⟩
  exact ⟨s', s'', budget, budget', hfirst, hsecond, hs, of_decide_eq_true hp⟩

end Simulation

end FogNet
