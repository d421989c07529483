import FogNet.Proofs.Machine.Messages
import FogNet.Proofs.Simulation.Runs

/-!
# The history of a simulation

A simulation does not keep what it has processed. Here every reached simulation gets its history:
the tasks that were processed on the way, each with the simulation that it was taken from. What the
orchestrators placed, and how messages came to their end, is read off the history.

## Main statements

* `reached_iff` — a simulation is reached just when it has a history
* `Ran.reached` — in which the history tells what the orchestrators placed
* `Ran.continues` — what is reached from a reached simulation is reached
* `ran_of_runUntil` — a run adds what it processes to the history
-/

namespace FogNet

namespace Simulation

variable {net : Network} {seed : UInt64} {s s' : Simulation}

/-! ## Histories -/

/-- A task that was processed, and the simulation that it was taken from. -/
structure Step where
  before : Simulation
  key : Key
  task : Task

namespace Step

/-- What an orchestrator placed. -/
def placed (x : Step) : List (DeviceId × Placement) := x.before.decided x.key x.task

/-- What the device of the task did about an event. -/
def actions (x : Step) (event : Event) : List Action :=
  match x.before.machine? x.key.device with
  | none => []
  | some m =>
    match ({ m with now := x.key.time }.handle x.before.network event).value with
    | none => []
    | some (actions, _) => actions

theorem actions_of_none {key : Key} {task : Task} (hm : s.machine? key.device = none)
    (event : Event) : actions ⟨s, key, task⟩ event = [] := by
  rw [actions, hm]

theorem actions_of_handle {key : Key} {task : Task} {m m' : Machine} {event : Event}
    {acts : List Action} (hm : s.machine? key.device = some m)
    (hv : ({ m with now := key.time }.handle s.network event).value = some (acts, m')) :
    actions ⟨s, key, task⟩ event = acts := by
  rw [actions, hm]
  simp only [hv]

/-- The messages that came to their end. -/
def ended (x : Step) : List (MessageId × Fate) :=
  match x.task with
  | .device event => endings (x.actions event)
  | .executionCompleted _ message => [(message.id, .executed)]
  | .sensorTick _ => []

end Step

/--
The simulations of a network that are reached without events from outside, each with the tasks that
were processed before, the latest last.
-/
inductive Ran (net : Network) (seed : UInt64) : List Step → Simulation → Prop
  | create : Ran net seed [] (create net seed)
  | sensor {history : List Step} {s s' : Simulation} {sensor : Sensor} :
      Ran net seed history s → s.addSensor sensor = .ok s' → Ran net seed history s'
  | actuator {history : List Step} {s s' : Simulation} {actuator : Actuator} :
      Ran net seed history s → s.addActuator actuator = .ok s' → Ran net seed history s'
  | start {history : List Step} {s s' : Simulation} :
      Ran net seed history s → s.start = .ok s' → Ran net seed history s'
  | step {history : List Step} {s s' : Simulation} {key : Key} {task : Task} :
      Ran net seed history s → s.queue.first? = some (key, task) →
        (s.take key task).process key task = .ok s' →
          Ran net seed (history ++ [⟨s, key, task⟩]) s'
  | settle {history : List Step} {s : Simulation} (stop : Duration) :
      Ran net seed history s → Ran net seed history (s.settle stop)

theorem Ran.reached {history : List Step} (h : Ran net seed history s) :
    Reached net seed (history.flatMap Step.placed) s := by
  induction h with
  | create => exact .create
  | sensor _ hs ih => exact ih.sensor hs
  | actuator _ hs ih => exact ih.actuator hs
  | start _ hs ih => exact ih.start hs
  | step _ hq hp ih =>
    rw [List.flatMap_append, List.flatMap_singleton]
    exact ih.step hq hp
  | settle stop _ ih => exact ih.settle stop

theorem Reached.ran {placed : List (DeviceId × Placement)} (h : Reached net seed placed s) :
    ∃ history, Ran net seed history s ∧ history.flatMap Step.placed = placed := by
  induction h with
  | create => exact ⟨[], .create, rfl⟩
  | sensor _ hs ih =>
    obtain ⟨history, hr, rfl⟩ := ih
    exact ⟨history, hr.sensor hs, rfl⟩
  | actuator _ hs ih =>
    obtain ⟨history, hr, rfl⟩ := ih
    exact ⟨history, hr.actuator hs, rfl⟩
  | start _ hs ih =>
    obtain ⟨history, hr, rfl⟩ := ih
    exact ⟨history, hr.start hs, rfl⟩
  | step _ hq hp ih =>
    obtain ⟨history, hr, rfl⟩ := ih
    refine ⟨_, hr.step hq hp, ?_⟩
    rw [List.flatMap_append, List.flatMap_singleton]
    rfl
  | settle stop _ ih =>
    obtain ⟨history, hr, rfl⟩ := ih
    exact ⟨history, hr.settle stop, rfl⟩

/--
The simulations that are reached from one of them without events from outside, each with the tasks
that were processed since.
-/
inductive Continues (s : Simulation) : List Step → Simulation → Prop
  | refl : Continues s [] s
  | sensor {history : List Step} {s₁ s₂ : Simulation} {sensor : Sensor} :
      Continues s history s₁ → s₁.addSensor sensor = .ok s₂ → Continues s history s₂
  | actuator {history : List Step} {s₁ s₂ : Simulation} {actuator : Actuator} :
      Continues s history s₁ → s₁.addActuator actuator = .ok s₂ → Continues s history s₂
  | start {history : List Step} {s₁ s₂ : Simulation} :
      Continues s history s₁ → s₁.start = .ok s₂ → Continues s history s₂
  | step {history : List Step} {s₁ s₂ : Simulation} {key : Key} {task : Task} :
      Continues s history s₁ → s₁.queue.first? = some (key, task) →
        (s₁.take key task).process key task = .ok s₂ →
          Continues s (history ++ [⟨s₁, key, task⟩]) s₂
  | settle {history : List Step} {s₁ : Simulation} (stop : Duration) :
      Continues s history s₁ → Continues s history (s₁.settle stop)

theorem Continues.trans {earlier later : List Step} {s₁ s₂ s₃ : Simulation}
    (h : s₁.Continues earlier s₂) (h' : s₂.Continues later s₃) :
    s₁.Continues (earlier ++ later) s₃ := by
  induction h' with
  | refl => rwa [List.append_nil]
  | sensor _ hs ih => exact ih.sensor hs
  | actuator _ hs ih => exact ih.actuator hs
  | start _ hs ih => exact ih.start hs
  | step _ hq hp ih =>
    rw [← List.append_assoc]
    exact ih.step hq hp
  | settle stop _ ih => exact ih.settle stop

/-- What is reached from a reached simulation is reached. -/
theorem Ran.continues {earlier later : List Step} (h : Ran net seed earlier s)
    (h' : s.Continues later s') : Ran net seed (earlier ++ later) s' := by
  induction h' with
  | refl => rwa [List.append_nil]
  | sensor _ hs ih => exact ih.sensor hs
  | actuator _ hs ih => exact ih.actuator hs
  | start _ hs ih => exact ih.start hs
  | step _ hq hp ih =>
    rw [← List.append_assoc]
    exact ih.step hq hp
  | settle stop _ ih => exact ih.settle stop

/-- What was processed was the first task of a simulation that was reached earlier. -/
theorem Ran.mem_earlier {history : List Step} (h : Ran net seed history s) {x : Step}
    (hx : x ∈ history) : ∃ earlier, Ran net seed earlier x.before
      ∧ x.before.queue.first? = some (x.key, x.task)
      ∧ (∃ s', (x.before.take x.key x.task).process x.key x.task = .ok s')
      ∧ ∀ y ∈ earlier, y ∈ history := by
  induction h with
  | create => exact absurd hx List.not_mem_nil
  | sensor _ _ ih | actuator _ _ ih | start _ _ ih | settle _ _ ih => exact ih hx
  | step h hq hp ih =>
    rcases List.mem_append.mp hx with hx | hx
    · obtain ⟨earlier, hran, hfirst, hnext, hmem⟩ := ih hx
      exact ⟨earlier, hran, hfirst, hnext, fun y hy => List.mem_append_left _ (hmem y hy)⟩
    · rw [List.mem_singleton.mp hx]
      exact ⟨_, h, hq, ⟨_, hp⟩, fun y hy => List.mem_append_left _ hy⟩

theorem Ran.mem {history : List Step} (h : Ran net seed history s) {x : Step} (hx : x ∈ history) :
    ∃ earlier, Ran net seed earlier x.before ∧ x.before.queue.first? = some (x.key, x.task)
      ∧ ∃ s', (x.before.take x.key x.task).process x.key x.task = .ok s' := by
  obtain ⟨earlier, hran, hfirst, hnext, _⟩ := h.mem_earlier hx
  exact ⟨earlier, hran, hfirst, hnext⟩

/-- What was processed since was the first task of a simulation that was reached on the way. -/
theorem Continues.mem {history : List Step} (h : s.Continues history s') {x : Step}
    (hx : x ∈ history) : ∃ earlier, s.Continues earlier x.before
      ∧ x.before.queue.first? = some (x.key, x.task)
      ∧ ∃ s', (x.before.take x.key x.task).process x.key x.task = .ok s' := by
  induction h with
  | refl => exact absurd hx List.not_mem_nil
  | sensor _ _ ih | actuator _ _ ih | start _ _ ih | settle _ _ ih => exact ih hx
  | step h hq hp ih =>
    rcases List.mem_append.mp hx with hx | hx
    · exact ih hx
    · rw [List.mem_singleton.mp hx]
      exact ⟨_, h, hq, _, hp⟩

/-- A simulation is reached just when it has a history, and the history tells what was placed. -/
theorem reached_iff {placed : List (DeviceId × Placement)} : Reached net seed placed s
    ↔ ∃ history, Ran net seed history s ∧ history.flatMap Step.placed = placed :=
  ⟨Reached.ran, fun ⟨_, h, hplaced⟩ => hplaced ▸ h.reached⟩

/-! ## The history of a run -/

/-- The tasks that are processed up to `stop`, at most `budget` of them. -/
def steps (stop : Duration) : (budget : Nat) → Simulation → List Step
  | 0, _ => []
  | budget + 1, s =>
    match s.next? stop with
    | none => []
    | some (key, task) => ⟨s, key, task⟩ ::
        match (s.take key task).process key task with
        | .error _ => []
        | .ok s => steps stop budget s

/-- The tasks that are processed on a run up to `stop`. -/
def stepsUntil (s : Simulation) (stop : Duration) (budget : Nat) : List Step :=
  match s.start with
  | .error _ => []
  | .ok s => steps stop budget s

theorem continues_of_advance {stop : Duration} {budget : Nat}
    (h : advance stop budget s = .finished s') : s.Continues (steps stop budget s) s' := by
  induction budget generalizing s with
  | zero =>
    unfold advance at h
    split at h
    · rw [← Outcome.finished.inj h, steps]
      exact Continues.refl.settle stop
    · simp at h
  | succ budget ih =>
    unfold advance at h
    unfold steps
    cases hnext : s.next? stop with
    | none =>
      rw [hnext] at h
      rw [← Outcome.finished.inj h]
      exact Continues.refl.settle stop
    | some next =>
      obtain ⟨key, task⟩ := next
      have hfirst := (Option.filter_eq_some_iff.mp hnext).1
      rw [hnext] at h
      cases hp : (s.take key task).process key task with
      | error e => simp [hp] at h
      | ok s₁ =>
        simp only [hp] at h ⊢
        exact (Continues.refl.step hfirst hp).trans (ih h)

theorem continues_of_runUntil {stop : Duration} {budget : Nat}
    (h : s.runUntil stop budget = .finished s') :
    ∃ s₁, s.start = .ok s₁ ∧ s₁.Continues (s.stepsUntil stop budget) s' := by
  unfold runUntil at h
  unfold stepsUntil
  cases hstart : s.start with
  | error e => simp [hstart] at h
  | ok s₁ =>
    simp only [hstart] at h
    exact ⟨s₁, rfl, continues_of_advance h⟩

/-- A run adds what it processes to the history. -/
theorem ran_of_runUntil {history : List Step} {stop : Duration} {budget : Nat}
    (hs : Ran net seed history s) (h : s.runUntil stop budget = .finished s') :
    Ran net seed (history ++ s.stepsUntil stop budget) s' := by
  obtain ⟨_, hstart, hcontinues⟩ := continues_of_runUntil h
  exact (hs.start hstart).continues hcontinues

/-- Nothing is processed while sensors are attached. -/
theorem ran_withSensors (net : Network) (seed : UInt64) (sensors : List Sensor) :
    Ran net seed [] (withSensors net seed sensors) := by
  have key : ∀ (sensors : List Sensor) (s : Simulation), Ran net seed [] s →
      Ran net seed [] (sensors.foldl (fun s x => (s.addSensor x).toOption.getD s) s) := by
    intro sensors
    induction sensors with
    | nil => exact fun _ h => h
    | cons x sensors ih =>
      intro s h
      rw [List.foldl_cons]
      cases hs : s.addSensor x with
      | error e => exact ih s h
      | ok s₁ => exact ih s₁ (h.sensor hs)
  exact key sensors _ .create

/-! ## The ends of messages -/

/-- The messages that have come to their end, in the order in which they did. -/
def ended (history : List Step) : List (MessageId × Fate) := history.flatMap Step.ended

end Simulation

end FogNet
