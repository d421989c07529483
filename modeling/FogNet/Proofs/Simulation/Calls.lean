import FogNet.Proofs.Machine.Effects
import FogNet.Proofs.Simulation.History
import FogNet.Proofs.Simulation.Scheduling

/-!
# Calls from outside

A simulation is driven by calls: sensors and actuators are attached, it is started, events are
injected, and it is run up to some time, in any order and as often as one likes. Setup that is
refused changes nothing. When a duration leaves its range there is nothing left to call.

A run that uses up its budget leaves a simulation in the middle of its work. So what is said of the
simulations that calls lead to is said of those on the way as well.

## Main statements

* `advance_keeps`, `Invariant.drive` — what every step keeps, whatever is called keeps
* `Invariant.of_setup` — what setup and events at devices keep, if it is about nothing else
* `invariant_network` — no call changes the network
* `fresh_of_setup` — setup takes no time and starts nothing
-/

namespace FogNet

namespace Simulation

/-! ## Calls -/

/-- What a simulation can be asked for. -/
inductive Call where
  | addSensor (sensor : Sensor)
  | addActuator (actuator : Actuator)
  | start
  | inject (device : DeviceId) (delay : Duration) (event : Event)
  | runUntil (stop : Duration) (budget : Nat)

/-- The simulation that a run leaves behind, at its end or where its budget was used up. -/
def Outcome.left : Outcome → Except Overflow Simulation
  | .finished s | .exhausted s => .ok s
  | .overflow left => .error left

/-- Carries out a call. What is refused changes nothing. -/
def call (s : Simulation) : Call → Except Overflow Simulation
  | .addSensor sensor => .ok ((s.addSensor sensor).toOption.getD s)
  | .addActuator actuator => .ok ((s.addActuator actuator).toOption.getD s)
  | .start => s.start
  | .inject device delay event => s.inject device delay event
  | .runUntil stop budget => (s.runUntil stop budget).left

/-- Carries out calls one after another. -/
def drive (calls : List Call) (s : Simulation) : Except Overflow Simulation := calls.foldlM call s

/-- The tasks that are processed while a call is carried out. -/
def processedBy (s : Simulation) : Call → List Step
  | .runUntil stop budget => s.stepsUntil stop budget
  | _ => []

/-- The tasks that are processed while calls are carried out. -/
def processed : List Call → Simulation → List Step
  | [], _ => []
  | c :: calls, s => s.processedBy c ++
      match s.call c with
      | .error _ => []
      | .ok s => processed calls s

variable {net : Network} {seed : UInt64} {s s' : Simulation} {history : List Step}
  {P : Simulation → Prop}

theorem drive_cons {c : Call} {calls : List Call} (h : drive (c :: calls) s = .ok s') :
    ∃ s₁, s.call c = .ok s₁ ∧ drive calls s₁ = .ok s' := by
  rw [drive, List.foldlM_cons] at h
  cases hc : s.call c with
  | error left => rw [hc] at h; exact absurd h (by simp [bind, Except.bind])
  | ok s₁ =>
    rw [hc] at h
    exact ⟨s₁, rfl, h⟩

/-! ## What calls keep -/

/-- What steps keep, and the end of a run, a run keeps, whether or not it comes to its end. -/
theorem advance_keeps
    (hstep : ∀ {s s' : Simulation} {key : Key} {task : Task}, s.queue.first? = some (key, task) →
      (s.take key task).process key task = .ok s' → P s → P s')
    (hsettle : ∀ {s : Simulation} (stop : Duration), P s → P (s.settle stop))
    {stop : Duration} {budget : Nat} (hs : P s) (h : (advance stop budget s).left = .ok s') :
    P s' := by
  induction budget generalizing s with
  | zero =>
    unfold advance at h
    split at h
    · exact Except.ok.inj h ▸ hsettle stop hs
    · exact Except.ok.inj h ▸ hs
  | succ budget ih =>
    unfold advance at h
    split at h
    · exact Except.ok.inj h ▸ hsettle stop hs
    · next hnext =>
      simp only at h
      split at h
      · exact absurd h (by simp [Outcome.left])
      · next hp => exact ih (hstep (Option.filter_eq_some_iff.mp hnext).1 hp hs) h

/-- What setup, starts, injections and the steps of runs keep. -/
structure Invariant (P : Simulation → Prop) : Prop where
  sensor {s s' : Simulation} {sensor : Sensor} : s.addSensor sensor = .ok s' → P s → P s'
  actuator {s s' : Simulation} {actuator : Actuator} :
    s.addActuator actuator = .ok s' → P s → P s'
  start {s s' : Simulation} : s.start = .ok s' → P s → P s'
  inject {s s' : Simulation} {device : DeviceId} {delay : Duration} {event : Event} :
    s.inject device delay event = .ok s' → P s → P s'
  step {s s' : Simulation} {key : Key} {task : Task} : s.queue.first? = some (key, task) →
    (s.take key task).process key task = .ok s' → P s → P s'
  settle {s : Simulation} (stop : Duration) : P s → P (s.settle stop)

namespace Invariant

/-- Of what is only about machines and what is attached, setup and events at devices decide. -/
theorem of_setup
    (hsensor : ∀ {s s' : Simulation} {sensor : Sensor}, s.addSensor sensor = .ok s' → P s → P s')
    (hactuator : ∀ {s s' : Simulation} {actuator : Actuator},
      s.addActuator actuator = .ok s' → P s → P s')
    (hsame : ∀ {s s' : Simulation}, P s → s'.network = s.network → s'.machines = s.machines →
      s'.sensors = s.sensors → s'.actuators = s.actuators → P s')
    (heffect : ∀ {s : Simulation} {d : DeviceId} {m m' : Machine} {event : Event}
      {actions : List Action}, P s → s.machine? d = some m →
        Machine.Effect s.network { m with now := s.now } event actions m' →
          P { s with machines := s.machines.insert d m' }) : Invariant P where
  sensor := hsensor
  actuator := hactuator
  start hs h := by
    obtain ⟨_, hbooks, _⟩ := start_books hs
    exact hsame h hbooks.network hbooks.machines hbooks.sensors (by rw [hbooks.frame])
  inject hs h := by
    obtain ⟨_, rfl⟩ := scheduleAfter_ok_cases hs
    exact hsame h rfl rfl rfl rfl
  step {s _ key task} _ hp h := by
    have htaken : P (s.take key task) := hsame h rfl rfl rfl rfl
    cases task with
    | sensorTick id =>
      obtain ⟨_, hbooks, _⟩ := tick_books hp
      exact hsame htaken hbooks.network hbooks.machines hbooks.sensors (by rw [hbooks.frame])
    | executionCompleted target message =>
      have hbooks := complete_books (s.take key (.executionCompleted target message)) target message
      rw [← Except.ok.inj hp]
      exact hsame htaken hbooks.network hbooks.machines hbooks.sensors (by rw [hbooks.frame])
    | device event =>
      rcases happen_books hp with ⟨_, rfl⟩ | ⟨m, _, m', hm, hv, hbooks⟩
      · exact htaken
      · exact hsame (heffect htaken hm (Machine.effect_of_handle hv)) hbooks.network
          hbooks.machines hbooks.sensors (by rw [hbooks.frame])
  settle _ h := hsame h rfl rfl rfl rfl

theorem call (hP : Invariant P) {c : Call} (hs : P s) (h : s.call c = .ok s') : P s' := by
  cases c with
  | addSensor x =>
    rw [← Except.ok.inj h]
    cases hx : s.addSensor x with
    | error e => exact hs
    | ok s₁ => exact hP.sensor hx hs
  | addActuator x =>
    rw [← Except.ok.inj h]
    cases hx : s.addActuator x with
    | error e => exact hs
    | ok s₁ => exact hP.actuator hx hs
  | start => exact hP.start h hs
  | inject device delay event => exact hP.inject h hs
  | runUntil stop budget =>
    rw [Simulation.call, runUntil] at h
    cases hstart : s.start with
    | error left => rw [hstart] at h; exact absurd h (by simp [Outcome.left])
    | ok s₁ =>
      rw [hstart] at h
      exact advance_keeps hP.step hP.settle (hP.start hstart hs) h

/-- Whatever is called keeps it. -/
theorem drive (hP : Invariant P) {calls : List Call} (hs : P s)
    (h : Simulation.drive calls s = .ok s') : P s' := by
  induction calls generalizing s with
  | nil => exact Except.ok.inj h ▸ hs
  | cons c calls ih =>
    obtain ⟨s₁, hc, h⟩ := drive_cons h
    exact ih (hP.call hs hc) h

/-- So it holds in every reached simulation, if it holds at first. -/
theorem ran (hP : Invariant P) (hcreate : P (create net seed)) (h : Ran net seed history s) :
    P s := by
  induction h with
  | create => exact hcreate
  | sensor _ hs ih => exact hP.sensor hs ih
  | actuator _ hs ih => exact hP.actuator hs ih
  | start _ hs ih => exact hP.start hs ih
  | step _ hq hp ih => exact hP.step hq hp ih
  | settle stop _ ih => exact hP.settle stop ih

end Invariant

/-- No call changes the network. -/
theorem invariant_network (net : Network) : Invariant fun s => s.network = net where
  sensor hs h := by
    obtain ⟨_, _, _, _, rfl⟩ := addSensor_ok_cases hs
    exact h
  actuator hs h := by
    obtain ⟨_, _, _, _, rfl⟩ := addActuator_ok_cases hs
    exact h
  start hs h := (start_sameSetup hs).1.trans h
  inject hs h := by
    obtain ⟨_, rfl⟩ := scheduleAfter_ok_cases hs
    exact h
  step _ hs h := (process_sameSetup hs).1.trans h
  settle _ h := h

/-! ## Setup -/

/-- Whether a call only sets up a simulation. -/
def Call.IsSetup : Call → Prop
  | .addSensor _ | .addActuator _ => True
  | _ => False

/-- Setup takes no time and starts nothing. -/
theorem frame_of_setup {c : Call} (hc : c.IsSetup) (h : s.call c = .ok s') :
    s'.started = s.started ∧ s'.now = s.now := by
  cases c with
  | addSensor x =>
    rw [← Except.ok.inj h]
    cases hx : s.addSensor x with
    | error e => exact ⟨rfl, rfl⟩
    | ok s₁ =>
      obtain ⟨_, _, _, _, rfl⟩ := addSensor_ok_cases hx
      exact ⟨rfl, rfl⟩
  | addActuator x =>
    rw [← Except.ok.inj h]
    cases hx : s.addActuator x with
    | error e => exact ⟨rfl, rfl⟩
    | ok s₁ =>
      obtain ⟨_, _, _, _, rfl⟩ := addActuator_ok_cases hx
      exact ⟨rfl, rfl⟩
  | _ => exact hc.elim

theorem ran_of_setup {c : Call} (hc : c.IsSetup) (hs : Ran net seed history s)
    (h : s.call c = .ok s') : Ran net seed history s' := by
  cases c with
  | addSensor x =>
    rw [← Except.ok.inj h]
    cases hx : s.addSensor x with
    | error e => exact hs
    | ok s₁ => exact hs.sensor hx
  | addActuator x =>
    rw [← Except.ok.inj h]
    cases hx : s.addActuator x with
    | error e => exact hs
    | ok s₁ => exact hs.actuator hx
  | _ => exact hc.elim

/-- What is only set up is reached without any task. -/
theorem fresh_of_setup {setup : List Call} (hsetup : ∀ c ∈ setup, c.IsSetup)
    (hs : Ran net seed history s) (h : drive setup s = .ok s') :
    Ran net seed history s' ∧ s'.started = s.started ∧ s'.now = s.now := by
  induction setup generalizing s with
  | nil => exact Except.ok.inj h ▸ ⟨hs, rfl, rfl⟩
  | cons c setup ih =>
    obtain ⟨s₁, hc, hrest⟩ := drive_cons h
    have hfirst := hsetup c List.mem_cons_self
    have hlater : ∀ c ∈ setup, c.IsSetup := fun c hc => hsetup c (List.mem_cons_of_mem _ hc)
    obtain ⟨hstarted, hnow⟩ := frame_of_setup hfirst hc
    obtain ⟨hran, hstarted', hnow'⟩ := ih hlater (ran_of_setup hfirst hs hc) hrest
    exact ⟨hran, hstarted'.trans hstarted, hnow'.trans hnow⟩

/-- What calls leave behind has a property. -/
def leavesWith (p : Simulation → Bool) : Except Overflow Simulation → Bool
  | .ok s => p s
  | .error _ => false

theorem exists_of_leavesWith {r : Except Overflow Simulation} {p : Simulation → Bool}
    (h : leavesWith p r = true) : ∃ s, r = .ok s ∧ p s = true := by
  cases r with
  | ok s => exact ⟨s, rfl, h⟩
  | error _ => exact absurd h Bool.false_ne_true

end Simulation

end FogNet
