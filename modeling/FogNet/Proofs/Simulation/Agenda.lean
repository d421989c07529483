import FogNet.Proofs.Simulation.Calls
import FogNet.Proofs.Simulation.Slices

/-!
# The agenda of a simulation

All that is scheduled for a simulation, by its start, by its steps and from outside, is processed
once, at its time, or it is still to come. This is so at any moment between any calls: nothing in
the queue is replaced by anything else, and nothing in it is past. So time does not go back, and of
two tasks that only differ in when they were scheduled the first one is processed first.

## Main statements

* `process_schedules` — just what a step schedules
* `Agenda.books`, `Agenda.take`, `Agenda.settle` — what keeps an agenda
* `Agenda.advance`, `agenda_drive` — so runs and calls do
* `tasks_accounted` — what became of all that was scheduled, and in which order
-/

namespace FogNet

open List (Perm)

namespace Key

/--
One task may be processed before another one: it is not later, and if they only differ in when they
were scheduled, it was scheduled first.
-/
structure Before (a b : Key) : Prop where
  time : a.time ≤ b.time
  turn : a.time = b.time → a.priority = b.priority → a.device = b.device →
    a.sequence < b.sequence

variable {a b : Key}

/-- What comes first in a queue may be processed first. -/
theorem before_of_lt (h : compare a b = .lt) : a.Before b := by
  refine ⟨lt_time h, fun ht hp hd => ?_⟩
  rcases Nat.lt_trichotomy a.sequence b.sequence with hlt | heq | hgt
  · exact hlt
  · have hsame : a = b := by
      cases a
      cases b
      simp_all
    exact absurd (hsame ▸ h) (SortedMap.compare_self_ne_lt b)
  · have hback := compare_eq_lt_of_sequence ht.symm hp.symm hd.symm hgt
    have hgt : compare a b = .gt := Std.OrientedCmp.gt_iff_lt.mpr hback
    rw [h] at hgt
    cases hgt

end Key

namespace Simulation

variable {net : Network} {seed : UInt64} {s s' : Simulation} {since : Duration}
  {bookings new : List Booking} {history : List Step} {key : Key} {task : Task}

/-! ## What is scheduled -/

/-- What is scheduled when the interval of a sensor is over. -/
def ticked (s : Simulation) (id : SensorId) : List Booking :=
  match s.sensors.get? id with
  | none => []
  | some sensor =>
    match s.network.application? sensor.app with
    | none => []
    | some app => s.emissions id sensor app

/-- The entry of the queue that was taken. -/
def Step.entry (x : Step) : Key × Task := (x.key, x.task)

/-- What the processing of a task schedules. -/
def Step.schedules (x : Step) : List Booking :=
  let s := x.before.take x.key x.task
  match x.task with
  | .device event => (x.actions event).filterMap (s.booking? x.key.device)
  | .sensorTick id => s.ticked id
  | .executionCompleted target message => (s.outputs message).map fun output =>
      ⟨target.device, s.now, .device (.messageArrived output)⟩

/-- What the start schedules, if it has not happened yet. -/
def opened (s : Simulation) : List Booking := if s.started then [] else s.openings

/-- What is scheduled while a call is carried out. -/
def bookedBy (s : Simulation) : Call → List Booking
  | .addSensor _ | .addActuator _ => []
  | .start => s.opened
  | .inject device delay event => [⟨device, s.now + delay, .device event⟩]
  | .runUntil stop budget => s.opened ++ (s.stepsUntil stop budget).flatMap Step.schedules

/-- What is scheduled while calls are carried out, in order. -/
def booked : List Call → Simulation → List Booking
  | [], _ => []
  | c :: calls, s => s.bookedBy c ++
      match s.call c with
      | .error _ => []
      | .ok s => booked calls s

theorem tick_schedules {id : SensorId} (h : s.tick id = .ok s') : s.Books s' (s.ticked id) := by
  cases hx : s.sensors.get? id with
  | none =>
    simp only [tick, hx, Except.ok.injEq] at h
    rw [ticked, hx]
    exact h ▸ .refl s
  | some sensor =>
    cases ha : s.network.application? sensor.app with
    | none =>
      simp only [tick, hx, ha, Except.ok.injEq] at h
      simp only [ticked, hx, ha]
      exact h ▸ .refl s
    | some app =>
      simp only [ticked, hx, ha]
      exact tick_emits hx ha h

/-- Just what a step schedules. -/
theorem process_schedules (h : (s.take key task).process key task = .ok s') :
    ∃ machines, Books { s.take key task with machines } s' (Step.schedules ⟨s, key, task⟩) := by
  cases task with
  | sensorTick id => exact ⟨s.machines, tick_schedules h⟩
  | executionCompleted target message =>
    rw [← Except.ok.inj h]
    exact ⟨s.machines, complete_books _ target message⟩
  | device event =>
    show ∃ machines, Books _ _ ((Step.actions ⟨s, key, .device event⟩ event).filterMap
      ((s.take key (.device event)).booking? key.device))
    rcases happen_books h with ⟨hm, rfl⟩ | ⟨m, actions, m', hm, hvalue, hbooks⟩
    · rw [Step.actions_of_none (s := s) hm]
      exact ⟨s.machines, .refl _⟩
    · rw [Step.actions_of_handle (s := s) hm hvalue]
      exact ⟨_, hbooks⟩

theorem start_opened (h : s.start = .ok s') :
    Books { s with started := true } s' s.opened := by
  rcases start_opens h with ⟨hstarted, rfl⟩ | ⟨hstarted, hbooks⟩
  · rw [opened, if_pos hstarted, show { s' with started := true } = s' from hstarted ▸ rfl]
    exact .refl s'
  · rw [opened, if_neg (by simp [hstarted])]
    exact hbooks

/-! ## Agendas -/

/--
What was scheduled for a simulation was processed, in an order in which it may be, or it is to come.
Nothing that is to come is past, and nothing was when a task was taken. The present is not before
some time since which calls are looked at.
-/
structure Agenda (since : Duration) (bookings : List Booking) (history : List Step)
    (s : Simulation) : Prop where
  present : since ≤ s.now
  accounted : (history.map Step.entry ++ s.queue.entries).Perm (Booking.entries 0 bookings)
  scheduled : s.scheduled = bookings.length
  processed : s.statistics.eventsProcessed = history.length
  due : ∀ e ∈ s.queue.entries, s.now ≤ e.1.time
  passed : ∀ x ∈ history, x.key.time ≤ s.now
  ahead : ∀ x ∈ history, ∀ e ∈ s.queue.entries, x.key.Before e.1
  ordered : history.Pairwise fun x y => x.key.time ≤ y.before.now ∧ x.key.Before y.key
  taken : ∀ x ∈ history, x.before.queue.first? = some x.entry ∧
    ∀ e ∈ x.before.queue.entries, x.before.now ≤ e.1.time

namespace Agenda

theorem create (net : Network) (seed : UInt64) : Agenda 0 [] [] (create net seed) where
  present := Nat.le_refl 0
  accounted := .refl _
  scheduled := rfl
  processed := rfl
  due _ he := absurd he List.not_mem_nil
  passed _ hx := absurd hx List.not_mem_nil
  ahead _ hx := absurd hx List.not_mem_nil
  ordered := .nil
  taken _ hx := absurd hx List.not_mem_nil

/-- Only the queue, the time and what was counted matter. -/
theorem congr (h : Agenda since bookings history s) (hqueue : s'.queue = s.queue)
    (hscheduled : s'.scheduled = s.scheduled) (hstatistics : s'.statistics = s.statistics)
    (hnow : s'.now = s.now) : Agenda since bookings history s' where
  present := hnow ▸ h.present
  accounted := hqueue ▸ h.accounted
  scheduled := hscheduled.trans h.scheduled
  processed := hstatistics ▸ h.processed
  due := hqueue ▸ hnow ▸ h.due
  passed := hnow ▸ h.passed
  ahead := hqueue ▸ h.ahead
  ordered := h.ordered
  taken := h.taken

/-- Calls may be looked at since any moment. -/
theorem restart (h : Agenda since bookings history s) : Agenda s.now bookings history s :=
  { h with present := Nat.le_refl _ }

theorem sequence_le (h : Agenda since bookings history s) {e : Key × Task}
    (he : e ∈ history.map Step.entry ++ s.queue.entries) : e.1.sequence ≤ s.scheduled := by
  have hmem := List.mem_map_of_mem (f := fun e => e.1.sequence) (h.accounted.mem_iff.mp he)
  rw [Booking.sequences_entries] at hmem
  have hlt := List.mem_range'_1.mp hmem
  rw [h.scheduled]
  omega

/-- What is scheduled comes after all that was processed. -/
theorem books (h : Agenda since bookings history s) (hb : s.Books s' new) :
    Agenda since (bookings ++ new) history s' := by
  refine {
    present := hb.now ▸ h.present
    accounted := ?accounted
    scheduled := by rw [hb.scheduled, h.scheduled, List.length_append]
    processed := hb.processed.trans h.processed
    due := ?due
    passed := hb.now ▸ h.passed
    ahead := ?ahead
    ordered := h.ordered
    taken := h.taken }
  case accounted =>
    have hentries := hb.entries fun e he => h.sequence_le (List.mem_append_right _ he)
    rw [Booking.entries_append, Nat.zero_add, ← h.scheduled]
    refine (hentries.append_left _).trans ?_
    refine (List.perm_append_comm.append_left _).trans ?_
    rw [← List.append_assoc]
    exact h.accounted.append_right _
  case due =>
    intro e he
    rw [hb.now]
    rcases hb.mem he with ⟨b, hmem, _, _, rfl⟩ | he
    · exact hb.prompt b hmem
    · exact h.due e he
  case ahead =>
    intro x hx e he
    rcases hb.mem he with ⟨b, hmem, number, hnumber, rfl⟩ | he
    · have hle : x.key.sequence ≤ s.scheduled :=
        h.sequence_le (List.mem_append_left _ (List.mem_map.mpr ⟨x, hx, rfl⟩))
      exact ⟨(h.passed x hx).trans (hb.prompt b hmem), fun _ _ _ => Nat.lt_of_le_of_lt hle hnumber⟩
    · exact h.ahead x hx e he

/-- The task that is taken is the first one, so no other one is sooner. -/
theorem take (h : Agenda since bookings history s) (hq : s.queue.first? = some (key, task)) :
    Agenda since bookings (history ++ [⟨s, key, task⟩]) (s.take key task) := by
  have hentries := Queue.entries_of_first hq
  have hfirst := Queue.mem_of_first hq
  refine {
    present := h.present.trans (h.due _ hfirst)
    accounted := ?accounted
    scheduled := h.scheduled
    processed := by rw [List.length_append]; exact congrArg (· + 1) h.processed
    due := fun e he => Key.lt_time (Queue.first_lt hq he)
    passed := List.forall_mem_append.mpr ⟨fun x hx => (h.ahead x hx _ hfirst).time,
      List.forall_mem_singleton.mpr (Nat.le_refl key.time)⟩
    ahead := List.forall_mem_append.mpr ⟨?ahead,
      List.forall_mem_singleton.mpr fun e he => Key.before_of_lt (Queue.first_lt hq he)⟩
    ordered := List.pairwise_append.mpr ⟨h.ordered, List.pairwise_singleton _ _, ?ordered⟩
    taken := List.forall_mem_append.mpr ⟨h.taken,
      List.forall_mem_singleton.mpr ⟨hq, h.due⟩⟩ }
  case accounted =>
    have hall := h.accounted
    rw [hentries] at hall
    rwa [List.map_append, List.append_assoc]
  case ahead =>
    intro x hx e he
    refine h.ahead x hx e ?_
    rw [hentries]
    exact List.mem_cons_of_mem _ he
  case ordered =>
    intro x hx y hy
    rw [List.mem_singleton.mp hy]
    exact ⟨h.passed x hx, h.ahead x hx _ hfirst⟩

/-- A task that is processed leaves the simulation with what it schedules. -/
theorem step (h : Agenda since bookings history s) (hq : s.queue.first? = some (key, task))
    (hp : (s.take key task).process key task = .ok s') :
    Agenda since (bookings ++ Step.schedules ⟨s, key, task⟩) (history ++ [⟨s, key, task⟩]) s' := by
  obtain ⟨machines, hbooks⟩ := process_schedules hp
  have hchanged : Agenda since bookings _ { s.take key task with machines } :=
    (h.take hq).congr rfl rfl rfl rfl
  exact hchanged.books hbooks

end Agenda

/-- When nothing is to be done up to some time, all that is to come is later. -/
theorem later_of_idle {stop : Duration} (hidle : s.next? stop = none) {e : Key × Task}
    (he : e ∈ s.queue.entries) : stop < e.1.time := by
  cases hq : s.queue.first? with
  | none =>
    rw [List.head?_eq_none_iff.mp hq] at he
    exact absurd he List.not_mem_nil
  | some first =>
    obtain ⟨key, task⟩ := first
    have hlt : stop < key.time := by simpa [next?, hq, Option.filter] using hidle
    rw [Queue.entries_of_first hq] at he
    rcases List.mem_cons.mp he with rfl | he
    · exact hlt
    · exact Nat.lt_of_lt_of_le hlt (Key.lt_time (Queue.first_lt hq he))

namespace Agenda

/-- A run that has nothing more to do goes on to its end, and still nothing is past. -/
theorem settle {stop : Duration} (h : Agenda since bookings history s)
    (hidle : s.next? stop = none) : Agenda since bookings history (s.settle stop) where
  present := h.present.trans (Nat.le_max_left _ _)
  accounted := h.accounted
  scheduled := h.scheduled
  processed := h.processed
  due e he := Nat.max_le.mpr ⟨h.due e he, Nat.le_of_lt (later_of_idle hidle he)⟩
  passed x hx := (h.passed x hx).trans (Nat.le_max_left _ _)
  ahead := h.ahead
  ordered := h.ordered
  taken := h.taken

/-! ## Runs and calls -/

/-- A run keeps the agenda, whether or not it comes to its end. -/
theorem advance {stop : Duration} {budget : Nat} (h : Agenda since bookings history s)
    (hrun : (Simulation.advance stop budget s).left = .ok s') :
    Agenda since (bookings ++ (steps stop budget s).flatMap Step.schedules)
      (history ++ steps stop budget s) s' := by
  induction budget generalizing s bookings history with
  | zero =>
    rw [steps, List.flatMap_nil, List.append_nil, List.append_nil]
    unfold Simulation.advance at hrun
    split at hrun
    · next hidle => exact Except.ok.inj hrun ▸ h.settle hidle
    · exact Except.ok.inj hrun ▸ h
  | succ budget ih =>
    unfold Simulation.advance at hrun
    rw [steps]
    cases hnext : s.next? stop with
    | none =>
      rw [hnext] at hrun
      simp only [List.flatMap_nil, List.append_nil]
      exact Except.ok.inj hrun ▸ h.settle hnext
    | some next =>
      obtain ⟨key, task⟩ := next
      simp only [hnext] at hrun
      cases hp : (s.take key task).process key task with
      | error left =>
        rw [hp] at hrun
        exact absurd hrun (by simp [Outcome.left])
      | ok s₁ =>
        simp only [hp] at hrun ⊢
        have hfirst := (Option.filter_eq_some_iff.mp hnext).1
        have hrest := ih (h.step hfirst hp) hrun
        rwa [List.append_assoc, List.append_assoc] at hrest

theorem start (h : Agenda since bookings history s) (hs : s.start = .ok s') :
    Agenda since (bookings ++ s.opened) history s' := by
  have hstarted : Agenda since bookings history { s with started := true } :=
    h.congr rfl rfl rfl rfl
  exact hstarted.books (start_opened hs)

theorem call {c : Call} (h : Agenda since bookings history s) (hc : s.call c = .ok s') :
    Agenda since (bookings ++ s.bookedBy c) (history ++ s.processedBy c) s' := by
  cases c with
  | addSensor x =>
    simp only [bookedBy, processedBy, List.append_nil]
    rw [← Except.ok.inj hc]
    cases hx : s.addSensor x with
    | error e => exact h
    | ok s₁ =>
      obtain ⟨_, _, _, _, rfl⟩ := addSensor_ok_cases hx
      exact h.congr rfl rfl rfl rfl
  | addActuator x =>
    simp only [bookedBy, processedBy, List.append_nil]
    rw [← Except.ok.inj hc]
    cases hx : s.addActuator x with
    | error e => exact h
    | ok s₁ =>
      obtain ⟨_, _, _, _, rfl⟩ := addActuator_ok_cases hx
      exact h.congr rfl rfl rfl rfl
  | start =>
    simp only [bookedBy, processedBy, List.append_nil]
    exact h.start hc
  | inject device delay event =>
    simp only [bookedBy, processedBy, List.append_nil]
    exact h.books (scheduleAfter_books hc)
  | runUntil stop budget =>
    rw [Simulation.call, runUntil] at hc
    cases hstart : s.start with
    | error left =>
      rw [hstart] at hc
      exact absurd hc (by simp [Outcome.left])
    | ok s₁ =>
      rw [hstart] at hc
      rw [bookedBy, processedBy, stepsUntil, hstart, ← List.append_assoc]
      exact (h.start hstart).advance hc

/-- A run that comes to its end leaves only what is later, and does not set the time back. -/
theorem ends {stop : Duration} (h : Agenda since bookings history s) (hends : Ends stop s s') :
    (∀ e ∈ s'.queue.entries, stop < e.1.time) ∧ s'.now = max s.now stop := by
  induction hends generalizing bookings history with
  | idle hidle => exact ⟨fun e he => later_of_idle hidle he, rfl⟩
  | @step s s₁ s' key task hnext hp hrest ih =>
    have hfirst := (Option.filter_eq_some_iff.mp hnext).1
    obtain ⟨hlater, hnow⟩ := ih (h.step hfirst hp)
    refine ⟨hlater, hnow.trans ?_⟩
    have htime : s.now ≤ key.time := h.due _ (Queue.mem_of_first hfirst)
    have hstop := next?_time hnext
    rw [process_now hp, show (s.take key task).now = key.time from rfl, Nat.max_eq_right hstop,
      Nat.max_eq_right (htime.trans hstop)]

end Agenda

/-- Whatever is called, all that was scheduled is accounted for. -/
theorem agenda_drive {calls : List Call} (h : Agenda since bookings history s)
    (hdrive : drive calls s = .ok s') :
    Agenda since (bookings ++ booked calls s) (history ++ processed calls s) s' := by
  induction calls generalizing s bookings history with
  | nil =>
    rw [booked, processed, List.append_nil, List.append_nil]
    exact Except.ok.inj hdrive ▸ h
  | cons c calls ih =>
    obtain ⟨s₁, hc, hrest⟩ := drive_cons hdrive
    rw [booked, processed, hc, ← List.append_assoc, ← List.append_assoc]
    exact ih (h.call hc) hrest

/--
After any calls time has not gone back, and it does not go back at the next one. Nothing that is to
come is past, nor was it when a task was taken, which was always the first one. All that was
scheduled was processed once, at its time, or it is still to come; nothing was replaced. Of two
tasks of one device at one time and with one priority, the first one that was scheduled was
processed first. A run that comes to its end leaves only what is later, at the later of the present
time and its end.
-/
theorem tasks_accounted {calls : List Call} (h : drive calls (create net seed) = .ok s) :
    let history := processed calls (create net seed)
    let scheduled := booked calls (create net seed)
    (∀ x ∈ history, x.before.now ≤ x.key.time ∧ x.key.time ≤ s.now) ∧
    (history.Pairwise fun x y => x.key.time ≤ y.before.now) ∧
    (∀ c s', s.call c = .ok s' → s.now ≤ s'.now) ∧
    (∀ e ∈ s.queue.entries, s.now ≤ e.1.time) ∧
    (∀ x ∈ history, x.before.queue.first? = some x.entry ∧
      ∀ e ∈ x.before.queue.entries, x.before.now ≤ e.1.time) ∧
    (history.map Step.entry ++ s.queue.entries).Perm (Booking.entries 0 scheduled) ∧
    s.statistics.eventsProcessed = history.length ∧
    s.statistics.eventsProcessed + s.pendingEvents = scheduled.length ∧
    (history.Pairwise fun x y => x.key.time = y.key.time → x.key.priority = y.key.priority →
      x.key.device = y.key.device → x.key.sequence < y.key.sequence) ∧
    ∀ stop budget s', s.runUntil stop budget = .finished s' →
      (∀ e ∈ s'.queue.entries, stop < e.1.time) ∧ s'.now = max s.now stop := by
  intro history scheduled
  have hagenda : Agenda 0 scheduled history s := agenda_drive (.create net seed) h
  refine ⟨fun x hx => ⟨?_, hagenda.passed x hx⟩, hagenda.ordered.imp And.left, ?_, hagenda.due,
    hagenda.taken, hagenda.accounted, hagenda.processed, ?_,
    hagenda.ordered.imp fun hxy => hxy.2.turn, ?_⟩
  · obtain ⟨hfirst, hdue⟩ := hagenda.taken x hx
    exact hdue _ (Queue.mem_of_first hfirst)
  · exact fun c s' hc => (hagenda.restart.call hc).present
  · have hlength := hagenda.accounted.length_eq
    rw [List.length_append, List.length_map, Booking.entries, List.length_map,
      List.length_zipIdx] at hlength
    rw [hagenda.processed]
    exact hlength
  · intro stop budget s' hrun
    obtain ⟨s₀, hstart, hends⟩ := runUntil_iff.mp ⟨budget, hrun⟩
    have hend := (hagenda.start hstart).ends hends
    rwa [start_now hstart] at hend

/--
Events from outside come before the start and in the middle of an instant. One run ends before the
present time, and the budget of the last one is too small.
-/
def phoneCalls : List Call :=
  [.addSensor
      { id := 1, gateway := 2, app := "a", tupleType := "t", interval := Duration.ofMillis 500 },
    .inject 2 (Duration.ofMillis 300) (.serviceDiscoveryUpdate "x" 1),
    .runUntil (Duration.ofMillis 300) 60,
    .inject 2 0 (.serviceDiscoveryUpdate "x" 2),
    .inject 2 0 (.serviceDiscoveryUpdate "x" 1),
    .runUntil (Duration.ofMillis 100) 60,
    .runUntil (Duration.ofMillis 300) 1]

/-- Seven of ten tasks were processed, and a run that ends right now leaves the time as it is. -/
theorem tasks_accounted_phone : ∃ s, drive phoneCalls (create phoneNetwork 0) = .ok s
    ∧ s.now = Duration.ofMillis 300 ∧ s.pendingEvents = 3
    ∧ (processed phoneCalls (create phoneNetwork 0)).length = 7
    ∧ (booked phoneCalls (create phoneNetwork 0)).length = 10
    ∧ ∀ budget s', s.runUntil (Duration.ofMillis 300) budget = .finished s' → s'.now = s.now := by
  obtain ⟨s, hs, hp⟩ := exists_of_leavesWith (p := fun s => decide (s.now = Duration.ofMillis 300
      ∧ s.pendingEvents = 3 ∧ s.statistics.eventsProcessed = 7))
    (show leavesWith _ (drive phoneCalls (create phoneNetwork 0)) = true by decide +kernel)
  obtain ⟨hnow, hpending, hprocessed⟩ := of_decide_eq_true hp
  obtain ⟨_, _, _, _, _, _, hhistory, hscheduled, _, hends⟩ := tasks_accounted hs
  rw [hprocessed] at hhistory
  rw [hprocessed, hpending] at hscheduled
  refine ⟨s, hs, hnow, hpending, hhistory.symm, hscheduled.symm, fun budget s' hrun => ?_⟩
  rw [(hends _ budget s' hrun).2, hnow, Nat.max_self]

end Simulation

end FogNet
