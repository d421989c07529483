import FogNet.Proofs.Simulation.Tally

/-!
# What steps schedule

All that a simulation does for the actions of a device, for a sensor or for an execution is to
schedule tasks, besides what it counts. Which tasks these are can be told from the actions. They are
numbered in the order in which they are scheduled, and none is due before the present instant.

So along a run the numbers of the tasks that were processed, and of those in the queue, are all that
were given out, and time never goes back.

## Main statements

* `performAll_books`, `start_books`, `tick_books`, `complete_books` — what is scheduled
* `start_opens`, `tick_emits` — just what the start and a sensor schedule
* `process_books` — what a step schedules, whatever it is
* `kept_of_ran` — the queue of a reached simulation and its history
-/

namespace FogNet

open List (Perm)

/-! ## Bookings -/

/-- A task that is to be scheduled. -/
structure Booking where
  device : DeviceId
  time : Duration
  task : Task

namespace Booking

/-- The place of a booking in the queue. -/
def key (b : Booking) (number : Nat) : Key := ⟨b.time, b.task.priority, b.device, number⟩

/-- What bookings come to in a queue, when some tasks were scheduled before. -/
def entries (scheduled : Nat) (bookings : List Booking) : List (Key × Task) :=
  (bookings.zipIdx (scheduled + 1)).map fun b => (b.1.key b.2, b.1.task)

variable {n : Nat} {b : Booking} {bookings : List Booking} {e : Key × Task}

theorem entries_cons (n : Nat) (b : Booking) (bookings : List Booking) :
    entries n (b :: bookings) = (b.key (n + 1), b.task) :: entries (n + 1) bookings := rfl

theorem entries_append (n : Nat) (bookings bookings' : List Booking) :
    entries n (bookings ++ bookings')
      = entries n bookings ++ entries (n + bookings.length) bookings' := by
  rw [entries, List.zipIdx_append, List.map_append, Nat.add_right_comm]
  rfl

theorem sequences_entries (n : Nat) (bookings : List Booking) :
    (entries n bookings).map (fun e => e.1.sequence) = List.range' (n + 1) bookings.length := by
  rw [entries, List.map_map, ← List.zipIdx_map_snd (n + 1) bookings]
  rfl

/-- What does not depend on the numbers of entries can be read off the bookings. -/
theorem filterMap_entries {α : Type} {f : Key × Task → Option α}
    (hf : ∀ (b : Booking) (number : Nat), f (b.key number, b.task) = f (b.key 0, b.task)) :
    ∀ (n : Nat) (bookings : List Booking),
      (entries n bookings).filterMap f = bookings.filterMap fun b => f (b.key 0, b.task)
  | _, [] => rfl
  | n, b :: bookings => by
    rw [entries_cons, List.filterMap_cons, List.filterMap_cons, hf,
      filterMap_entries hf (n + 1) bookings]

theorem exists_of_mem_entries (h : e ∈ entries n bookings) :
    ∃ b ∈ bookings, ∃ number, n < number ∧ e = (b.key number, b.task) := by
  obtain ⟨⟨b, number⟩, hb, rfl⟩ := List.mem_map.mp h
  exact ⟨b, List.fst_mem_of_mem_zipIdx hb, number, List.le_snd_of_mem_zipIdx hb, rfl⟩

theorem exists_mem_entries (n : Nat) (h : b ∈ bookings) :
    ∃ number, (b.key number, b.task) ∈ entries n bookings := by
  obtain ⟨i, hi⟩ := List.getElem?_of_mem h
  have hb := List.mem_zipIdx_iff_le_and_getElem?_sub.mpr
    (show n + 1 ≤ (b, n + 1 + i).2 ∧ bookings[(b, n + 1 + i).2 - (n + 1)]? = some (b, n + 1 + i).1
      from ⟨Nat.le_add_right _ _, by simpa using hi⟩)
  exact ⟨n + 1 + i, List.mem_map.mpr ⟨_, hb, rfl⟩⟩

end Booking

/-! ## The order of the queue -/

namespace Key

variable {a b : Key}

/-- What is sooner comes first. -/
theorem lt_of_time (h : a.time < b.time) : compare a b = .lt := by
  change (compare a.time b.time).then _ = .lt
  rw [Nat.compare_eq_lt.mpr h]
  rfl

/-- What is more urgent comes first at one time. -/
theorem lt_of_priority (ht : a.time = b.time) (hp : compare a.priority b.priority = .lt) :
    compare a b = .lt := by
  change (compare a.time b.time).then ((compare a.priority b.priority).then _) = .lt
  rw [ht, Nat.compare_eq_eq.mpr rfl, hp]
  rfl

end Key

namespace Queue

variable {q : Queue} {key : Key} {task : Task} {e : Key × Task}

/-- Entries come into a queue one after another. -/
def insertAll (q : Queue) (l : List (Key × Task)) : Queue := l.foldl (fun q e => q.insert e.1 e.2) q

theorem insertAll_append (q : Queue) (l l' : List (Key × Task)) :
    q.insertAll (l ++ l') = (q.insertAll l).insertAll l' := List.foldl_append

theorem mem_insertAll : ∀ {l : List (Key × Task)} {q : Queue},
    e ∈ SortedMap.entries (q.insertAll l) → e ∈ l ∨ e ∈ q.entries
  | [], _, h => Or.inr h
  | x :: l, q, h => by
    rcases mem_insertAll (q := q.insert x.1 x.2) (l := l) h with h | h
    · exact Or.inl (List.mem_cons_of_mem x h)
    · rcases SortedMap.mem_insertEntry h with rfl | h
      · exact Or.inl List.mem_cons_self
      · exact Or.inr h

/-- Bookings are numbered anew, so they replace nothing in the queue. -/
theorem insertAll_entries : ∀ (bookings : List Booking) {q : Queue} {n : Nat},
    (∀ e ∈ q.entries, e.1.sequence ≤ n) → (SortedMap.entries
      (q.insertAll (Booking.entries n bookings))).Perm (Booking.entries n bookings ++ q.entries)
  | [], _, _, _ => Perm.refl _
  | b :: bookings, q, n, h => by
    have hnew : q.get? (b.key (n + 1)) = none := by
      rw [← Option.not_isSome_iff_eq_none, Option.isSome_iff_exists]
      rintro ⟨task, hget⟩
      exact Nat.not_succ_le_self n (h _ ((SortedMap.mem_entries_iff _ _ _).mpr hget))
    have hinsert := SortedMap.entries_insert_new hnew b.task
    have hrest := insertAll_entries bookings (q := q.insert (b.key (n + 1)) b.task) (n := n + 1)
      fun e he => by
        rcases SortedMap.mem_insertEntry he with rfl | he
        · exact Nat.le_refl _
        · exact Nat.le_succ_of_le (h e he)
    exact (hrest.trans (hinsert.append_left _)).trans List.perm_middle

theorem mem_of_first (h : q.first? = some (key, task)) : (key, task) ∈ q.entries := by
  rw [entries_of_first h]
  exact List.mem_cons_self

/-- The first task of a queue comes before all others. -/
theorem first_lt (h : q.first? = some (key, task)) {e : Key × Task}
    (he : e ∈ SortedMap.entries q.dropFirst) : compare key e.1 = .lt := by
  have hsorted := q.sorted
  rw [entries_of_first h] at hsorted
  exact (List.pairwise_cons.mp hsorted).1 e he

end Queue

namespace Simulation

variable {net : Network} {seed : UInt64} {s s' : Simulation} {bookings : List Booking}

/-- What is scheduled for an action of a device. -/
def booking? (s : Simulation) (device : DeviceId) : Action → Option Booking
  | .transmit target _ message transmission latency =>
    some ⟨target, s.now + (transmission + latency), .device (.messageArrived message)⟩
  | .deliver target event =>
    if s.machines.contains target then some ⟨target, s.now, .device event⟩ else none
  | .setTimer timer duration => some ⟨device, s.now + duration, .device timer.event⟩
  | .enqueueInternal event => some ⟨device, s.now, .device event⟩
  | .execute target message => (s.executionTime message).map fun delay =>
      ⟨target.device, s.now + delay, .executionCompleted target message⟩
  | .deliverToActuator _ _ | .recordDrop _ _ | .recordCloudTraffic _ => none

/-- What an action schedules, and where and when. -/
inductive Booked (s : Simulation) (device : DeviceId) : Action → Booking → Prop
  | transmit (target : DeviceId) (link : LinkKind) (message : Message)
      (transmission latency : Duration) :
      Booked s device (.transmit target link message transmission latency)
        ⟨target, s.now + (transmission + latency), .device (.messageArrived message)⟩
  | deliver {target : DeviceId} (event : Event) : s.machines.contains target = true →
      Booked s device (.deliver target event) ⟨target, s.now, .device event⟩
  | setTimer (timer : Timer) (duration : Duration) :
      Booked s device (.setTimer timer duration) ⟨device, s.now + duration, .device timer.event⟩
  | enqueueInternal (event : Event) :
      Booked s device (.enqueueInternal event) ⟨device, s.now, .device event⟩
  | execute {target : InstanceId} {message : Message} {delay : Duration} :
      s.executionTime message = some delay →
      Booked s device (.execute target message)
        ⟨target.device, s.now + delay, .executionCompleted target message⟩

theorem booked_of_booking? {device : DeviceId} {a : Action} {b : Booking}
    (h : s.booking? device a = some b) : s.Booked device a b := by
  cases a with
  | transmit target link message transmission latency =>
    exact Option.some.inj h ▸ .transmit target link message transmission latency
  | deliver target event =>
    rw [booking?] at h
    split at h
    · next hknown => exact Option.some.inj h ▸ .deliver event hknown
    · cases h
  | setTimer timer duration => exact Option.some.inj h ▸ .setTimer timer duration
  | enqueueInternal event => exact Option.some.inj h ▸ .enqueueInternal event
  | execute target message =>
    obtain ⟨_, hdelay, rfl⟩ := Option.map_eq_some_iff.mp h
    exact .execute hdelay
  | deliverToActuator _ _ | recordDrop _ _ | recordCloudTraffic _ => cases h

/-- An action means the same in a network with the same devices at the same time. -/
theorem booking?_congr (hnetwork : s'.network = s.network)
    (hmachines : ∀ d, s'.machines.contains d = s.machines.contains d) (hnow : s'.now = s.now)
    (device : DeviceId) : s'.booking? device = s.booking? device := by
  funext a
  cases a <;> simp only [booking?, executionTime, hnetwork, hmachines, hnow]

/--
Bookings come to the queue of a simulation, and nothing else changes but what is counted. No task
counts as processed.
-/
structure Books (s s' : Simulation) (bookings : List Booking) : Prop where
  frame : s' = { s with
    queue := s'.queue, scheduled := s'.scheduled, generator := s'.generator
    lastMessage := s'.lastMessage, statistics := s'.statistics, log := s'.log }
  queue : s'.queue = s.queue.insertAll (Booking.entries s.scheduled bookings)
  scheduled : s'.scheduled = s.scheduled + bookings.length
  prompt : ∀ b ∈ bookings, s.now ≤ b.time
  processed : s'.statistics.eventsProcessed = s.statistics.eventsProcessed

namespace Books

theorem network (h : s.Books s' bookings) : s'.network = s.network := by rw [h.frame]

theorem machines (h : s.Books s' bookings) : s'.machines = s.machines := by rw [h.frame]

theorem sensors (h : s.Books s' bookings) : s'.sensors = s.sensors := by rw [h.frame]

theorem now (h : s.Books s' bookings) : s'.now = s.now := by rw [h.frame]

theorem started (h : s.Books s' bookings) : s'.started = s.started := by rw [h.frame]

theorem refl (s : Simulation) : s.Books s [] := ⟨rfl, rfl, rfl, by simp, rfl⟩

theorem trans {s₁ s₂ s₃ : Simulation} {bookings bookings' : List Booking}
    (h : s₁.Books s₂ bookings) (h' : s₂.Books s₃ bookings') :
    s₁.Books s₃ (bookings ++ bookings') where
  frame := by
    have hframe := h'.frame
    rw [h.frame] at hframe
    exact hframe
  queue := by
    rw [h'.queue, h.queue, h.scheduled, Booking.entries_append, Queue.insertAll_append]
  scheduled := by rw [h'.scheduled, h.scheduled, List.length_append, Nat.add_assoc]
  prompt := List.forall_mem_append.mpr ⟨h.prompt, h.now ▸ h'.prompt⟩
  processed := h'.processed.trans h.processed

theorem booking? (h : s.Books s' bookings) (device : DeviceId) :
    s'.booking? device = s.booking? device :=
  booking?_congr h.network (fun _ => by rw [h.machines]) h.now device

/-- What is in the queue afterwards was there before, or is scheduled. -/
theorem mem (h : s.Books s' bookings) {e : Key × Task} (he : e ∈ s'.queue.entries) :
    (∃ b ∈ bookings, ∃ number, s.scheduled < number ∧ e = (b.key number, b.task))
      ∨ e ∈ s.queue.entries := by
  rw [h.queue] at he
  rcases Queue.mem_insertAll he with he | he
  · exact Or.inl (Booking.exists_of_mem_entries he)
  · exact Or.inr he

theorem entries (h : s.Books s' bookings)
    (hn : ∀ e ∈ s.queue.entries, e.1.sequence ≤ s.scheduled) :
    s'.queue.entries.Perm (Booking.entries s.scheduled bookings ++ s.queue.entries) := by
  rw [h.queue]
  exact Queue.insertAll_entries bookings hn

theorem filterMap_entries {α : Type} {f : Key × Task → Option α} (h : s.Books s' bookings)
    (hn : ∀ e ∈ s.queue.entries, e.1.sequence ≤ s.scheduled)
    (hf : ∀ (b : Booking) (number : Nat), f (b.key number, b.task) = f (b.key 0, b.task)) :
    (s'.queue.entries.filterMap f).Perm
      ((bookings.filterMap fun b => f (b.key 0, b.task)) ++ s.queue.entries.filterMap f) := by
  have hperm := (h.entries hn).filterMap f
  rwa [List.filterMap_append, Booking.filterMap_entries hf] at hperm

end Books

theorem schedule_books (s : Simulation) (device : DeviceId) {time : Duration} (task : Task)
    (h : s.now ≤ time) : s.Books (s.schedule device time task) [⟨device, time, task⟩] :=
  ⟨rfl, rfl, rfl, by simpa using h, rfl⟩

theorem scheduleNow_books (s : Simulation) (device : DeviceId) (task : Task) :
    s.Books (s.scheduleNow device task) [⟨device, s.now, task⟩] :=
  schedule_books s device task (Nat.le_refl _)

theorem scheduleAfter_books {device : DeviceId} {delay : Duration} {task : Task}
    (h : s.scheduleAfter device delay task = .ok s') :
    s.Books s' [⟨device, s.now + delay, task⟩] := by
  obtain ⟨_, rfl⟩ := scheduleAfter_ok_cases h
  exact schedule_books s device task (Nat.le_add_right _ _)

theorem count_books (s : Simulation) (f : Statistics → Statistics)
    (hf : (f s.statistics).eventsProcessed = s.statistics.eventsProcessed) :
    s.Books (s.count f) [] :=
  ⟨rfl, rfl, rfl, by simp, hf⟩

theorem record_books (s : Simulation) (m : Metric) : s.Books (s.record m) [] :=
  ⟨rfl, rfl, rfl, by simp, rfl⟩

/-! ## Actions -/

theorem foldl_closeLoop_books (app : AppId) (latency : Duration) : ∀ (loops : List LoopId)
    (s : Simulation), s.Books (loops.foldl (closeLoop app latency) s) []
  | [], s => Books.refl s
  | _ :: loops, s =>
    ((count_books s _ rfl).trans (record_books _ _)).trans
      (foldl_closeLoop_books app latency loops _)

theorem actuate_books {actuator : ActuatorId} {message : Message}
    (h : s.actuate actuator message = .ok s') : s.Books s' [] := by
  unfold actuate at h
  split at h
  · rw [← Except.ok.inj h]
    exact .refl s
  · next a _ =>
    cases hl : s.later a.latency with
    | error e => rw [hl] at h; exact absurd h (by simp [bind, Except.bind])
    | ok arrival =>
      rw [hl] at h
      simp only [bind, Except.bind] at h
      split at h
      · rw [← Except.ok.inj h]
        exact count_books s _ rfl
      · rw [← Except.ok.inj h]
        exact (count_books s _ rfl).trans (foldl_closeLoop_books _ _ _ _)

/-- Carrying out an action schedules what the action means. -/
theorem perform_books {device : DeviceId} {a : Action} (h : s.perform device a = .ok s') :
    s.Books s' (s.booking? device a).toList := by
  cases a with
  | transmit target link message transmission latency =>
    exact ((count_books s _ rfl).trans (record_books _ _)).trans (scheduleAfter_books h)
  | deliver target event =>
    rw [← Except.ok.inj h, booking?]
    split
    · exact scheduleNow_books s target (.device event)
    · exact .refl s
  | setTimer timer duration =>
    simp only [perform] at h
    cases ht : s.scheduleAfter device duration (.device timer.event) with
    | error e => simp [ht, Except.map] at h
    | ok s₁ =>
      simp only [ht, Except.map, Except.ok.injEq] at h
      exact h ▸ (scheduleAfter_books ht).trans (count_books s₁ _ rfl)
  | enqueueInternal event =>
    rw [← Except.ok.inj h]
    exact scheduleNow_books s device (.device event)
  | execute target message =>
    simp only [perform, execute] at h
    split at h
    · simp at h
    · next delay hdelay =>
      rw [booking?, hdelay]
      exact ((count_books s _ rfl).trans (record_books _ _)).trans (scheduleAfter_books h)
  | deliverToActuator actuator message => exact actuate_books h
  | recordDrop id reason =>
    rw [← Except.ok.inj h]
    exact count_books s _ rfl
  | recordCloudTraffic id =>
    rw [← Except.ok.inj h]
    exact count_books s _ rfl

theorem performAll_books {device : DeviceId} : ∀ {actions : List Action} {s : Simulation},
    s.performAll device actions = .ok s' → s.Books s' (actions.filterMap (s.booking? device))
  | [], s, h => by
    rw [← Except.ok.inj h]
    exact .refl s
  | a :: actions, s, h => by
    unfold performAll at h
    split at h
    · simp at h
    · next s₁ ha =>
      have hfirst := perform_books ha
      have hrest := performAll_books h
      rw [hfirst.booking? device] at hrest
      have hall := hfirst.trans hrest
      rw [List.filterMap_cons]
      cases hb : s.booking? device a <;> rwa [hb] at hall

/-! ## The start -/

/-- What a simulation starts with for a machine. -/
def machineOpening (s : Simulation) (m : Machine) : List Booking :=
  m.start.filterMap (s.booking? m.id)

/-- What a simulation starts with for a sensor: its request, and its first interval. -/
def sensorOpening (s : Simulation) (sensor : Sensor) : List Booking :=
  match s.network.application? sensor.app with
  | none => []
  | some app =>
    ((s.network.topology.orchestratorFor sensor.gateway).map fun root =>
      (⟨root, s.now, .device (.placementRequestSubmitted (sensorRequest sensor app))⟩ :
        Booking)).toList
      ++ [⟨sensor.gateway, s.now + sensor.interval, .sensorTick sensor.id⟩]

/-- What a simulation starts with. -/
def openings (s : Simulation) : List Booking :=
  s.machines.values.flatMap s.machineOpening ++ s.sensors.values.flatMap s.sensorOpening

theorem startMachine_books {m : Machine} (h : s.startMachine m = .ok s') :
    s.Books s' (s.machineOpening m) := performAll_books h

theorem startSensor_books {sensor : Sensor} (h : s.startSensor sensor = .ok s') :
    s.Books s' (s.sensorOpening sensor) := by
  cases ha : s.network.application? sensor.app with
  | none =>
    simp only [startSensor, ha, Except.ok.injEq] at h
    rw [sensorOpening, ha, ← h]
    exact .refl s
  | some app =>
    cases hroot : s.network.topology.orchestratorFor sensor.gateway with
    | none =>
      simp only [startSensor, ha, hroot] at h
      rw [sensorOpening, ha, hroot]
      exact scheduleAfter_books h
    | some root =>
      simp only [startSensor, ha, hroot] at h
      rw [sensorOpening, ha, hroot]
      exact (scheduleNow_books s root _).trans (scheduleAfter_books h)

theorem Books.machineOpening (h : s.Books s' bookings) : s'.machineOpening = s.machineOpening := by
  funext m
  rw [Simulation.machineOpening, h.booking?, Simulation.machineOpening]

theorem Books.sensorOpening (h : s.Books s' bookings) : s'.sensorOpening = s.sensorOpening := by
  funext sensor
  rw [Simulation.sensorOpening, h.network, h.now, Simulation.sensorOpening]

/-- A loop over parts of the setup, which opens with some tasks for each of them. -/
theorem foldlM_books {α : Type} {f : Simulation → α → Except Overflow Simulation}
    {opening : Simulation → α → List Booking}
    (hcongr : ∀ {s s' : Simulation} {bookings : List Booking},
      s.Books s' bookings → opening s' = opening s)
    (hf : ∀ {s s' : Simulation} {a : α}, f s a = .ok s' → s.Books s' (opening s a)) :
    ∀ {l : List α} {s : Simulation}, l.foldlM f s = .ok s' → s.Books s' (l.flatMap (opening s))
  | [], s, h => by
    rw [← Except.ok.inj h]
    exact .refl s
  | a :: l, s, h => by
    rw [List.foldlM_cons] at h
    cases ha : f s a with
    | error e => rw [ha] at h; exact absurd h (by simp [bind, Except.bind])
    | ok s₁ =>
      rw [ha] at h
      have hfirst := hf ha
      have hrest := foldlM_books hcongr hf h
      rw [hcongr hfirst] at hrest
      exact hfirst.trans hrest

/-- What the start schedules. It happens once: later there is nothing to be scheduled. -/
theorem start_opens (h : s.start = .ok s') : (s.started = true ∧ s' = s)
    ∨ (s.started = false ∧ Books { s with started := true } s' s.openings) := by
  unfold start at h
  split at h
  · next hstarted => exact Or.inl ⟨hstarted, (Except.ok.inj h).symm⟩
  · next hstarted =>
    simp only at h
    cases hm : s.machines.values.foldlM startMachine { s with started := true } with
    | error e => rw [hm] at h; exact absurd h (by simp [bind, Except.bind])
    | ok s₁ =>
      rw [hm] at h
      have hmachines := foldlM_books Books.machineOpening startMachine_books hm
      have hsensors := foldlM_books Books.sensorOpening startSensor_books h
      rw [hmachines.sensors, hmachines.sensorOpening] at hsensors
      exact Or.inr ⟨by simpa using hstarted, hmachines.trans hsensors⟩

/-- What a simulation starts with, for its machines and for its sensors. -/
inductive Opening (s : Simulation) : Booking → Prop
  | machine {m : Machine} {a : Action} {b : Booking} : m ∈ s.machines.values → a ∈ m.start →
      s.booking? m.id a = some b → Opening s b
  | request {sensor : Sensor} {app : Application} {root : DeviceId} : sensor ∈ s.sensors.values →
      s.network.application? sensor.app = some app →
      s.network.topology.orchestratorFor sensor.gateway = some root →
      Opening s ⟨root, s.now, .device (.placementRequestSubmitted (sensorRequest sensor app))⟩
  | interval {sensor : Sensor} : sensor ∈ s.sensors.values →
      Opening s ⟨sensor.gateway, s.now + sensor.interval, .sensorTick sensor.id⟩

theorem opening_of_mem {b : Booking} (h : b ∈ s.openings) : s.Opening b := by
  rcases List.mem_append.mp h with h | h
  · obtain ⟨m, hm, h⟩ := List.mem_flatMap.mp h
    obtain ⟨a, ha, hb⟩ := List.mem_filterMap.mp h
    exact .machine hm ha hb
  · obtain ⟨x, hx, h⟩ := List.mem_flatMap.mp h
    unfold sensorOpening at h
    split at h
    · cases h
    · next app ha =>
      rcases List.mem_append.mp h with h | h
      · obtain ⟨root, hroot, rfl⟩ := Option.map_eq_some_iff.mp (Option.mem_toList.mp h)
        exact .request hx ha hroot
      · rw [List.mem_singleton.mp h]
        exact .interval hx

theorem start_books (h : s.start = .ok s') : ∃ bookings,
    Books { s with started := true } s' bookings ∧ ∀ b ∈ bookings, s.Opening b := by
  rcases start_opens h with ⟨hstarted, rfl⟩ | ⟨_, hbooks⟩
  · refine ⟨[], ?_, by simp⟩
    rw [show { s' with started := true } = s' from hstarted ▸ rfl]
    exact .refl s'
  · exact ⟨_, hbooks, fun b hb => opening_of_mem hb⟩

/-! ## New messages -/

/-- What a sensor schedules when its interval is over: a message, and the next interval. -/
def emissions (s : Simulation) (id : SensorId) (sensor : Sensor) (app : Application) :
    List Booking :=
  ((app.sensorMessage? sensor.tupleType (s.lastMessage + 1) s.now).map fun message =>
    (⟨sensor.gateway, s.now + sensor.latency,
      .device (.messageArrived { message with destinationDevice := some sensor.gateway })⟩ :
        Booking)).toList
    ++ [⟨sensor.gateway, s.now + sensor.interval, .sensorTick id⟩]

theorem tick_emits {id : SensorId} {sensor : Sensor} {app : Application}
    (hx : s.sensors.get? id = some sensor) (ha : s.network.application? sensor.app = some app)
    (h : s.tick id = .ok s') : s.Books s' (s.emissions id sensor app) := by
  simp only [tick, hx, ha] at h
  cases he : s.emit sensor app with
  | error e => rw [he] at h; exact absurd h (by simp [bind, Except.bind])
  | ok s₁ =>
    rw [he] at h
    have hnumber : s.Books { s with lastMessage := s.lastMessage + 1 } [] :=
      ⟨rfl, rfl, rfl, by simp, rfl⟩
    unfold emit at he
    unfold emissions
    simp only at he
    split at he
    · next hmessage =>
      obtain rfl := Except.ok.inj he
      rw [hmessage]
      exact hnumber.trans (scheduleAfter_books h)
    · next message hmessage =>
      have harrival := (hnumber.trans (count_books _ _ rfl)).trans (scheduleAfter_books he)
      have hinterval := scheduleAfter_books h
      rw [harrival.now] at hinterval
      rw [hmessage]
      exact harrival.trans hinterval

/-- What a sensor is good for when its interval is over: a message and the next interval. -/
inductive Emission (s : Simulation) (id : SensorId) : Booking → Prop
  | arrival {sensor : Sensor} {app : Application} {message : Message} :
      s.sensors.get? id = some sensor → s.network.application? sensor.app = some app →
      app.sensorMessage? sensor.tupleType (s.lastMessage + 1) s.now = some message →
      Emission s id ⟨sensor.gateway, s.now + sensor.latency,
        .device (.messageArrived { message with destinationDevice := some sensor.gateway })⟩
  | interval {sensor : Sensor} : s.sensors.get? id = some sensor →
      Emission s id ⟨sensor.gateway, s.now + sensor.interval, .sensorTick id⟩

theorem tick_books {id : SensorId} (h : s.tick id = .ok s') :
    ∃ bookings, s.Books s' bookings ∧ ∀ b ∈ bookings, s.Emission id b := by
  cases hx : s.sensors.get? id with
  | none =>
    simp only [tick, hx, Except.ok.injEq] at h
    exact ⟨[], h ▸ .refl s, by simp⟩
  | some sensor =>
    cases ha : s.network.application? sensor.app with
    | none =>
      simp only [tick, hx, ha, Except.ok.injEq] at h
      exact ⟨[], h ▸ .refl s, by simp⟩
    | some app =>
      refine ⟨_, tick_emits hx ha h, List.forall_mem_append.mpr ⟨fun b hb => ?_, ?_⟩⟩
      · obtain ⟨_, hmessage, rfl⟩ := Option.map_eq_some_iff.mp (Option.mem_toList.mp hb)
        exact .arrival hx ha hmessage
      · simpa using .interval hx

/-- The messages that an instance answers a message with. -/
def outputs (s : Simulation) (message : Message) : List Message :=
  match s.network.application? message.app with
  | none => []
  | some app => (app.resultants message.destination message (s.lastMessage + 1) s.generator).1

theorem foldl_arrivals_books (device : DeviceId) : ∀ (outputs : List Message) (s : Simulation),
    s.Books (outputs.foldl (fun s output =>
      s.scheduleNow device (.device (.messageArrived output))) s)
      (outputs.map fun output => ⟨device, s.now, .device (.messageArrived output)⟩)
  | [], s => .refl s
  | _ :: outputs, s =>
    (scheduleNow_books s device _).trans (foldl_arrivals_books device outputs _)

theorem complete_books (s : Simulation) (target : InstanceId) (message : Message) :
    s.Books (s.complete target message) ((s.outputs message).map fun output =>
      ⟨target.device, s.now, .device (.messageArrived output)⟩) := by
  unfold complete outputs
  cases s.network.application? message.app with
  | none => exact .refl s
  | some app =>
    simp only
    rcases app.resultants message.destination message (s.lastMessage + 1) s.generator with
      ⟨outputs, generator⟩
    have hnumber : s.Books { s with generator, lastMessage := s.lastMessage + outputs.length } [] :=
      ⟨rfl, rfl, rfl, by simp, rfl⟩
    exact hnumber.trans (foldl_arrivals_books target.device outputs _)

/-! ## Steps -/

/-- An event to a device changes its machine, and what the device does about it is scheduled. -/
theorem happen_books {device : DeviceId} {event : Event} (h : s.happen device event = .ok s') :
    (s.machine? device = none ∧ s' = s)
      ∨ ∃ m actions m', s.machine? device = some m
        ∧ ({ m with now := s.now }.handle s.network event).value = some (actions, m')
        ∧ Books { s with machines := s.machines.insert device m' } s'
            (actions.filterMap (s.booking? device)) := by
  rcases happen_cases h with hnone | ⟨m, actions, m', log, hm, hvalue, hall⟩
  · exact Or.inl hnone
  · have hbooks := performAll_books hall
    -- The device is known before and after its machine changed, so its actions mean the same.
    have hcontains := SortedMap.contains_insert_of_get? (m := s.machines) hm m'
    have hbooking : booking? ({ s with machines := s.machines.insert device m', log }.count
        fun t => t.countActions actions.length) device = s.booking? device :=
      booking?_congr (by rfl) hcontains (by rfl) device
    rw [hbooking] at hbooks
    exact Or.inr ⟨m, actions, m', hm, hvalue, hbooks.frame, hbooks.queue, hbooks.scheduled,
      hbooks.prompt, hbooks.processed⟩

/-- Whatever a step does, it schedules some tasks and may change a machine. -/
theorem process_books {key : Key} {task : Task} (h : s.process key task = .ok s') :
    ∃ machines bookings, Books { s with machines } s' bookings := by
  cases task with
  | sensorTick id =>
    obtain ⟨bookings, hbooks, _⟩ := tick_books h
    exact ⟨s.machines, bookings, hbooks⟩
  | executionCompleted target message =>
    rw [← Except.ok.inj h]
    exact ⟨s.machines, _, complete_books s target message⟩
  | device event =>
    rcases happen_books h with ⟨_, rfl⟩ | ⟨_, _, m', _, _, hbooks⟩
    · exact ⟨s'.machines, [], .refl s'⟩
    · exact ⟨_, _, hbooks⟩

/-! ## The queue along a run -/

/-- The time of the task that was processed last. -/
def clock (history : List Step) : Duration := (history.getLast?.map fun x => x.key.time).getD 0

@[simp] theorem clock_append (history : List Step) (x : Step) :
    clock (history ++ [x]) = x.key.time := by simp [clock]

/--
The numbers given out are those of the tasks that were processed and of those to come, each once.
What is to come has the priority of its task, and is not past.
-/
structure Kept (history : List Step) (s : Simulation) : Prop where
  numbers : (history.map (fun x => x.key.sequence)
    ++ s.queue.entries.map fun e => e.1.sequence).Perm (List.range' 1 s.scheduled)
  ranked : ∀ e ∈ s.queue.entries, e.1.priority = e.2.priority
  due : ∀ e ∈ s.queue.entries, clock history ≤ e.1.time
  passed : clock history ≤ s.now

namespace Kept

variable {history : List Step}

theorem sequence_le (h : s.Kept history) {e : Key × Task} (he : e ∈ s.queue.entries) :
    e.1.sequence ≤ s.scheduled := by
  have hmem := h.numbers.mem_iff.mp (List.mem_append_right _ (List.mem_map.mpr ⟨e, he, rfl⟩))
  have hlt := List.mem_range'_1.mp hmem
  omega

/-- Time does not go back. -/
theorem clock_le (h : s.Kept history) {key : Key} {task : Task}
    (hq : s.queue.first? = some (key, task)) : clock history ≤ key.time :=
  h.due _ (Queue.mem_of_first hq)

/-- No number is given out twice. -/
theorem nodup (h : s.Kept history) : (history.map (fun x => x.key.sequence)
    ++ s.queue.entries.map fun e => e.1.sequence).Nodup :=
  h.numbers.nodup_iff.mpr List.nodup_range'

theorem history_sequence_le (h : s.Kept history) {x : Step} (hx : x ∈ history) :
    x.key.sequence ≤ s.scheduled := by
  have hmem := h.numbers.mem_iff.mp (List.mem_append_left _ (List.mem_map.mpr ⟨x, hx, rfl⟩))
  have hlt := List.mem_range'_1.mp hmem
  omega

/-- What was processed is no longer in the queue. -/
theorem ne_of_mem (h : s.Kept history) {x : Step} (hx : x ∈ history) {e : Key × Task}
    (he : e ∈ s.queue.entries) : x.key ≠ e.1 := by
  intro hkey
  exact (List.nodup_append.mp h.nodup).2.2 _ (List.mem_map.mpr ⟨x, hx, rfl⟩) _
    (List.mem_map.mpr ⟨e, he, rfl⟩) (congrArg Key.sequence hkey)

/-- What is scheduled is numbered anew. -/
theorem books (h : s.Kept history) (hb : s.Books s' bookings) : s'.Kept history := by
  have hentries := hb.entries fun e he => h.sequence_le he
  have hcases {e : Key × Task} (he : e ∈ s'.queue.entries) :
      (∃ b ∈ bookings, ∃ number, s.scheduled < number ∧ e = (b.key number, b.task))
        ∨ e ∈ s.queue.entries := hb.mem he
  constructor
  · have hnumbers := hentries.map fun e => e.1.sequence
    rw [List.map_append, Booking.sequences_entries] at hnumbers
    rw [hb.scheduled, ← List.range'_append_1, Nat.add_comm 1]
    refine (hnumbers.append_left _).trans ?_
    rw [← List.append_assoc]
    exact ((List.perm_append_comm.append_right _).trans
      (List.append_assoc _ _ _ ▸ h.numbers.append_left _)).trans List.perm_append_comm
  · intro e he
    rcases hcases he with ⟨b, _, _, _, rfl⟩ | he
    · rfl
    · exact h.ranked e he
  · intro e he
    rcases hcases he with ⟨b, hmem, _, _, rfl⟩ | he
    · exact h.passed.trans (hb.prompt b hmem)
    · exact h.due e he
  · rw [hb.now]
    exact h.passed

/-- A task that is taken is the one that the clock shows. -/
theorem take (h : s.Kept history) {key : Key} {task : Task}
    (hq : s.queue.first? = some (key, task)) :
    (s.take key task).Kept (history ++ [⟨s, key, task⟩]) := by
  have hentries := Queue.entries_of_first hq
  have hmem {e : Key × Task} (he : e ∈ (s.take key task).queue.entries) : e ∈ s.queue.entries := by
    rw [hentries]
    exact List.mem_cons_of_mem _ he
  constructor
  · have hnumbers := h.numbers
    rw [hentries] at hnumbers
    rwa [List.map_append, List.append_assoc]
  · exact fun e he => h.ranked e (hmem he)
  · intro e he
    rw [clock_append]
    exact Key.lt_time (Queue.first_lt hq he)
  · rw [clock_append]
    exact Nat.le_refl _

/-- What is not taken by a step stays in the queue. -/
theorem stays (h : s.Kept history) {key : Key} {task : Task}
    (hq : s.queue.first? = some (key, task))
    (hp : (s.take key task).process key task = .ok s') : s.scheduled ≤ s'.scheduled
      ∧ ∀ e ∈ SortedMap.entries s.queue.dropFirst, e ∈ s'.queue.entries := by
  obtain ⟨machines, bookings, hbooks⟩ := process_books hp
  have hentries := hbooks.entries fun e he => (h.take hq).sequence_le he
  refine ⟨?_, fun e he => hentries.mem_iff.mpr (List.mem_append_right _ he)⟩
  rw [hbooks.scheduled]
  exact Nat.le_add_right _ _

end Kept

/-- In every reached simulation all numbers are accounted for, and nothing to come is past. -/
theorem kept_of_ran {history : List Step} (h : Ran net seed history s) : s.Kept history := by
  induction h with
  | create =>
    exact ⟨List.Perm.refl _, fun _ he => absurd he List.not_mem_nil,
      fun _ he => absurd he List.not_mem_nil, Nat.le_refl _⟩
  | sensor _ hs ih =>
    obtain ⟨_, _, _, _, rfl⟩ := addSensor_ok_cases hs
    exact ⟨ih.numbers, ih.ranked, ih.due, ih.passed⟩
  | actuator _ hs ih =>
    obtain ⟨_, _, _, _, rfl⟩ := addActuator_ok_cases hs
    exact ⟨ih.numbers, ih.ranked, ih.due, ih.passed⟩
  | @start _ s _ _ hs ih =>
    obtain ⟨_, hbooks, _⟩ := start_books hs
    have hstarted : Kept _ { s with started := true } := ⟨ih.numbers, ih.ranked, ih.due, ih.passed⟩
    exact hstarted.books hbooks
  | @step _ s _ key task _ hq hp ih =>
    have htaken := ih.take hq
    obtain ⟨machines, _, hbooks⟩ := process_books hp
    have hchanged : Kept _ { s.take key task with machines } :=
      ⟨htaken.numbers, htaken.ranked, htaken.due, htaken.passed⟩
    exact hchanged.books hbooks
  | settle stop _ ih => exact ⟨ih.numbers, ih.ranked, ih.due, ih.passed.trans (Nat.le_max_left _ _)⟩

end Simulation

end FogNet
