import FogNet.Proofs.Machine.Accounts
import FogNet.Proofs.Machine.Submissions
import FogNet.Simulation.Run

/-!
# The runs of a simulation

A simulation is reached from its creation by setup, by its start, and by processing the first task
of its queue. With it goes what the orchestrators have placed so far, which the simulation itself
does not keep.

To placement most steps are quiet: they touch no machine and no sensor, and submit no request.

## Main statements

* `reached_of_runUntil` — a run leads from reached simulations to reached ones
* `runUntil_sameSetup` — a run keeps the network and the sensors
* `Queue.requestsFor_insert` — scheduling something else does not add to the requests on their way
* `performAll_quiet`, `tick_quiet`, `complete_quiet` — steps that are quiet
-/

namespace FogNet

/-! ## Requests on their way -/

namespace SortedMap

variable {κ ν α : Type} [Ord κ] {f : κ × ν → Option α} {k : κ} {v : ν}

theorem filterMap_insertEntry (h : f (k, v) = none) : ∀ l : List (κ × ν),
    ((insertEntry k v l).filterMap f).Sublist (l.filterMap f)
  | [] => by simp [insertEntry, h]
  | e :: l => by
    unfold insertEntry
    split
    · rw [List.filterMap_cons_none h]
    · rw [List.filterMap_cons_none h]
      exact (List.sublist_cons_self e l).filterMap f
    · have ih := filterMap_insertEntry h l
      rw [← List.singleton_append, List.filterMap_append, ← List.singleton_append (l := l),
        List.filterMap_append]
      exact (List.Sublist.refl _).append ih

theorem filterMap_insertEntry_some {a : α} (h : f (k, v) = some a) : ∀ l : List (κ × ν),
    ∃ l', l'.Perm (a :: l.filterMap f) ∧ ((insertEntry k v l).filterMap f).Sublist l'
  | [] => ⟨[a], List.Perm.refl _, by simp [insertEntry, h]⟩
  | e :: l => by
    unfold insertEntry
    split
    · exact ⟨_, List.Perm.refl _, by rw [List.filterMap_cons_some h]⟩
    · refine ⟨_, List.Perm.refl _, ?_⟩
      rw [List.filterMap_cons_some h]
      exact ((List.sublist_cons_self e l).filterMap f).cons_cons a
    · obtain ⟨l', hp, hs⟩ := filterMap_insertEntry_some h l
      refine ⟨[e].filterMap f ++ l', ?_, ?_⟩
      · rw [← List.singleton_append (l := l), List.filterMap_append]
        exact (hp.append_left _).trans List.perm_middle
      · rw [← List.singleton_append, List.filterMap_append]
        exact (List.Sublist.refl _).append hs

end SortedMap

namespace Queue

/-- The requests on their way to a device, in the order in which they will be submitted. -/
def requestsFor (q : Queue) (d : DeviceId) : List Request :=
  q.entries.filterMap fun e => if e.1.device = d then e.2.request? else none

/-- Scheduling something else does not add to the requests on their way. -/
theorem requestsFor_insert (q : Queue) (key : Key) {task : Task} (h : task.request? = none)
    (d : DeviceId) : (requestsFor (q.insert key task) d).Sublist (q.requestsFor d) :=
  SortedMap.filterMap_insertEntry (by simp [h]) q.entries

/-- A scheduled request is on its way to its device, after or between those that were. -/
theorem requestsFor_insert_request (q : Queue) (key : Key) {task : Task} {r : Request}
    (h : task.request? = some r) (d : DeviceId) :
    ∃ l, l.Perm ((if key.device = d then [r] else []) ++ q.requestsFor d)
      ∧ (requestsFor (q.insert key task) d).Sublist l := by
  by_cases hd : key.device = d
  · rw [if_pos hd]
    exact SortedMap.filterMap_insertEntry_some (by simp [hd, h]) q.entries
  · rw [if_neg hd]
    exact ⟨_, List.Perm.refl _, SortedMap.filterMap_insertEntry (by simp [hd]) q.entries⟩

theorem entries_of_first {q : Queue} {key : Key} {task : Task}
    (h : q.first? = some (key, task)) :
    q.entries = (key, task) :: SortedMap.entries q.dropFirst := by
  rw [SortedMap.first?, List.head?_eq_some_iff] at h
  obtain ⟨rest, h⟩ := h
  show q.entries = (key, task) :: q.entries.tail
  rw [h, List.tail_cons]

/-- What is on the way before the first task is taken, and after it. -/
theorem requestsFor_of_first {q : Queue} {key : Key} {task : Task}
    (h : q.first? = some (key, task)) (d : DeviceId) : q.requestsFor d
      = (if key.device = d then task.request?.toList else []) ++ requestsFor q.dropFirst d := by
  rw [requestsFor, requestsFor, entries_of_first h]
  by_cases hd : key.device = d
  · cases hr : task.request? <;> simp [hd, hr]
  · simp [hd]

end Queue

namespace Simulation

variable {net : Network} {seed : UInt64} {s s' : Simulation} {placed : List (DeviceId × Placement)}

/-! ## Runs -/

/-- What an orchestrator places when a task is processed. -/
def decided (s : Simulation) (key : Key) : Task → List (DeviceId × Placement)
  | .device .placementTimer =>
    match (s.machine? key.device).bind Machine.orchestrator with
    | none => []
    | some o => [(key.device, (o.attempt s.network key.device).placement)]
  | _ => []

/--
The simulations of a network that are reached without events from outside, each with what its
orchestrators have placed.
-/
inductive Reached (net : Network) (seed : UInt64) :
    List (DeviceId × Placement) → Simulation → Prop
  | create : Reached net seed [] (create net seed)
  | sensor {placed : List (DeviceId × Placement)} {s s' : Simulation} {sensor : Sensor} :
      Reached net seed placed s → s.addSensor sensor = .ok s' → Reached net seed placed s'
  | actuator {placed : List (DeviceId × Placement)} {s s' : Simulation} {actuator : Actuator} :
      Reached net seed placed s → s.addActuator actuator = .ok s' → Reached net seed placed s'
  | start {placed : List (DeviceId × Placement)} {s s' : Simulation} :
      Reached net seed placed s → s.start = .ok s' → Reached net seed placed s'
  | step {placed : List (DeviceId × Placement)} {s s' : Simulation} {key : Key} {task : Task} :
      Reached net seed placed s → s.queue.first? = some (key, task) →
        (s.take key task).process key task = .ok s' →
          Reached net seed (placed ++ s.decided key task) s'
  | settle {placed : List (DeviceId × Placement)} {s : Simulation} (stop : Duration) :
      Reached net seed placed s → Reached net seed placed (s.settle stop)

theorem machine?_create {d : DeviceId} {m : Machine} (h : (create net seed).machine? d = some m) :
    ∃ dev ∈ net.topology.devices, dev.id = d ∧ m = Machine.ofDevice net dev := by
  obtain ⟨dev, hdev, he⟩ := List.mem_map.mp (SortedMap.mem_of_get?_ofList h)
  exact ⟨dev, hdev, (Prod.mk.inj he).1, (Prod.mk.inj he).2.symm⟩

/-- What the orchestrators place while at most `budget` tasks are processed, up to `stop`. -/
def trace (stop : Duration) : (budget : Nat) → Simulation → List (DeviceId × Placement)
  | 0, _ => []
  | budget + 1, s =>
    match s.next? stop with
    | none => []
    | some (key, task) =>
      s.decided key task ++
        match (s.take key task).process key task with
        | .error _ => []
        | .ok s => trace stop budget s

/-- What the orchestrators place on a run up to `stop`. -/
def traceUntil (s : Simulation) (stop : Duration) (budget : Nat) : List (DeviceId × Placement) :=
  match s.start with
  | .error _ => []
  | .ok s => trace stop budget s

theorem reached_of_advance {stop : Duration} {budget : Nat} (hs : Reached net seed placed s)
    (h : advance stop budget s = .finished s') :
    Reached net seed (placed ++ trace stop budget s) s' := by
  induction budget generalizing s placed with
  | zero =>
    unfold advance at h
    split at h
    · rw [← Outcome.finished.inj h, trace, List.append_nil]
      exact hs.settle stop
    · simp at h
  | succ budget ih =>
    unfold advance at h
    unfold trace
    cases hnext : s.next? stop with
    | none =>
      rw [hnext] at h
      rw [← Outcome.finished.inj h, List.append_nil]
      exact hs.settle stop
    | some next =>
      obtain ⟨key, task⟩ := next
      have hfirst := (Option.filter_eq_some_iff.mp hnext).1
      rw [hnext] at h
      cases hp : (s.take key task).process key task with
      | error e => simp [hp] at h
      | ok s₁ =>
        simp only [hp] at h ⊢
        rw [← List.append_assoc]
        exact ih (hs.step hfirst hp) h

/-- A run leads from a reached simulation to a reached one. -/
theorem reached_of_runUntil {stop : Duration} {budget : Nat} (hs : Reached net seed placed s)
    (h : s.runUntil stop budget = .finished s') :
    Reached net seed (placed ++ s.traceUntil stop budget) s' := by
  unfold runUntil at h
  unfold traceUntil
  cases hstart : s.start with
  | error e => simp [hstart] at h
  | ok s₁ =>
    simp only [hstart] at h
    exact reached_of_advance (hs.start hstart) h

/-- A run came to its end. -/
def isFinished : Outcome → Bool
  | .finished _ => true
  | _ => false

theorem exists_of_isFinished {o : Outcome} (h : isFinished o = true) : ∃ s, o = .finished s := by
  cases o with
  | finished s => exact ⟨s, rfl⟩
  | _ => exact absurd h Bool.false_ne_true

theorem decided_of_ne {key : Key} {task : Task} (h : task ≠ .device .placementTimer) :
    s.decided key task = [] := by
  unfold decided
  split
  · exact absurd rfl h
  · rfl

theorem decided_of_none {key : Key} {task : Task}
    (h : (s.machine? key.device).bind Machine.orchestrator = none) : s.decided key task = [] := by
  unfold decided
  split
  · rw [h]
  · rfl

/-! ## Quiet steps -/

/-- A step that touches no machine and no sensor, and submits no request. -/
structure Quiet (s s' : Simulation) : Prop where
  network : s'.network = s.network
  machines : s'.machines = s.machines
  sensors : s'.sensors = s.sensors
  started : s'.started = s.started
  requests : ∀ d, (s'.queue.requestsFor d).Sublist (s.queue.requestsFor d)

theorem Quiet.refl (s : Simulation) : s.Quiet s :=
  ⟨rfl, rfl, rfl, rfl, fun _ => List.Sublist.refl _⟩

theorem Quiet.trans {s₁ s₂ s₃ : Simulation} (h : s₁.Quiet s₂) (h' : s₂.Quiet s₃) : s₁.Quiet s₃ :=
  ⟨h'.network.trans h.network, h'.machines.trans h.machines, h'.sensors.trans h.sensors,
    h'.started.trans h.started, fun d => (h'.requests d).trans (h.requests d)⟩

theorem schedule_quiet (s : Simulation) (device : DeviceId) (time : Duration) {task : Task}
    (h : task.request? = none) : s.Quiet (s.schedule device time task) :=
  ⟨rfl, rfl, rfl, rfl, Queue.requestsFor_insert s.queue _ h⟩

theorem scheduleAfter_quiet {device : DeviceId} {delay : Duration} {task : Task}
    (ht : task.request? = none) (h : s.scheduleAfter device delay task = .ok s') : s.Quiet s' := by
  obtain ⟨_, rfl⟩ := scheduleAfter_ok_cases h
  exact schedule_quiet s device _ ht

theorem count_quiet (s : Simulation) (f : Statistics → Statistics) : s.Quiet (s.count f) :=
  ⟨rfl, rfl, rfl, rfl, fun _ => List.Sublist.refl _⟩

theorem record_quiet (s : Simulation) (m : Metric) : s.Quiet (s.record m) :=
  ⟨rfl, rfl, rfl, rfl, fun _ => List.Sublist.refl _⟩

theorem foldl_closeLoop_quiet (app : AppId) (latency : Duration) : ∀ (loops : List LoopId)
    (s : Simulation), s.Quiet (loops.foldl (closeLoop app latency) s)
  | [], s => Quiet.refl s
  | loop :: loops, s => by
    refine Quiet.trans ?_ (foldl_closeLoop_quiet app latency loops (closeLoop app latency s loop))
    exact (count_quiet s _).trans (record_quiet _ _)

theorem actuate_quiet {actuator : ActuatorId} {message : Message}
    (h : s.actuate actuator message = .ok s') : s.Quiet s' := by
  unfold actuate at h
  split at h
  · rw [← Except.ok.inj h]
    exact Quiet.refl s
  · next a _ =>
    cases hl : s.later a.latency with
    | error e => rw [hl] at h; exact absurd h (by simp [bind, Except.bind])
    | ok arrival =>
      rw [hl] at h
      simp only [bind, Except.bind] at h
      split at h
      · rw [← Except.ok.inj h]
        exact count_quiet s _
      · rw [← Except.ok.inj h]
        exact (count_quiet s _).trans (foldl_closeLoop_quiet _ _ _ _)

/-- An action that submits no request is quiet. -/
theorem perform_quiet {device : DeviceId} {a : Action} (ha : a.request? = none)
    (h : s.perform device a = .ok s') : s.Quiet s' := by
  cases a with
  | transmit target link message transmission latency =>
    exact ((count_quiet s _).trans (record_quiet _ _)).trans (scheduleAfter_quiet rfl h)
  | deliver target event =>
    simp only [perform, Except.ok.injEq] at h
    subst h
    split
    · exact schedule_quiet s _ _ ha
    · exact Quiet.refl s
  | setTimer timer duration =>
    simp only [perform] at h
    cases ht : s.scheduleAfter device duration (.device timer.event) with
    | error e => simp [ht, Except.map] at h
    | ok s₁ =>
      simp only [ht, Except.map, Except.ok.injEq] at h
      subst h
      have hevent : (Task.device timer.event).request? = none := by cases timer <;> rfl
      exact (scheduleAfter_quiet hevent ht).trans (count_quiet s₁ _)
  | enqueueInternal event =>
    simp only [perform, Except.ok.injEq] at h
    subst h
    exact schedule_quiet s _ _ ha
  | execute target message =>
    simp only [perform, execute] at h
    split at h
    · simp at h
    · exact ((count_quiet s _).trans (record_quiet _ _)).trans (scheduleAfter_quiet rfl h)
  | deliverToActuator actuator message => exact actuate_quiet h
  | recordDrop id reason =>
    rw [← Except.ok.inj h]
    exact count_quiet s _
  | recordCloudTraffic id =>
    rw [← Except.ok.inj h]
    exact count_quiet s _

theorem performAll_quiet {device : DeviceId} : ∀ {actions : List Action} {s : Simulation},
    (∀ a ∈ actions, a.request? = none) → s.performAll device actions = .ok s' → s.Quiet s'
  | [], s, _, h => by
    rw [← Except.ok.inj h]
    exact Quiet.refl s
  | a :: actions, s, ha, h => by
    unfold performAll at h
    split at h
    · simp at h
    · next s₁ hs =>
      exact (perform_quiet (ha a List.mem_cons_self) hs).trans
        (performAll_quiet (fun a' h' => ha a' (List.mem_cons_of_mem _ h')) h)

theorem startMachine_quiet {m : Machine} (h : s.startMachine m = .ok s') : s.Quiet s' :=
  performAll_quiet (fun _ => Machine.start_requests) h

theorem tick_quiet {id : SensorId} (h : s.tick id = .ok s') : s.Quiet s' := by
  unfold tick at h
  split at h
  · rw [← Except.ok.inj h]
    exact Quiet.refl s
  · next sensor _ =>
    split at h
    · rw [← Except.ok.inj h]
      exact Quiet.refl s
    · next app _ =>
      cases he : s.emit sensor app with
      | error e => rw [he] at h; exact absurd h (by simp [bind, Except.bind])
      | ok s₁ =>
        rw [he] at h
        simp only [bind, Except.bind] at h
        refine Quiet.trans ?_ (scheduleAfter_quiet rfl h)
        unfold emit at he
        have hnumber : s.Quiet { s with lastMessage := s.lastMessage + 1 } :=
          ⟨rfl, rfl, rfl, rfl, fun _ => List.Sublist.refl _⟩
        simp only at he
        split at he
        · rw [← Except.ok.inj he]
          exact hnumber
        · exact (hnumber.trans (count_quiet _ _)).trans (scheduleAfter_quiet rfl he)

theorem complete_quiet (s : Simulation) (target : InstanceId) (message : Message) :
    s.Quiet (s.complete target message) := by
  have hfold : ∀ (outputs : List Message) (s : Simulation), s.Quiet (outputs.foldl
      (fun s output => s.scheduleNow target.device (.device (.messageArrived output))) s) := by
    intro outputs
    induction outputs with
    | nil => exact Quiet.refl
    | cons output outputs ih => exact fun s => (schedule_quiet s _ _ rfl).trans (ih _)
  unfold complete
  split
  · exact Quiet.refl s
  · next app _ =>
    rcases app.resultants message.destination message (s.lastMessage + 1) s.generator with
      ⟨outputs, generator⟩
    have hnumbers : s.Quiet { s with generator, lastMessage := s.lastMessage + outputs.length } :=
      ⟨rfl, rfl, rfl, rfl, fun _ => List.Sublist.refl _⟩
    exact hnumbers.trans (hfold outputs _)

/-- What happens at an event: its device handles it, and its actions are carried out. -/
theorem happen_cases {device : DeviceId} {event : Event} (h : s.happen device event = .ok s') :
    (s.machine? device = none ∧ s' = s)
      ∨ ∃ m actions m' log, s.machine? device = some m
        ∧ ({ m with now := s.now }.handle s.network event).value = some (actions, m')
        ∧ ({ s with machines := s.machines.insert device m', log }.count
            fun t => t.countActions actions.length).performAll device actions = .ok s' := by
  unfold happen at h
  split at h
  · next hm => exact Or.inl ⟨hm, (Except.ok.inj h).symm⟩
  · next m hm =>
    simp only at h
    split at h
    · simp at h
    · next actions m' hvalue => exact Or.inr ⟨m, actions, m', _, hm, hvalue, h⟩

/-- An event to a device changes its machine; all that the device does about it is quiet. -/
theorem happen_ok_cases {device : DeviceId} {event : Event} (h : s.happen device event = .ok s') :
    (s.machine? device = none ∧ s' = s)
      ∨ ∃ m actions m' log, s.machine? device = some m
        ∧ ({ m with now := s.now }.handle s.network event).value = some (actions, m')
        ∧ { s with machines := s.machines.insert device m', log }.Quiet s' := by
  rcases happen_cases h with hnone | ⟨m, actions, m', log, hm, hvalue, hall⟩
  · exact Or.inl hnone
  · have hquiet := performAll_quiet (Machine.handle_requests hvalue) hall
    exact Or.inr ⟨m, actions, m', log, hm, hvalue, (count_quiet _ _).trans hquiet⟩

/-- A relation that every step of a loop respects holds across the loop. -/
theorem foldlM_ok {α : Type} {f : Simulation → α → Except Overflow Simulation}
    {R : Simulation → Simulation → Prop} (hrefl : ∀ s, R s s)
    (htrans : ∀ {s₁ s₂ s₃}, R s₁ s₂ → R s₂ s₃ → R s₁ s₃)
    (hstep : ∀ {s a s'}, f s a = .ok s' → R s s') : ∀ {l : List α} {s : Simulation},
      l.foldlM f s = .ok s' → R s s'
  | [], s, h => by
    rw [← Except.ok.inj h]
    exact hrefl s
  | a :: l, s, h => by
    rw [List.foldlM_cons] at h
    cases ha : f s a with
    | error e => rw [ha] at h; exact absurd h (by simp [bind, Except.bind])
    | ok s₁ =>
      rw [ha] at h
      exact htrans (hstep ha) (foldlM_ok hrefl htrans hstep h)

theorem foldlM_startMachine_quiet {machines : List Machine}
    (h : machines.foldlM startMachine s = .ok s') : s.Quiet s' :=
  foldlM_ok Quiet.refl Quiet.trans startMachine_quiet h

theorem take_quiet {key : Key} {task : Task} (hq : s.queue.first? = some (key, task)) :
    s.Quiet (s.take key task) := by
  refine ⟨rfl, rfl, rfl, rfl, ?_⟩
  intro d
  rw [Queue.requestsFor_of_first hq]
  exact List.sublist_append_right _ _

theorem settle_quiet (s : Simulation) (stop : Duration) : s.Quiet (s.settle stop) :=
  ⟨rfl, rfl, rfl, rfl, fun _ => List.Sublist.refl _⟩

/-! ## What a run keeps -/

/-- Two simulations of one network with the same sensors. -/
def SameSetup (s s' : Simulation) : Prop := s'.network = s.network ∧ s'.sensors = s.sensors

theorem SameSetup.refl (s : Simulation) : s.SameSetup s := ⟨rfl, rfl⟩

theorem SameSetup.trans {s₁ s₂ s₃ : Simulation} (h : s₁.SameSetup s₂) (h' : s₂.SameSetup s₃) :
    s₁.SameSetup s₃ :=
  ⟨h'.1.trans h.1, h'.2.trans h.2⟩

theorem Quiet.sameSetup (h : s.Quiet s') : s.SameSetup s' := ⟨h.network, h.sensors⟩

theorem startSensor_sameSetup {sensor : Sensor} (h : s.startSensor sensor = .ok s') :
    s.SameSetup s' := by
  unfold startSensor at h
  split at h
  · rw [← Except.ok.inj h]
    exact SameSetup.refl s
  · simp only at h
    split at h
    · exact (scheduleAfter_quiet rfl h).sameSetup
    · exact (scheduleAfter_quiet rfl h).sameSetup

theorem start_sameSetup (h : s.start = .ok s') : s.SameSetup s' := by
  unfold start at h
  split at h
  · rw [← Except.ok.inj h]
    exact SameSetup.refl s
  · simp only at h
    cases hm : s.machines.values.foldlM startMachine { s with started := true } with
    | error e => rw [hm] at h; exact absurd h (by simp [bind, Except.bind])
    | ok s₁ =>
      rw [hm] at h
      have hq := foldlM_startMachine_quiet hm
      have hs : s₁.SameSetup s' :=
        foldlM_ok SameSetup.refl SameSetup.trans startSensor_sameSetup h
      exact SameSetup.trans ⟨hq.network, hq.sensors⟩ hs

theorem process_sameSetup {key : Key} {task : Task} (h : s.process key task = .ok s') :
    s.SameSetup s' := by
  cases task with
  | sensorTick sensor => exact (tick_quiet h).sameSetup
  | executionCompleted target message =>
    rw [process, Except.ok.injEq] at h
    exact h ▸ (complete_quiet s target message).sameSetup
  | device event =>
    rcases happen_ok_cases h with ⟨_, rfl⟩ | ⟨_, _, _, _, _, _, hq⟩
    · exact SameSetup.refl _
    · exact ⟨hq.network, hq.sensors⟩

theorem advance_sameSetup {stop : Duration} {budget : Nat}
    (h : advance stop budget s = .finished s') : s.SameSetup s' := by
  induction budget generalizing s with
  | zero =>
    unfold advance at h
    split at h
    · rw [← Outcome.finished.inj h]
      exact (settle_quiet s stop).sameSetup
    · simp at h
  | succ budget ih =>
    unfold advance at h
    split at h
    · rw [← Outcome.finished.inj h]
      exact (settle_quiet s stop).sameSetup
    · simp only at h
      split at h
      · simp at h
      · next s₁ hp =>
        have htaken := process_sameSetup hp
        exact SameSetup.trans ⟨htaken.1, htaken.2⟩ (ih h)

/-- A run keeps the network and the sensors. -/
theorem runUntil_sameSetup {stop : Duration} {budget : Nat}
    (h : s.runUntil stop budget = .finished s') : s.SameSetup s' := by
  unfold runUntil at h
  split at h
  · simp at h
  · next hstart => exact (start_sameSetup hstart).trans (advance_sameSetup h)

/-! ## Setup with sensors -/

/-- A simulation to which sensors are attached, as far as they are accepted. -/
def withSensors (net : Network) (seed : UInt64) (sensors : List Sensor) : Simulation :=
  sensors.foldl (fun s x => (s.addSensor x).toOption.getD s) (create net seed)

theorem reached_withSensors (net : Network) (seed : UInt64) (sensors : List Sensor) :
    Reached net seed [] (withSensors net seed sensors) := by
  have key : ∀ (sensors : List Sensor) (s : Simulation), Reached net seed [] s →
      Reached net seed [] (sensors.foldl (fun s x => (s.addSensor x).toOption.getD s) s) := by
    intro sensors
    induction sensors with
    | nil => exact fun _ h => h
    | cons x sensors ih =>
      intro s h
      rw [List.foldl_cons]
      cases hs : s.addSensor x with
      | error e => exact ih s h
      | ok s₁ => exact ih s₁ (h.sensor hs)
  exact key sensors _ .create

end Simulation

end FogNet
