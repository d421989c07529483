import FogNet.Proofs.Entries
import FogNet.Proofs.Simulation.History

/-!
# What steps add to the messages of a simulation

The messages of a simulation wait in its queue as arrivals and as executions, and its statistics
count executions, drops and deliveries. All that a simulation does for the actions of a device only
adds to these five, by a tally that can be read off the actions.

## Main statements

* `performAll_adds` — carrying out actions adds their tally
* `start_adds`, `tick_numbers`, `complete_numbers` — what the other steps add
-/

namespace FogNet

open List (Perm)

/-! ## Messages in the queue -/

/-- The message that a task has processed. -/
def Task.executing? : Task → Option MessageId
  | .executionCompleted _ message => some message.id
  | _ => none

/-- The device at which a message is when a task comes. -/
def Task.addressee? (device : DeviceId) : Task → Option DeviceId
  | .device (.messageArrived _) => some device
  | .executionCompleted target _ => some target.device
  | _ => none

theorem Task.addressee?_event {event : Event} (h : event.arriving? = none) (device : DeviceId) :
    (Task.device event).addressee? device = none := by
  cases event <;> first | rfl | simp [Event.arriving?] at h

namespace Queue

variable {q : Queue} {key : Key} {task : Task}

/-- The messages that arrive. -/
def arriving (q : Queue) : List MessageId := q.entries.filterMap fun e => e.2.arriving?

/-- The messages that instances process. -/
def executing (q : Queue) : List MessageId := q.entries.filterMap fun e => e.2.executing?

theorem filterMap_cons {α : Type} (f : Task → Option α) (key : Key) (task : Task)
    (entries : List (Key × Task)) : ((key, task) :: entries).filterMap (fun e => f e.2)
      = (f task).toList ++ entries.filterMap fun e => f e.2 := by
  cases hf : f task <;> simp [hf]

theorem filterMap_insert {α : Type} (f : Task → Option α) (h : q.get? key = none) :
    ((SortedMap.entries (q.insert key task)).filterMap fun e => f e.2).Perm
      ((f task).toList ++ q.entries.filterMap fun e => f e.2) := by
  rw [← filterMap_cons f key task]
  exact (SortedMap.entries_insert_new h task).filterMap _

theorem filterMap_of_first {α : Type} (f : Task → Option α) (h : q.first? = some (key, task)) :
    q.entries.filterMap (fun e => f e.2)
      = (f task).toList ++ (SortedMap.entries q.dropFirst).filterMap fun e => f e.2 := by
  rw [entries_of_first h, filterMap_cons]

end Queue

/-! ## Drops -/

/-- Every drop counts once. -/
theorem Statistics.messagesDropped_countDrop (s : Statistics) (reason : DropReason) :
    (s.countDrop reason).messagesDropped = s.messagesDropped + 1 := by
  have hsum := s.drops.sumOf_upsert reason 0 (fun n => n + 1) Prod.snd
  change (s.countDrop reason).messagesDropped + _ = s.messagesDropped + _ at hsum
  cases hr : s.drops.get? reason <;> simp only [hr, Option.elim_none, Option.elim_some,
    Option.getD_none, Option.getD_some] at hsum <;> omega

/-! ## Tallies -/

/-- What comes to the messages of a simulation. -/
structure Tally where
  arriving : List MessageId := []
  executing : List MessageId := []
  executions : Nat := 0
  drops : Nat := 0
  deliveries : Nat := 0

namespace Tally

def add (t t' : Tally) : Tally :=
  { arriving := t.arriving ++ t'.arriving
    executing := t.executing ++ t'.executing
    executions := t.executions + t'.executions
    drops := t.drops + t'.drops
    deliveries := t.deliveries + t'.deliveries }

theorem empty_add (t : Tally) : Tally.add {} t = t := by simp [add]

/-- What actions come to when they are carried out. -/
def ofActions (actions : List Action) : Tally :=
  { arriving := actions.filterMap Action.sent?
    executing := actions.filterMap Action.processed?
    executions := (actions.filterMap Action.processed?).length
    drops := (actions.filterMap Action.dropped?).length
    deliveries := (actions.filterMap Action.delivered?).length }

theorem ofActions_cons (a : Action) (actions : List Action) :
    ofActions (a :: actions) = (ofActions [a]).add (ofActions actions) := by
  simp only [ofActions, add, ← List.filterMap_append, ← List.length_append, List.singleton_append]

end Tally

namespace Simulation

variable {net : Network} {s s' : Simulation} {t : Tally}

/-- The keys of the queue were given out, and there is a device where each of its messages is. -/
structure Orderly (s : Simulation) : Prop where
  numbered : ∀ e ∈ s.queue.entries, e.1.sequence ≤ s.scheduled
  addressed : ∀ e ∈ s.queue.entries, ∀ d, e.2.addressee? e.1.device = some d →
    s.machines.contains d = true

/-- A simulation in which nothing changed but what is to come and what is counted, by a tally. -/
structure Adds (s s' : Simulation) (t : Tally) : Prop where
  frame : s' = { s with
    queue := s'.queue, scheduled := s'.scheduled, statistics := s'.statistics, log := s'.log }
  arriving : s'.queue.arriving.Perm (t.arriving ++ s.queue.arriving)
  executing : s'.queue.executing.Perm (t.executing ++ s.queue.executing)
  executions : s'.statistics.executions = s.statistics.executions + t.executions
  drops : s'.statistics.messagesDropped = s.statistics.messagesDropped + t.drops
  deliveries : s'.statistics.actuatorDeliveries = s.statistics.actuatorDeliveries + t.deliveries
  orderly : s'.Orderly

namespace Adds

theorem refl (h : s.Orderly) : s.Adds s {} where
  frame := rfl
  arriving := List.Perm.refl _
  executing := List.Perm.refl _
  executions := rfl
  drops := rfl
  deliveries := rfl
  orderly := h

theorem trans {s₁ s₂ s₃ : Simulation} {t t' : Tally} (h : s₁.Adds s₂ t) (h' : s₂.Adds s₃ t') :
    s₁.Adds s₃ (t.add t') where
  frame := by
    have hframe := h'.frame
    rw [h.frame] at hframe
    exact hframe
  arriving := by
    refine h'.arriving.trans ((h.arriving.append_left _).trans ?_)
    rw [Tally.add, List.append_assoc]
    exact List.perm_append_comm_assoc _ _ _
  executing := by
    refine h'.executing.trans ((h.executing.append_left _).trans ?_)
    rw [Tally.add, List.append_assoc]
    exact List.perm_append_comm_assoc _ _ _
  executions := by rw [h'.executions, h.executions, Nat.add_assoc, Tally.add]
  drops := by rw [h'.drops, h.drops, Nat.add_assoc, Tally.add]
  deliveries := by rw [h'.deliveries, h.deliveries, Nat.add_assoc, Tally.add]
  orderly := h'.orderly

theorem network (h : s.Adds s' t) : s'.network = s.network := by rw [h.frame]

theorem machines (h : s.Adds s' t) : s'.machines = s.machines := by rw [h.frame]

theorem machine? (h : s.Adds s' t) (d : DeviceId) : s'.machine? d = s.machine? d := by
  rw [Simulation.machine?, h.machines, Simulation.machine?]

theorem sensors (h : s.Adds s' t) : s'.sensors = s.sensors := by rw [h.frame]

theorem actuators (h : s.Adds s' t) : s'.actuators = s.actuators := by rw [h.frame]

theorem lastMessage (h : s.Adds s' t) : s'.lastMessage = s.lastMessage := by rw [h.frame]

end Adds

/-! ## Scheduling and counting -/

theorem schedule_adds (ho : s.Orderly) (device : DeviceId) (time : Duration) (task : Task)
    (ha : ∀ d, task.addressee? device = some d → s.machines.contains d = true) :
    s.Adds (s.schedule device time task)
      { arriving := task.arriving?.toList, executing := task.executing?.toList } := by
  -- The number of the scheduling is new, so nothing in the queue is replaced.
  have hnew : s.queue.get? ⟨time, task.priority, device, s.scheduled + 1⟩ = none := by
    rw [← Option.not_isSome_iff_eq_none, Option.isSome_iff_exists]
    rintro ⟨task', hget⟩
    have hle := ho.numbered _ ((SortedMap.mem_entries_iff _ _ _).mpr hget)
    exact Nat.not_succ_le_self _ hle
  have hmem {e : Key × Task} (he : e ∈ (s.schedule device time task).queue.entries) :
      e = (⟨time, task.priority, device, s.scheduled + 1⟩, task) ∨ e ∈ s.queue.entries :=
    SortedMap.mem_insertEntry he
  exact {
    frame := rfl
    arriving := Queue.filterMap_insert Task.arriving? hnew
    executing := Queue.filterMap_insert Task.executing? hnew
    executions := rfl
    drops := rfl
    deliveries := rfl
    orderly :=
      { numbered := fun e he => by
          rcases hmem he with rfl | he
          · exact Nat.le_refl _
          · exact Nat.le_succ_of_le (ho.numbered e he)
        addressed := fun e he => by
          rcases hmem he with rfl | he
          · exact ha
          · exact ho.addressed e he } }

/-- A scheduled event that is no arrival adds nothing. -/
theorem schedule_event_adds (ho : s.Orderly) (device : DeviceId) (time : Duration) {event : Event}
    (h : event.arriving? = none) : s.Adds (s.schedule device time (.device event)) {} := by
  have hadds := schedule_adds ho device time (.device event) (by simp [Task.addressee?_event h])
  rwa [Task.arriving?, h] at hadds

theorem count_adds (ho : s.Orderly) (f : Statistics → Statistics)
    {executions drops deliveries : Nat}
    (he : (f s.statistics).executions = s.statistics.executions + executions)
    (hr : (f s.statistics).messagesDropped = s.statistics.messagesDropped + drops)
    (hv : (f s.statistics).actuatorDeliveries = s.statistics.actuatorDeliveries + deliveries) :
    s.Adds (s.count f) { executions, drops, deliveries } where
  frame := rfl
  arriving := List.Perm.refl _
  executing := List.Perm.refl _
  executions := he
  drops := hr
  deliveries := hv
  orderly := ⟨ho.numbered, ho.addressed⟩

/-- A measurement adds nothing. -/
theorem Adds.record (h : s.Adds s' t) (metric : Metric) : s.Adds (s'.record metric) t where
  frame := congrArg (Simulation.record · metric) h.frame
  arriving := h.arriving
  executing := h.executing
  executions := h.executions
  drops := h.drops
  deliveries := h.deliveries
  orderly := ⟨h.orderly.numbered, h.orderly.addressed⟩

/-! ## A simulation that is set up -/

/-- Every device has its machine, and what sensors and actuators need is there. -/
structure Arranged (net : Network) (s : Simulation) : Prop where
  network : s.network = net
  machines : ∀ d, net.topology.contains d = true → s.machines.contains d = true
  id : ∀ d m, s.machine? d = some m → m.id = d
  sound : ∀ d m, s.machine? d = some m → m.Sound net
  actuators : ∀ d m, s.machine? d = some m → ∀ a ∈ m.actuators, s.actuators.contains a.id = true
  sensors : ∀ id x, s.sensors.get? id = some x → s.machines.contains x.gateway = true
    ∧ ∀ app, net.application? x.app = some app → (app.sensorEdge? x.tupleType).isSome = true

theorem Arranged.of_same (ha : s.Arranged net) (hnetwork : s'.network = s.network)
    (hmachines : s'.machines = s.machines) (hsensors : s'.sensors = s.sensors)
    (hactuators : s'.actuators = s.actuators) : s'.Arranged net := by
  have hmachine : s'.machine? = s.machine? := by
    funext d
    rw [machine?, hmachines, machine?]
  constructor
  · exact hnetwork.trans ha.network
  · exact hmachines ▸ ha.machines
  · exact hmachine ▸ ha.id
  · exact hmachine ▸ ha.sound
  · exact hactuators ▸ hmachine ▸ ha.actuators
  · exact hsensors ▸ hmachines ▸ ha.sensors

theorem Adds.arranged (h : s.Adds s' t) (ha : s.Arranged net) : s'.Arranged net :=
  ha.of_same h.network h.machines h.sensors h.actuators

/-! ## Carrying out actions -/

theorem foldl_closeLoop_adds (app : AppId) (latency : Duration) : ∀ (loops : List LoopId)
    {s : Simulation}, s.Orderly → s.Adds (loops.foldl (closeLoop app latency) s) {}
  | [], _, ho => .refl ho
  | loop :: loops, s, ho => by
    have hcount : s.Adds (s.count fun t => t.countLoop ⟨app, loop⟩ latency) {} :=
      count_adds ho _ rfl rfl rfl
    have hloop : s.Adds (closeLoop app latency s loop) {} := hcount.record _
    exact hloop.trans (foldl_closeLoop_adds app latency loops hloop.orderly)

/-- A known actuator takes a message that reaches it. -/
theorem actuate_adds (ho : s.Orderly) {actuator : ActuatorId} {message : Message}
    (ha : s.actuators.contains actuator = true) (h : s.actuate actuator message = .ok s') :
    s.Adds s' { deliveries := 1 } := by
  obtain ⟨a, ha⟩ := Option.isSome_iff_exists.mp ha
  rw [actuate, ha] at h
  simp only at h
  cases hl : s.later a.latency with
  | error e => rw [hl] at h; exact absurd h (by simp [bind, Except.bind])
  | ok arrival =>
    have hcount : s.Adds (s.count Statistics.countDelivery) { deliveries := 1 } :=
      count_adds ho _ rfl rfl rfl
    rw [hl] at h
    simp only [bind, Except.bind] at h
    split at h
    · rw [← Except.ok.inj h]
      exact hcount
    · rw [← Except.ok.inj h]
      exact hcount.trans (foldl_closeLoop_adds _ _ _ hcount.orderly)

/-- A command adds nothing. -/
theorem perform_command_adds (ho : s.Orderly) {device : DeviceId} {a : Action} (ha : a.IsCommand)
    (h : s.perform device a = .ok s') : s.Adds s' {} := by
  cases a with
  | deliver target event =>
    rw [← Except.ok.inj h]
    split
    · exact schedule_event_adds ho _ _ ha
    · exact .refl ho
  | enqueueInternal event =>
    rw [← Except.ok.inj h]
    exact schedule_event_adds ho _ _ ha
  | setTimer timer duration =>
    simp only [perform] at h
    cases ht : s.scheduleAfter device duration (.device timer.event) with
    | error e => simp [ht, Except.map] at h
    | ok s₁ =>
      simp only [ht, Except.map, Except.ok.injEq] at h
      subst h
      obtain ⟨_, rfl⟩ := scheduleAfter_ok_cases ht
      have hevent : timer.event.arriving? = none := by cases timer <;> rfl
      have hadds := schedule_event_adds ho device (s.now + duration) hevent
      have hcount : Adds _ ((s.schedule device (s.now + duration) _).count Statistics.countTimer)
          {} := count_adds hadds.orderly _ rfl rfl rfl
      exact hadds.trans hcount
  | recordCloudTraffic id =>
    rw [← Except.ok.inj h]
    exact count_adds ho Statistics.countCloudTraffic rfl rfl rfl
  | _ => exact ha.elim

theorem performAll_commands_adds {device : DeviceId} : ∀ {actions : List Action} {s : Simulation},
    s.Orderly → (∀ a ∈ actions, a.IsCommand) → s.performAll device actions = .ok s' → s.Adds s' {}
  | [], s, ho, _, h => by
    rw [← Except.ok.inj h]
    exact .refl ho
  | a :: actions, s, ho, hc, h => by
    unfold performAll at h
    split at h
    · simp at h
    · next s₁ ha =>
      have hadds := perform_command_adds ho (hc a List.mem_cons_self) ha
      exact hadds.trans (performAll_commands_adds hadds.orderly
        (fun a' ha' => hc a' (List.mem_cons_of_mem a ha')) h)

/-- Carrying out an action of a device adds its tally. -/
theorem perform_adds (hs : s.Arranged net) (ho : s.Orderly) {device : DeviceId} {m : Machine}
    (hm : s.machine? device = some m) {a : Action} (ha : a.Proper net m)
    (h : s.perform device a = .ok s') : s.Adds s' (.ofActions [a]) := by
  cases a with
  | transmit target link message transmission latency =>
    have hcount : s.Adds (s.count fun t => t.countTransmission latency.toSeconds message.size)
        {} := count_adds ho _ rfl rfl rfl
    have hmeasure := hcount.record (.networkUsage latency.toSeconds message.size)
    obtain ⟨_, rfl⟩ := scheduleAfter_ok_cases h
    refine hmeasure.trans (schedule_adds hmeasure.orderly _ _ _ fun d hd => ?_)
    rw [← Option.some.inj hd]
    exact hs.machines target ha
  | execute target message =>
    simp only [perform, execute] at h
    split at h
    · simp at h
    · next delay _ =>
      have hcount : s.Adds (s.count fun t => t.countExecution message.tupleType delay)
          { executions := 1 } := count_adds ho _ rfl rfl rfl
      have hmeasure := hcount.record (.execution message.tupleType delay.toSeconds)
      obtain ⟨_, rfl⟩ := scheduleAfter_ok_cases h
      refine hmeasure.trans (schedule_adds hmeasure.orderly _ _ _ fun d hd => ?_)
      rw [← Option.some.inj hd, show target.device = device from ha.trans (hs.id device m hm)]
      exact Option.isSome_iff_exists.mpr ⟨m, hm⟩
  | deliverToActuator actuator message =>
    obtain ⟨x, hx, rfl⟩ := ha
    exact actuate_adds ho (hs.actuators device m hm x hx) h
  | recordDrop id reason =>
    rw [← Except.ok.inj h]
    exact count_adds ho _ rfl (Statistics.messagesDropped_countDrop _ _) rfl
  | deliver target event => exact perform_command_adds (a := .deliver target event) ho ha h
  | enqueueInternal event => exact perform_command_adds (a := .enqueueInternal event) ho ha h
  | setTimer timer duration =>
    exact perform_command_adds (a := .setTimer timer duration) ho trivial h
  | recordCloudTraffic id => exact perform_command_adds (a := .recordCloudTraffic id) ho trivial h

theorem performAll_adds {device : DeviceId} {m : Machine} : ∀ {actions : List Action}
    {s : Simulation}, s.Arranged net → s.Orderly → s.machine? device = some m →
      (∀ a ∈ actions, a.Proper net m) → s.performAll device actions = .ok s' →
        s.Adds s' (.ofActions actions)
  | [], s, _, ho, _, _, h => by
    rw [← Except.ok.inj h]
    exact .refl ho
  | a :: actions, s, hs, ho, hm, hp, h => by
    unfold performAll at h
    split at h
    · simp at h
    · next s₁ ha =>
      have hadds := perform_adds hs ho hm (hp a List.mem_cons_self) ha
      have hm₁ : s₁.machine? device = some m := (hadds.machine? device).trans hm
      rw [Tally.ofActions_cons]
      exact hadds.trans (performAll_adds (hadds.arranged hs) hadds.orderly hm₁
        (fun a' ha' => hp a' (List.mem_cons_of_mem a ha')) h)

/-! ## The start -/

theorem startSensor_adds (ho : s.Orderly) {sensor : Sensor} (h : s.startSensor sensor = .ok s') :
    s.Adds s' {} := by
  unfold startSensor at h
  split at h
  · rw [← Except.ok.inj h]
    exact .refl ho
  · next app _ =>
    simp only at h
    obtain ⟨_, rfl⟩ := scheduleAfter_ok_cases h
    split
    · exact schedule_adds ho _ _ _ (by simp [Task.addressee?])
    · next root _ =>
      have hrequest : s.Adds (s.scheduleNow root
          (.device (.placementRequestSubmitted (sensorRequest sensor app)))) {} :=
        schedule_event_adds ho root s.now rfl
      exact hrequest.trans (schedule_adds hrequest.orderly _ _ _ (by simp [Task.addressee?]))

/-- The start sends no message. -/
theorem start_adds (ho : s.Orderly) (h : s.start = .ok s') :
    { s with started := s'.started }.Adds s' {} := by
  have hfold {α : Type} {f : Simulation → α → Except Overflow Simulation}
      (hf : ∀ {s a s'}, f s a = .ok s' → s.Orderly → s.Adds s' {}) {l : List α}
      {s s' : Simulation} (h : l.foldlM f s = .ok s') (ho : s.Orderly) : s.Adds s' {} :=
    foldlM_ok (R := fun s s' => s.Orderly → s.Adds s' {}) (fun _ => Adds.refl)
      (fun h h' ho => (h ho).trans (h' (h ho).orderly)) hf h ho
  unfold start at h
  split at h
  · rw [← Except.ok.inj h]
    exact .refl ho
  · simp only at h
    cases hm : s.machines.values.foldlM startMachine { s with started := true } with
    | error e => rw [hm] at h; exact absurd h (by simp [bind, Except.bind])
    | ok s₁ =>
      rw [hm] at h
      have hmachines := hfold (fun h ho => performAll_commands_adds ho Machine.start_commands h) hm
        ⟨ho.numbered, ho.addressed⟩
      have hsensors := hfold (fun h ho => startSensor_adds ho h) h hmachines.orderly
      have hall := hmachines.trans hsensors
      rwa [show s'.started = true from by rw [hall.frame]]

/-! ## New messages -/

/-- New messages arrive, with the numbers that come next, and nothing else happens to messages. -/
def Numbers (s s' : Simulation) : Prop := ∃ count generator,
  { s with lastMessage := s.lastMessage + count, generator }.Adds s'
    { arriving := List.range' (s.lastMessage + 1) count }

theorem Adds.numbers (h : s.Adds s' {}) : s.Numbers s' := ⟨0, s.generator, h⟩

/-- A sensor emits a message to its gateway. -/
theorem emit_adds (hs : s.Arranged net) (ho : s.Orderly) {id : SensorId} {sensor : Sensor}
    {app : Application} (hx : s.sensors.get? id = some sensor)
    (ha : net.application? sensor.app = some app) (h : s.emit sensor app = .ok s') :
    { s with lastMessage := s.lastMessage + 1 }.Adds s' { arriving := [s.lastMessage + 1] } := by
  obtain ⟨hgateway, hedge⟩ := hs.sensors id sensor hx
  obtain ⟨edge, hedge⟩ := Option.isSome_iff_exists.mp (hedge app ha)
  have hcount : { s with lastMessage := s.lastMessage + 1 }.Adds
      ({ s with lastMessage := s.lastMessage + 1 }.count Statistics.countEmission) {} :=
    count_adds (s := { s with lastMessage := s.lastMessage + 1 }) ⟨ho.numbered, ho.addressed⟩
      _ rfl rfl rfl
  unfold emit at h
  simp only [Application.sensorMessage?, hedge, Option.map_some] at h
  obtain ⟨_, rfl⟩ := scheduleAfter_ok_cases h
  refine hcount.trans (schedule_adds hcount.orderly _ _ _ fun d hd => ?_)
  rw [← Option.some.inj hd]
  exact hgateway

theorem tick_numbers (hs : s.Arranged net) (ho : s.Orderly) {id : SensorId}
    (h : s.tick id = .ok s') : s.Numbers s' := by
  unfold tick at h
  split at h
  · rw [← Except.ok.inj h]
    exact (Adds.refl ho).numbers
  · next sensor hx =>
    split at h
    · rw [← Except.ok.inj h]
      exact (Adds.refl ho).numbers
    · next app ha =>
      rw [hs.network] at ha
      cases he : s.emit sensor app with
      | error e => rw [he] at h; exact absurd h (by simp [bind, Except.bind])
      | ok s₁ =>
        rw [he] at h
        obtain ⟨_, rfl⟩ := scheduleAfter_ok_cases h
        have hadds := emit_adds hs ho hx ha he
        have htimer := schedule_adds hadds.orderly sensor.gateway (s₁.now + sensor.interval)
          (.sensorTick id) (by simp [Task.addressee?])
        exact ⟨1, s.generator, hadds.trans htimer⟩

theorem foldl_arrivals_adds {device : DeviceId} : ∀ (outputs : List Message) {s : Simulation},
    s.Orderly → s.machines.contains device = true →
      s.Adds (outputs.foldl (fun s output =>
        s.scheduleNow device (.device (.messageArrived output))) s)
        { arriving := outputs.map Message.id }
  | [], _, ho, _ => .refl ho
  | output :: outputs, s, ho, hd => by
    have hadds := schedule_adds ho device s.now (.device (.messageArrived output))
      (by simpa [Task.addressee?] using hd)
    have hrest := foldl_arrivals_adds outputs hadds.orderly hd
    exact hadds.trans hrest

theorem resultants_ids (app : Application) (name : Name) (input : Message) (id : MessageId)
    (g : Generator) : (app.resultants name input id g).1.map Message.id
      = List.range' id (app.resultants name input id g).1.length := by
  unfold Application.resultants
  split
  · rfl
  · exact app.resultantsFrom_ids _ _ _ _ _

theorem complete_numbers (ho : s.Orderly) {target : InstanceId} (message : Message)
    (ht : s.machines.contains target.device = true) : s.Numbers (s.complete target message) := by
  unfold complete
  split
  · exact (Adds.refl ho).numbers
  · next app _ =>
    have hids := resultants_ids app message.destination message (s.lastMessage + 1) s.generator
    cases hr : app.resultants message.destination message (s.lastMessage + 1) s.generator with
      | mk outputs generator =>
    rw [hr] at hids
    refine ⟨outputs.length, generator, ?_⟩
    rw [← hids]
    exact foldl_arrivals_adds outputs ⟨ho.numbered, ho.addressed⟩ ht

end Simulation

end FogNet
