import FogNet.Proofs.Simulation.Agenda
import FogNet.Proofs.Simulation.Replies

/-!
# Emissions and samples

Statistics count what sensors emit and sum up how long it took to close loops. A simulation does not
keep what it counted. Here it is read off the history: which message a sensor emitted when its
interval was over, and which loops were closed when a message reached an actuator, each by what
message and after what time. Nothing else changes these statistics.

## Main statements

* `process_counts` — what a step adds to the statistics
* `counted_of_ran` — the statistics of a reached simulation are those of its history
* `get?_sampled` — what is recorded for a loop are the samples of this loop, in order
-/

namespace FogNet

/-! ## Samples -/

/-- A message reached an actuator, and a loop of its application was closed. -/
structure Sample where
  loop : LoopKey
  taken : Duration
  actuator : Actuator
  message : Message

/-- Samples are recorded one after another. -/
def Sample.recordAll (m : SortedMap LoopKey Average) (samples : List Sample) :
    SortedMap LoopKey Average :=
  samples.foldl (fun m x => m.upsert x.loop {} fun a => a.record x.taken) m

/-- What is recorded for a loop are its samples, in order. -/
theorem Sample.get?_recordAll (key : LoopKey) : ∀ (samples : List Sample)
    (m : SortedMap LoopKey Average), (recordAll m samples).get? key
      = (samples.filter fun x => x.loop = key).foldl
          (fun found x => some ((found.getD {}).record x.taken)) (m.get? key)
  | [], _ => rfl
  | x :: samples, m => by
    have ih := get?_recordAll key samples (m.upsert x.loop {} fun a => a.record x.taken)
    rw [SortedMap.upsert, SortedMap.get?_insert] at ih
    by_cases hkey : x.loop = key
    · rw [if_pos hkey.symm, hkey] at ih
      rw [List.filter_cons_of_pos (by simpa using hkey), List.foldl_cons]
      subst hkey
      exact ih
    · rw [if_neg (Ne.symm hkey)] at ih
      rw [List.filter_cons_of_neg (by simpa using hkey)]
      exact ih

/-- Dispatch hands no other message to an actuator than the one that arrived. -/
theorem Machine.deliver_of_dispatched {net : Network} {m : Machine} {message handed : Message}
    {actions : List Action} {o : Outbound} (h : m.Dispatched net message actions o)
    {actuator : ActuatorId} (ha : .deliverToActuator actuator handed ∈ actions) :
    message = handed ∧ message.direction = .actuator := by
  cases h with
  | delivered targets hdirection =>
    obtain ⟨_, _, he⟩ := List.mem_map.mp ha
    exact ⟨(Action.deliverToActuator.inj he).2, hdirection⟩
  | sent _ _ _ _ _ hsend =>
    rcases Outbound.send_cases hsend with ⟨rfl, _⟩ | ⟨_, rfl, _⟩ <;> simp at ha
  | _ => cases List.mem_singleton.mp ha

namespace Simulation

variable {net : Network} {seed : UInt64} {s s' : Simulation} {l : Layout} {history : List Step}
  {bookings : List Booking} {key : Key} {task : Task}

/-- The samples that are taken when an action is carried out. -/
def samples (s : Simulation) : Action → List Sample
  | .deliverToActuator actuator message =>
    match s.actuators.get? actuator with
    | none => []
    | some a =>
      match s.network.application? message.app with
      | none => []
      | some app => (app.loopsEndingAt a.actuatorType).map fun loop =>
          ⟨⟨app.id, loop⟩, s.now + a.latency - message.emittedAt, a, message⟩
  | _ => []

/-- A sample is taken when a message is handed to an actuator at the end of a loop. -/
theorem mem_samples {a : Action} {x : Sample} : x ∈ s.samples a ↔ ∃ actuator app,
    a = .deliverToActuator actuator x.message ∧ s.actuators.get? actuator = some x.actuator
      ∧ s.network.application? x.message.app = some app
      ∧ x.loop.app = app.id ∧ x.loop.loop ∈ app.loopsEndingAt x.actuator.actuatorType
      ∧ x.taken = s.now + x.actuator.latency - x.message.emittedAt := by
  constructor
  · intro hx
    cases a with
    | deliverToActuator actuator message =>
      simp only [samples] at hx
      split at hx
      · cases hx
      · next a ha =>
        split at hx
        · cases hx
        · next app happ =>
          obtain ⟨loop, hloop, rfl⟩ := List.mem_map.mp hx
          exact ⟨actuator, app, rfl, ha, happ, rfl, hloop, rfl⟩
    | _ => cases hx
  · rintro ⟨actuator, app, rfl, ha, happ, hid, hloop, htaken⟩
    simp only [samples, ha, happ]
    refine List.mem_map.mpr ⟨x.loop.loop, hloop, ?_⟩
    rw [← hid, ← htaken]

/-- An action means the same with the same actuators and applications at the same time. -/
theorem samples_congr (hnetwork : s'.network = s.network) (hactuators : s'.actuators = s.actuators)
    (hnow : s'.now = s.now) : s'.samples = s.samples := by
  funext a
  cases a <;> simp only [samples, hnetwork, hactuators, hnow]

/-- A message that a sensor emitted, and the device where it arrives. -/
structure Emitted where
  sensor : SensorId
  device : DeviceId
  message : Message

namespace Step

/-- What was emitted when the interval of a sensor was over. -/
def emitted (x : Step) : List Emitted :=
  match x.task with
  | .sensorTick id => x.schedules.filterMap fun b =>
      (b.task.carried? b.device).map fun arrival => ⟨id, arrival.1, arrival.2⟩
  | _ => []

/-- The samples that were taken when the device of the task had decided what to do. -/
def samples (x : Step) : List Sample :=
  match x.task with
  | .device event =>
    (x.actions event).flatMap ({ x.before with now := x.key.time } : Simulation).samples
  | _ => []

end Step

/-- All that sensors emitted. -/
def emittedIn (history : List Step) : List Emitted := history.flatMap Step.emitted

/-- All samples that were taken. -/
def sampledIn (history : List Step) : List Sample := history.flatMap Step.samples

/-! ## What is counted -/

/--
Sensors emit some messages and some loops are closed between two simulations. Besides, no event
counts as processed.
-/
structure Counts (s s' : Simulation) (emissions : Nat) (samples : List Sample) : Prop where
  emissions : s'.statistics.sensorEmissions = s.statistics.sensorEmissions + emissions
  loops : s'.statistics.loopLatency = Sample.recordAll s.statistics.loopLatency samples
  events : s'.statistics.byPriority = s.statistics.byPriority

namespace Counts

variable {n n' : Nat} {taken taken' : List Sample}

/-- Other things may be counted. -/
theorem still (hemissions : s'.statistics.sensorEmissions = s.statistics.sensorEmissions)
    (hloops : s'.statistics.loopLatency = s.statistics.loopLatency)
    (hevents : s'.statistics.byPriority = s.statistics.byPriority) : s.Counts s' 0 [] :=
  ⟨hemissions, hloops, hevents⟩

theorem refl (s : Simulation) : s.Counts s 0 [] := still rfl rfl rfl

theorem trans {s₁ s₂ s₃ : Simulation} (h : s₁.Counts s₂ n taken) (h' : s₂.Counts s₃ n' taken') :
    s₁.Counts s₃ (n + n') (taken ++ taken') where
  emissions := by rw [h'.emissions, h.emissions, Nat.add_assoc]
  loops := by rw [h'.loops, h.loops, Sample.recordAll, Sample.recordAll, Sample.recordAll,
    List.foldl_append]
  events := h'.events.trans h.events

end Counts

theorem schedule_counts (s : Simulation) (device : DeviceId) (time : Duration) (task : Task) :
    s.Counts (s.schedule device time task) 0 [] := .still rfl rfl rfl

theorem scheduleAfter_counts {device : DeviceId} {delay : Duration}
    (h : s.scheduleAfter device delay task = .ok s') : s.Counts s' 0 [] := by
  obtain ⟨_, rfl⟩ := scheduleAfter_ok_cases h
  exact schedule_counts s device _ task

theorem record_counts (s : Simulation) (m : Metric) : s.Counts (s.record m) 0 [] :=
  .still rfl rfl rfl

theorem count_counts (s : Simulation) {f : Statistics → Statistics}
    (hemissions : (f s.statistics).sensorEmissions = s.statistics.sensorEmissions)
    (hloops : (f s.statistics).loopLatency = s.statistics.loopLatency)
    (hevents : (f s.statistics).byPriority = s.statistics.byPriority) : s.Counts (s.count f) 0 [] :=
  .still hemissions hloops hevents

theorem foldl_closeLoop_counts (app : AppId) (a : Actuator) (message : Message)
    (latency : Duration) : ∀ (loops : List LoopId) (s : Simulation),
      s.Counts (loops.foldl (closeLoop app latency) s) 0
        (loops.map fun loop => ⟨⟨app, loop⟩, latency, a, message⟩)
  | [], s => .refl s
  | loop :: loops, s =>
    have hclosed : s.Counts (closeLoop app latency s loop) 0
        [⟨⟨app, loop⟩, latency, a, message⟩] := ⟨rfl, rfl, rfl⟩
    hclosed.trans (foldl_closeLoop_counts app a message latency loops _)

theorem actuate_counts {actuator : ActuatorId} {message : Message}
    (h : s.actuate actuator message = .ok s') :
    s.Counts s' 0 (s.samples (.deliverToActuator actuator message)) := by
  unfold actuate at h
  cases ha : s.actuators.get? actuator with
  | none =>
    simp only [ha, Except.ok.injEq] at h
    simp only [samples, ha]
    exact h ▸ .refl s
  | some a =>
    simp only [ha] at h
    cases hl : s.later a.latency with
    | error e => rw [hl] at h; exact absurd h (by simp [bind, Except.bind])
    | ok arrival =>
      have harrival : arrival = s.now + a.latency := by
        unfold later at hl
        split at hl
        · next htime =>
          obtain ⟨_, rfl⟩ := Duration.add?_eq_some_iff.mp htime
          exact (Except.ok.inj hl).symm
        · cases hl
      rw [hl] at h
      simp only [bind, Except.bind] at h
      simp only [samples, ha]
      have hdelivery : s.Counts (s.count Statistics.countDelivery) 0 [] :=
        count_counts s rfl rfl rfl
      split at h
      · next hnone =>
        have hnone : s.network.application? message.app = none := hnone
        rw [hnone]
        exact Except.ok.inj h ▸ hdelivery
      · next app happ =>
        have happ : s.network.application? message.app = some app := happ
        rw [happ, ← Except.ok.inj h, ← harrival]
        exact hdelivery.trans (foldl_closeLoop_counts _ _ _ _ _ _)

theorem perform_counts {device : DeviceId} {a : Action} (h : s.perform device a = .ok s') :
    s.Counts s' 0 (s.samples a) := by
  cases a with
  | transmit target link message transmission latency =>
    exact ((count_counts s rfl rfl rfl).trans (record_counts _ _)).trans (scheduleAfter_counts h)
  | deliver target event =>
    rw [← Except.ok.inj h]
    split
    · exact schedule_counts s target _ _
    · exact .refl s
  | setTimer timer duration =>
    simp only [perform] at h
    cases ht : s.scheduleAfter device duration (.device timer.event) with
    | error e => simp [ht, Except.map] at h
    | ok s₁ =>
      simp only [ht, Except.map, Except.ok.injEq] at h
      exact h ▸ (scheduleAfter_counts ht).trans (count_counts s₁ rfl rfl rfl)
  | execute target message =>
    simp only [perform, execute] at h
    split at h
    · simp at h
    · exact ((count_counts s rfl rfl rfl).trans (record_counts _ _)).trans (scheduleAfter_counts h)
  | deliverToActuator actuator message => exact actuate_counts h
  | enqueueInternal event | recordDrop id reason | recordCloudTraffic id =>
    rw [← Except.ok.inj h]
    exact .still rfl rfl rfl

theorem performAll_counts {device : DeviceId} : ∀ {actions : List Action} {s : Simulation},
    s.performAll device actions = .ok s' → s.Counts s' 0 (actions.flatMap s.samples)
  | [], s, h => by
    rw [← Except.ok.inj h]
    exact .refl s
  | a :: actions, s, h => by
    unfold performAll at h
    split at h
    · simp at h
    · next s₁ ha =>
      have hbooks := perform_books ha
      have hsame : s₁.samples = s.samples :=
        samples_congr hbooks.network (by rw [hbooks.frame]) hbooks.now
      have hrest := performAll_counts h
      rw [hsame] at hrest
      exact (perform_counts ha).trans hrest

/-! ## Steps -/

theorem emit_counts {sensor : Sensor} {app : Application} (h : s.emit sensor app = .ok s') :
    s.Counts s' (if (app.sensorEdge? sensor.tupleType).isSome then 1 else 0) [] := by
  unfold emit Application.sensorMessage? at h
  cases hedge : app.sensorEdge? sensor.tupleType with
  | none =>
    simp only [hedge, Option.map_none, Except.ok.injEq] at h
    exact h ▸ .still rfl rfl rfl
  | some e =>
    simp only [hedge, Option.map_some] at h
    have hemission : s.Counts ({ s with lastMessage := s.lastMessage + 1 }.count
        Statistics.countEmission) 1 [] := ⟨rfl, rfl, rfl⟩
    exact hemission.trans (scheduleAfter_counts h)

/-- What is scheduled at the end of an interval is a message of the sensor or its next interval. -/
theorem emission_of_mem_ticked {id : SensorId} {b : Booking} (h : b ∈ s.ticked id) :
    s.Emission id b := by
  unfold ticked at h
  split at h
  · cases h
  · next hx =>
    split at h
    · cases h
    · next ha =>
      rcases List.mem_append.mp h with h | h
      · obtain ⟨_, hmessage, rfl⟩ := Option.map_eq_some_iff.mp (Option.mem_toList.mp h)
        exact .arrival hx ha hmessage
      · rw [List.mem_singleton.mp h]
        exact .interval hx

/-- What is scheduled at the end of an interval, for a sensor that is attached. -/
theorem Step.schedules_of_tick {id : SensorId} {sensor : Sensor} {app : Application}
    (hx : s.sensors.get? id = some sensor) (ha : s.network.application? sensor.app = some app) :
    Step.schedules ⟨s, key, .sensorTick id⟩
      = (s.take key (.sensorTick id)).emissions id sensor app := by
  have hx : (s.take key (.sensorTick id)).sensors.get? id = some sensor := hx
  have ha : (s.take key (.sensorTick id)).network.application? sensor.app = some app := ha
  simp only [Step.schedules, ticked, hx, ha]

/-- What is emitted at the end of an interval is what the sensor has an edge for. -/
theorem Step.emitted_of_tick {id : SensorId} {sensor : Sensor} {app : Application}
    (hx : s.sensors.get? id = some sensor) (ha : s.network.application? sensor.app = some app) :
    Step.emitted ⟨s, key, .sensorTick id⟩
      = ((app.sensorMessage? sensor.tupleType (s.lastMessage + 1) key.time).map fun message =>
          (⟨id, sensor.gateway, { message with destinationDevice := some sensor.gateway }⟩ :
            Emitted)).toList := by
  simp only [Step.emitted, Step.schedules_of_tick hx ha, emissions]
  rw [show (s.take key (.sensorTick id)).lastMessage = s.lastMessage from rfl,
    show (s.take key (.sensorTick id)).now = key.time from rfl]
  cases app.sensorMessage? sensor.tupleType (s.lastMessage + 1) key.time <;> rfl

/-- A message is emitted by an attached sensor, on an edge of its application, at its gateway. -/
theorem Step.emitted_cases {e : Emitted} (h : e ∈ Step.emitted ⟨s, key, task⟩) :
    ∃ sensor app edge, task = .sensorTick e.sensor ∧ s.sensors.get? e.sensor = some sensor
      ∧ s.network.application? sensor.app = some app
      ∧ app.sensorEdge? sensor.tupleType = some edge ∧ e.device = sensor.gateway
      ∧ e.message =
        { id := s.lastMessage + 1, app := app.id, user := app.user, tupleType := edge.tupleType,
          direction := .up, source := edge.source, destination := edge.destination,
          cpuLength := edge.cpuLength, size := edge.size, emittedAt := key.time,
          destinationDevice := some sensor.gateway } := by
  cases task with
  | sensorTick id =>
    cases hx : s.sensors.get? id with
    | none =>
      have hx : (s.take key (.sensorTick id)).sensors.get? id = none := hx
      simp only [Step.emitted, Step.schedules, ticked, hx, List.filterMap_nil] at h
      cases h
    | some sensor =>
      cases ha : s.network.application? sensor.app with
      | none =>
        have hx : (s.take key (.sensorTick id)).sensors.get? id = some sensor := hx
        have ha : (s.take key (.sensorTick id)).network.application? sensor.app = none := ha
        simp only [Step.emitted, Step.schedules, ticked, hx, ha, List.filterMap_nil] at h
        cases h
      | some app =>
        rw [Step.emitted_of_tick hx ha, Option.mem_toList] at h
        obtain ⟨message, hmessage, rfl⟩ := Option.map_eq_some_iff.mp h
        obtain ⟨edge, hedge, rfl⟩ := Option.map_eq_some_iff.mp hmessage
        exact ⟨sensor, app, edge, rfl, hx, ha, hedge, rfl, rfl⟩
  | device _ | executionCompleted _ _ => cases h

theorem tick_counts {id : SensorId}
    (h : (s.take key (.sensorTick id)).tick id = .ok s') :
    (s.take key (.sensorTick id)).Counts s' (Step.emitted ⟨s, key, .sensorTick id⟩).length [] := by
  have hticked (hnone : (s.take key (.sensorTick id)).ticked id = []) :
      (Step.emitted ⟨s, key, .sensorTick id⟩).length = 0 := by
    simp only [Step.emitted, Step.schedules, hnone, List.filterMap_nil, List.length_nil]
  cases hx : (s.take key (.sensorTick id)).sensors.get? id with
  | none =>
    rw [hticked (by simp only [ticked, hx])]
    simp only [tick, hx, Except.ok.injEq] at h
    exact h ▸ .refl _
  | some sensor =>
    cases ha : (s.take key (.sensorTick id)).network.application? sensor.app with
    | none =>
      rw [hticked (by simp only [ticked, hx, ha])]
      simp only [tick, hx, ha, Except.ok.injEq] at h
      exact h ▸ .refl _
    | some app =>
      simp only [tick, hx, ha] at h
      cases he : (s.take key (.sensorTick id)).emit sensor app with
      | error e => rw [he] at h; exact absurd h (by simp [bind, Except.bind])
      | ok s₁ =>
        rw [he] at h
        have hcounts := (emit_counts he).trans (scheduleAfter_counts h)
        rw [Step.emitted_of_tick (s := s) hx ha, Application.sensorMessage?]
        cases hedge : app.sensorEdge? sensor.tupleType <;> rw [hedge] at hcounts <;> exact hcounts

theorem foldl_arrivals_counts (device : DeviceId) : ∀ (outputs : List Message) (s : Simulation),
    s.Counts (outputs.foldl (fun s output =>
      s.scheduleNow device (.device (.messageArrived output))) s) 0 []
  | [], s => .refl s
  | _ :: outputs, s =>
    (schedule_counts s device s.now _).trans
      (foldl_arrivals_counts device outputs _)

theorem complete_counts (s : Simulation) (target : InstanceId) (message : Message) :
    s.Counts (s.complete target message) 0 [] := by
  unfold complete
  split
  · exact .refl s
  · next app _ =>
    rcases app.resultants message.destination message (s.lastMessage + 1) s.generator with
      ⟨outputs, generator⟩
    have hnumber : s.Counts { s with generator, lastMessage := s.lastMessage + outputs.length }
        0 [] := .still rfl rfl rfl
    exact hnumber.trans (foldl_arrivals_counts target.device outputs _)

/-- What a step adds to the statistics, when its task has been taken. -/
theorem process_counts (h : (s.take key task).process key task = .ok s') :
    (s.take key task).Counts s' (Step.emitted ⟨s, key, task⟩).length
      (Step.samples ⟨s, key, task⟩) := by
  cases task with
  | sensorTick id => exact tick_counts h
  | executionCompleted target message =>
    rw [← Except.ok.inj h]
    exact complete_counts _ target message
  | device event =>
    show Counts _ _ 0 ((Step.actions ⟨s, key, .device event⟩ event).flatMap
      ({ s with now := key.time } : Simulation).samples)
    rcases happen_cases h with ⟨hm, rfl⟩ | ⟨m, actions, m', log, hm, hvalue, hall⟩
    · rw [Step.actions_of_none (s := s) hm]
      exact .refl _
    · rw [Step.actions_of_handle (s := s) hm hvalue]
      have hhandled : (s.take key (.device event)).Counts (count
          { s.take key (.device event) with machines := s.machines.insert key.device m', log }
            fun t => t.countActions actions.length) 0 [] := .still rfl rfl rfl
      exact hhandled.trans (performAll_counts hall)

theorem foldlM_counts {α : Type} {f : Simulation → α → Except Overflow Simulation}
    (hf : ∀ {s s' : Simulation} {a : α}, f s a = .ok s' → s.Counts s' 0 []) :
    ∀ {l : List α} {s : Simulation}, l.foldlM f s = .ok s' → s.Counts s' 0 []
  | [], s, h => Except.ok.inj h ▸ .refl s
  | a :: l, s, h => by
    rw [List.foldlM_cons] at h
    cases ha : f s a with
    | error e => rw [ha] at h; exact absurd h (by simp [bind, Except.bind])
    | ok s₁ =>
      rw [ha] at h
      exact (hf ha).trans (foldlM_counts hf h)

/-- A machine starts without anything for an actuator. -/
theorem startMachine_counts {m : Machine} (h : s.startMachine m = .ok s') : s.Counts s' 0 [] := by
  have hnone : m.start.flatMap s.samples = [] := by
    refine List.flatMap_eq_nil_iff.mpr fun a ha => ?_
    rcases Machine.start_actions ha with rfl | ⟨_, _, rfl⟩ <;> rfl
  exact hnone ▸ performAll_counts h

theorem startSensor_counts {sensor : Sensor} (h : s.startSensor sensor = .ok s') :
    s.Counts s' 0 [] := by
  unfold startSensor at h
  split at h
  · exact Except.ok.inj h ▸ .refl s
  · simp only at h
    split at h
    · exact scheduleAfter_counts h
    · exact (schedule_counts s _ s.now _).trans (scheduleAfter_counts h)

theorem start_counts (h : s.start = .ok s') : s.Counts s' 0 [] := by
  unfold start at h
  split at h
  · exact Except.ok.inj h ▸ .refl s
  · simp only at h
    cases hm : s.machines.values.foldlM startMachine { s with started := true } with
    | error e => rw [hm] at h; exact absurd h (by simp [bind, Except.bind])
    | ok s₁ =>
      rw [hm] at h
      have hstarted : s.Counts { s with started := true } 0 [] := .still rfl rfl rfl
      exact (hstarted.trans (foldlM_counts startMachine_counts hm)).trans
        (foldlM_counts startSensor_counts h)

/-! ## Runs -/

/-- The statistics of a simulation are those of its history. -/
structure Counted (history : List Step) (s : Simulation) : Prop where
  emissions : s.statistics.sensorEmissions = (emittedIn history).length
  loops : s.statistics.loopLatency = Sample.recordAll SortedMap.empty (sampledIn history)
  events : ∀ p, s.statistics.eventsOf p = history.countP fun x => x.task.priority = p

namespace Counted

theorem still (h : s.Counted history) (hs : s.Counts s' 0 []) : s'.Counted history where
  emissions := hs.emissions.trans h.emissions
  loops := hs.loops.trans h.loops
  events p := by
    rw [Statistics.eventsOf, hs.events]
    exact h.events p

theorem step (h : s.Counted history) (hp : (s.take key task).process key task = .ok s') :
    s'.Counted (history ++ [⟨s, key, task⟩]) := by
  have hcounts := process_counts hp
  constructor
  · rw [hcounts.emissions, emittedIn, List.flatMap_append, List.flatMap_singleton,
      List.length_append]
    exact congrArg (· + _) h.emissions
  · rw [hcounts.loops, sampledIn, List.flatMap_append, List.flatMap_singleton, Sample.recordAll,
      Sample.recordAll, List.foldl_append]
    exact congrArg (List.foldl _ · _) h.loops
  · intro p
    rw [Statistics.eventsOf, hcounts.events, List.countP_append, List.countP_singleton, ← h.events]
    refine (Statistics.eventsOf_countEvent s.statistics task.priority p).trans ?_
    by_cases hp : p = task.priority
    · simp [hp]
    · simp [hp, Ne.symm hp]

end Counted

/-- The statistics of a reached simulation are those of its history. -/
theorem counted_of_ran (h : Ran net seed history s) : s.Counted history := by
  induction h with
  | create => exact ⟨rfl, rfl, fun _ => rfl⟩
  | sensor _ hs ih =>
    obtain ⟨_, _, _, _, rfl⟩ := addSensor_ok_cases hs
    exact ih.still (.still rfl rfl rfl)
  | actuator _ hs ih =>
    obtain ⟨_, _, _, _, rfl⟩ := addActuator_ok_cases hs
    exact ih.still (.still rfl rfl rfl)
  | start _ hs ih => exact ih.still (start_counts hs)
  | step _ _ hp ih => exact ih.step hp
  | settle stop _ ih => exact ih.still (.still rfl rfl rfl)

/-! ## How samples come about -/

/--
A sample is taken when a message arrives at a device that hands it to an actuator, for each loop of
its application that ends there.
-/
structure Step.Takes (net : Network) (x : Step) (z : Sample) : Prop where
  arrived : x.task = .device (.messageArrived z.message)
  delivered : ∃ id, .deliverToActuator id z.message ∈ x.actions (.messageArrived z.message)
    ∧ x.before.actuators.get? id = some z.actuator
  loop : ∃ app, net.application? z.message.app = some app ∧ z.loop.app = app.id
    ∧ z.loop.loop ∈ app.loopsEndingAt z.actuator.actuatorType
  taken : z.taken = x.key.time + z.actuator.latency - z.message.emittedAt

/-- All samples come about in this way. -/
theorem takes_of_mem (hb : Topology.build l = .ok net.topology) (h : Ran net seed history s)
    {x : Step} (hx : x ∈ history) {z : Sample} (hz : z ∈ x.samples) : x.Takes net z := by
  obtain ⟨_, hran, _⟩ := h.mem hx
  have hnetwork := (intact_of_ran hb hran).arranged.network
  unfold Step.samples at hz
  split at hz
  · next event ht =>
    obtain ⟨a, hdelivered, hz⟩ := List.mem_flatMap.mp hz
    obtain ⟨id, app, rfl, hactuator, happ, hid, hloop, htaken⟩ := mem_samples.mp hz
    have happ : x.before.network.application? z.message.app = some app := happ
    rw [hnetwork] at happ
    -- Only a message that arrives is handed to an actuator.
    obtain rfl : event = .messageArrived z.message := by
      rcases effect_of_mem hb h hx ht with ⟨_, hnil⟩ | ⟨m, m', hm, heffect⟩
      · rw [hnil] at hdelivered
        cases hdelivered
      · obtain ⟨arrived, rest, o, he, hrest, hmem⟩ :=
          Machine.dispatched_of_effect heffect hdelivered (fun hc => hc.elim) rfl
        rw [he, (Machine.deliver_of_dispatched hrest hmem).1]
    exact ⟨ht, ⟨id, hdelivered, hactuator⟩, ⟨app, happ, hid, hloop⟩, htaken⟩
  · cases hz

end Simulation

end FogNet
