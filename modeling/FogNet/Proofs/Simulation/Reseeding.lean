import FogNet.Proofs.Simulation.Measurements

/-!
# Where the seed does not matter

The generator of a simulation decides on nothing but the outputs of microservices, and it is not
even asked where a fraction is certain: one or more, or zero or less. If all fractions are, another
generator changes nothing. Whatever is done to the simulation with the other generator is what is
done to the first, and the other generator is still there as it was. So two simulations with
different seeds process the same tasks, with the same actions and the same messages, and differ in
their generators only.

## Main statements

* `Application.resultants_certain` — certain fractions leave the generator alone
* `perform_reseed`, `complete_reseed`, `process_reseed` — steps with another generator
* `advance_reseed`, `runUntil_reseed` — runs with another generator
* `seeds_alike` — two seeds lead through the same states but for the generator
-/

namespace FogNet

/-! ## Certain fractions -/

namespace Application

/-- All fractions that apply to inputs of a microservice are at least one or at most zero. -/
def Certain (app : Application) : Prop :=
  ∀ m ∈ app.microservices, ∀ input output fraction, m.selectivity? input output = some fraction →
    fraction.toFloat ≥ 1.0 ∨ fraction.toFloat ≤ 0.0

/-- It is enough that all fractions that were ever given are certain. -/
theorem certain_of_selectivities {app : Application}
    (h : ∀ m ∈ app.microservices, ∀ x ∈ m.selectivities,
      x.fraction.toFloat ≥ 1.0 ∨ x.fraction.toFloat ≤ 0.0) : app.Certain := by
  intro m hm input output fraction hf
  obtain ⟨x, hx, rfl⟩ := Option.map_eq_some_iff.mp hf
  exact h m hm x (List.mem_of_find?_eq_some hx)

/-- A certain fraction decides without the generator. -/
theorem selects_certain {fraction : Float} (h : fraction ≥ 1.0 ∨ fraction ≤ 0.0)
    (g g' : Generator) : selects fraction g' = ((selects fraction g).1, g') := by
  by_cases hone : fraction ≥ 1.0
  · rw [selects_of_one_le hone, selects_of_one_le hone]
  · have hzero := h.resolve_left hone
    rw [selects_of_le_zero hzero hone, selects_of_le_zero hzero hone]

variable {app : Application} {m : Microservice} {input : Message}

theorem resultantsFrom_certain (hm : ∀ output fraction,
      m.selectivity? input.tupleType output = some fraction →
        fraction.toFloat ≥ 1.0 ∨ fraction.toFloat ≤ 0.0) (g g' : Generator) :
    ∀ (edges : List Edge) (id : MessageId), resultantsFrom app m input edges id g'
      = ((resultantsFrom app m input edges id g).1, g')
  | [], _ => rfl
  | e :: rest, id => by
    unfold resultantsFrom
    cases hf : m.selectivity? input.tupleType e.tupleType with
    | none => exact resultantsFrom_certain hm g g' rest id
    | some fraction =>
      have hown := selects_certain (hm _ _ hf) g g
      have hother := selects_certain (hm _ _ hf) g g'
      cases hs : (selects fraction.toFloat g).1 with
      | false =>
        rw [hs] at hown hother
        simp only [hown, hother]
        exact resultantsFrom_certain hm g g' rest id
      | true =>
        rw [hs] at hown hother
        simp only [hown, hother]
        rw [resultantsFrom_certain hm g g' rest (id + 1)]

/-- Certain fractions give the same outputs with any generator, and leave it alone. -/
theorem resultants_certain (h : app.Certain) (name : Name) (input : Message) (id : MessageId)
    (g g' : Generator) :
    app.resultants name input id g' = ((app.resultants name input id g).1, g') := by
  unfold resultants
  split
  · rfl
  · next m hm =>
    exact resultantsFrom_certain (h m (List.mem_of_find?_eq_some hm) input.tupleType) g g' _ id

end Application

/-- All registered applications have certain fractions. -/
def Network.Certain (net : Network) : Prop :=
  ∀ id app, net.application? id = some app → app.Certain

namespace Simulation

/-! ## Another generator -/

/-- The simulation with another generator. -/
def reseed (g : Generator) (s : Simulation) : Simulation := { s with generator := g }

variable {net : Network} {g : Generator} {s s' : Simulation}

@[simp] theorem network_reseed : (s.reseed g).network = s.network := rfl

@[simp] theorem machines_reseed : (s.reseed g).machines = s.machines := rfl

@[simp] theorem machine?_reseed (id : DeviceId) : (s.reseed g).machine? id = s.machine? id := rfl

@[simp] theorem sensors_reseed : (s.reseed g).sensors = s.sensors := rfl

@[simp] theorem actuators_reseed : (s.reseed g).actuators = s.actuators := rfl

@[simp] theorem now_reseed : (s.reseed g).now = s.now := rfl

@[simp] theorem generator_reseed : (s.reseed g).generator = g := rfl

@[simp] theorem lastMessage_reseed : (s.reseed g).lastMessage = s.lastMessage := rfl

@[simp] theorem started_reseed : (s.reseed g).started = s.started := rfl

@[simp] theorem log_reseed : (s.reseed g).log = s.log := rfl

@[simp] theorem later_reseed (delay : Duration) : (s.reseed g).later delay = s.later delay := rfl

@[simp] theorem executionTime_reseed (message : Message) :
    (s.reseed g).executionTime message = s.executionTime message := rfl

@[simp] theorem next?_reseed (stop : Duration) : (s.reseed g).next? stop = s.next? stop := rfl

theorem count_reseed (f : Statistics → Statistics) :
    (s.reseed g).count f = (s.count f).reseed g := rfl

theorem record_reseed (x : Metric) : (s.reseed g).record x = (s.record x).reseed g := rfl

theorem scheduleNow_reseed (device : DeviceId) (task : Task) :
    (s.reseed g).scheduleNow device task = (s.scheduleNow device task).reseed g := rfl

theorem take_reseed (key : Key) (task : Task) :
    (s.reseed g).take key task = (s.take key task).reseed g := rfl

/-! ## Steps with another generator -/

theorem scheduleAfter_reseed (device : DeviceId) (delay : Duration) (task : Task) :
    (s.reseed g).scheduleAfter device delay task
      = (s.scheduleAfter device delay task).map (reseed g) := by
  unfold scheduleAfter
  rw [later_reseed]
  cases s.later delay <;> rfl

theorem transmit_reseed (target : DeviceId) (message : Message)
    (transmission latency : Duration) : (s.reseed g).transmit target message transmission latency
      = (s.transmit target message transmission latency).map (reseed g) := by
  simp only [transmit, count_reseed, record_reseed, scheduleAfter_reseed]

theorem execute_reseed (target : InstanceId) (message : Message) :
    (s.reseed g).execute target message = (s.execute target message).map (reseed g) := by
  unfold execute
  rw [executionTime_reseed]
  cases s.executionTime message with
  | none => rfl
  | some delay => simp only [count_reseed, record_reseed, scheduleAfter_reseed]

theorem closeLoops_reseed (app : AppId) (latency : Duration) : ∀ (loops : List LoopId)
    (s : Simulation), loops.foldl (closeLoop app latency) (s.reseed g)
      = (loops.foldl (closeLoop app latency) s).reseed g
  | [], _ => rfl
  | loop :: loops, s => closeLoops_reseed app latency loops (closeLoop app latency s loop)

theorem actuate_reseed (actuator : ActuatorId) (message : Message) :
    (s.reseed g).actuate actuator message = (s.actuate actuator message).map (reseed g) := by
  unfold actuate
  rw [actuators_reseed]
  cases s.actuators.get? actuator with
  | none => rfl
  | some a =>
    simp only [later_reseed, count_reseed, network_reseed, bind, Except.bind]
    cases s.later a.latency with
    | error left => rfl
    | ok arrival =>
      simp only
      cases (s.count Statistics.countDelivery).network.application? message.app with
      | none => rfl
      | some app => exact congrArg Except.ok (closeLoops_reseed _ _ _ _)

theorem perform_reseed (device : DeviceId) (a : Action) :
    (s.reseed g).perform device a = (s.perform device a).map (reseed g) := by
  cases a with
  | transmit target link message transmission latency => exact transmit_reseed ..
  | execute target message => exact execute_reseed ..
  | deliverToActuator actuator message => exact actuate_reseed ..
  | enqueueInternal event | recordDrop id reason | recordCloudTraffic id => rfl
  | deliver target event =>
    simp only [perform, machines_reseed, scheduleNow_reseed]
    exact congrArg Except.ok (apply_ite (reseed g) _ _ _).symm
  | setTimer timer duration =>
    simp only [perform, scheduleAfter_reseed]
    cases s.scheduleAfter device duration (.device timer.event) <;> rfl

theorem performAll_reseed (device : DeviceId) : ∀ (actions : List Action) (s : Simulation),
    (s.reseed g).performAll device actions = (s.performAll device actions).map (reseed g)
  | [], _ => rfl
  | a :: actions, s => by
    unfold performAll
    rw [perform_reseed]
    cases s.perform device a with
    | error left => rfl
    | ok s₁ => exact performAll_reseed device actions s₁

theorem happen_reseed (device : DeviceId) (event : Event) :
    (s.reseed g).happen device event = (s.happen device event).map (reseed g) := by
  unfold happen
  rw [machine?_reseed]
  cases s.machine? device with
  | none => rfl
  | some m =>
    simp only [now_reseed, network_reseed, log_reseed, machines_reseed]
    cases ({ m with now := s.now }.handle s.network event).value with
    | none => rfl
    | some answer =>
      let answered : Simulation := { s with
        machines := s.machines.insert device answer.2
        log := ({ m with now := s.now }.handle s.network event).metrics.reverse ++ s.log }
      exact performAll_reseed device answer.1
        (answered.count fun t => t.countActions answer.1.length)

theorem emit_reseed (sensor : Sensor) (app : Application) :
    (s.reseed g).emit sensor app = (s.emit sensor app).map (reseed g) := by
  unfold emit
  simp only [lastMessage_reseed, now_reseed]
  cases app.sensorMessage? sensor.tupleType (s.lastMessage + 1) s.now with
  | none => rfl
  | some message =>
    let numbered : Simulation := { s with lastMessage := s.lastMessage + 1 }
    exact scheduleAfter_reseed (s := numbered.count Statistics.countEmission) _ _ _

theorem tick_reseed (id : SensorId) :
    (s.reseed g).tick id = (s.tick id).map (reseed g) := by
  unfold tick
  rw [sensors_reseed]
  cases s.sensors.get? id with
  | none => rfl
  | some sensor =>
    simp only [network_reseed]
    cases s.network.application? sensor.app with
    | none => rfl
    | some app =>
      simp only [emit_reseed, bind, Except.bind]
      cases s.emit sensor app with
      | error left => rfl
      | ok s₁ => exact scheduleAfter_reseed _ _ _

theorem scheduleAll_reseed (device : DeviceId) : ∀ (outputs : List Message) (s : Simulation),
    outputs.foldl (fun s output => s.scheduleNow device (.device (.messageArrived output)))
        (s.reseed g)
      = (outputs.foldl (fun s output => s.scheduleNow device (.device (.messageArrived output)))
          s).reseed g
  | [], _ => rfl
  | _ :: outputs, s => scheduleAll_reseed device outputs (s.scheduleNow device _)

/-- What a microservice puts out does not depend on the generator, which is left as it was. -/
theorem complete_reseed (hc : s.network.Certain) (target : InstanceId) (message : Message) :
    (s.reseed g).complete target message = (s.complete target message).reseed g := by
  unfold complete
  rw [network_reseed]
  cases happ : s.network.application? message.app with
  | none => rfl
  | some app =>
    have hsame := Application.resultants_certain (hc _ _ happ) message.destination message
      (s.lastMessage + 1) s.generator g
    simp only [generator_reseed, lastMessage_reseed, hsame]
    exact scheduleAll_reseed target.device _ { s with
      generator := _
      lastMessage := s.lastMessage + _ }

theorem process_reseed (hc : s.network.Certain) (key : Key) (task : Task) :
    (s.reseed g).process key task = (s.process key task).map (reseed g) := by
  cases task with
  | sensorTick id => exact tick_reseed id
  | executionCompleted target message => exact congrArg Except.ok (complete_reseed hc ..)
  | device event => exact happen_reseed ..

/-! ## Runs with another generator -/

theorem foldlM_reseed {α : Type} {f : Simulation → α → Except Overflow Simulation}
    (hf : ∀ s a, f (s.reseed g) a = (f s a).map (reseed g)) : ∀ (l : List α) (s : Simulation),
      l.foldlM f (s.reseed g) = (l.foldlM f s).map (reseed g)
  | [], _ => rfl
  | a :: l, s => by
    rw [List.foldlM_cons, List.foldlM_cons, hf]
    cases f s a with
    | error left => rfl
    | ok s₁ => exact foldlM_reseed hf l s₁

theorem startSensor_reseed (s : Simulation) (sensor : Sensor) :
    (s.reseed g).startSensor sensor = (s.startSensor sensor).map (reseed g) := by
  unfold startSensor
  rw [network_reseed]
  cases s.network.application? sensor.app with
  | none => rfl
  | some app =>
    simp only
    cases s.network.topology.orchestratorFor sensor.gateway with
    | none => exact scheduleAfter_reseed _ _ _
    | some orchestrator => simp only [scheduleNow_reseed, scheduleAfter_reseed]

theorem start_reseed : (s.reseed g).start = s.start.map (reseed g) := by
  unfold start
  rw [started_reseed]
  split
  · rfl
  · have hmachines :
        (s.reseed g).machines.values.foldlM startMachine { s.reseed g with started := true }
          = (s.machines.values.foldlM startMachine { s with started := true }).map (reseed g) :=
      foldlM_reseed (fun s m => performAll_reseed m.id m.start s) _ { s with started := true }
    simp only [bind, Except.bind] at hmachines ⊢
    rw [hmachines]
    cases s.machines.values.foldlM startMachine { s with started := true } with
    | error left => rfl
    | ok s₁ => exact foldlM_reseed startSensor_reseed s₁.sensors.values s₁

/-- Changes the simulation that a run leaves behind. -/
def Outcome.map (f : Simulation → Simulation) : Outcome → Outcome
  | .finished s => .finished (f s)
  | .overflow left => .overflow left
  | .exhausted s => .exhausted (f s)

theorem advance_reseed (hc : s.network.Certain) (stop : Duration) (budget : Nat) :
    advance stop budget (s.reseed g) = (advance stop budget s).map (reseed g) := by
  induction budget generalizing s with
  | zero =>
    unfold advance
    rw [next?_reseed]
    cases s.next? stop <;> rfl
  | succ budget ih =>
    unfold advance
    rw [next?_reseed]
    cases s.next? stop with
    | none => rfl
    | some next =>
      obtain ⟨key, task⟩ := next
      simp only [take_reseed, process_reseed (s := s.take key task) hc]
      cases hp : (s.take key task).process key task with
      | error left => rfl
      | ok s₁ =>
        have hnet : s₁.network = s.network := (process_sameSetup hp).1
        exact ih (hnet ▸ hc)

theorem runUntil_reseed (hc : s.network.Certain) (stop : Duration) (budget : Nat) :
    (s.reseed g).runUntil stop budget = (s.runUntil stop budget).map (reseed g) := by
  unfold runUntil
  rw [start_reseed]
  cases hs : s.start with
  | error left => rfl
  | ok s₁ =>
    have hnet : s₁.network = s.network := (start_sameSetup hs).1
    exact advance_reseed (hnet ▸ hc) stop budget

/-! ## Calls with another generator -/

theorem addSensor_reseed (sensor : Sensor) :
    (s.reseed g).addSensor sensor = (s.addSensor sensor).map (reseed g) := by
  unfold addSensor
  rw [show (s.reseed g).placeForSensor sensor = s.placeForSensor sensor from rfl]
  cases s.placeForSensor sensor with
  | error e => rfl
  | ok gateway =>
    simp only [network_reseed]
    cases gateway.registerClient s.network sensor.app <;> rfl

theorem addActuator_reseed (actuator : Actuator) :
    (s.reseed g).addActuator actuator = (s.addActuator actuator).map (reseed g) := by
  unfold addActuator
  rw [actuators_reseed, network_reseed, machine?_reseed]
  by_cases htaken : s.actuators.contains actuator.id = true
  · rw [if_pos htaken, if_pos htaken]
    rfl
  · rw [if_neg htaken, if_neg htaken]
    by_cases hunknown : (!s.network.applications.contains actuator.app) = true
    · rw [if_pos hunknown, if_pos hunknown]
      rfl
    · rw [if_neg hunknown, if_neg hunknown]
      cases s.machine? actuator.device <;> rfl

theorem call_reseed (hc : s.network.Certain) (c : Call) :
    (s.reseed g).call c = (s.call c).map (reseed g) := by
  cases c with
  | addSensor sensor =>
    simp only [call, addSensor_reseed]
    cases s.addSensor sensor <;> rfl
  | addActuator actuator =>
    simp only [call, addActuator_reseed]
    cases s.addActuator actuator <;> rfl
  | start => exact start_reseed
  | inject device delay event => exact scheduleAfter_reseed ..
  | runUntil stop budget =>
    simp only [call, runUntil_reseed hc]
    cases s.runUntil stop budget <;> rfl

theorem drive_reseed : ∀ {calls : List Call} {s : Simulation}, s.network.Certain →
    drive calls (s.reseed g) = (drive calls s).map (reseed g)
  | [], _, _ => rfl
  | c :: calls, s, hc => by
    simp only [drive, List.foldlM_cons, call_reseed hc]
    cases hs : s.call c with
    | error left => rfl
    | ok s₁ =>
      have hnet : s₁.network = s.network := (invariant_network s.network).call rfl hs
      exact drive_reseed (hnet ▸ hc)

/-! ## Tasks with another generator -/

namespace Step

/-- The step of the simulation with another generator. -/
def reseed (g : Generator) (x : Step) : Step := { x with before := x.before.reseed g }

/-- What the device of the task did. -/
def commands (x : Step) : List Action :=
  match x.task with
  | .device event => x.actions event
  | _ => []

end Step

theorem steps_reseed (hc : s.network.Certain) (stop : Duration) (budget : Nat) :
    steps stop budget (s.reseed g) = (steps stop budget s).map (Step.reseed g) := by
  induction budget generalizing s with
  | zero => rfl
  | succ budget ih =>
    unfold steps
    rw [next?_reseed]
    cases s.next? stop with
    | none => rfl
    | some next =>
      obtain ⟨key, task⟩ := next
      simp only [take_reseed, process_reseed (s := s.take key task) hc, List.map_cons]
      refine congrArg _ ?_
      cases hp : (s.take key task).process key task with
      | error left => rfl
      | ok s₁ =>
        have hnet : s₁.network = s.network := (process_sameSetup hp).1
        exact ih (hnet ▸ hc)

theorem processedBy_reseed (hc : s.network.Certain) (c : Call) :
    (s.reseed g).processedBy c = (s.processedBy c).map (Step.reseed g) := by
  cases c with
  | runUntil stop budget =>
    simp only [processedBy, stepsUntil, start_reseed]
    cases hs : s.start with
    | error left => rfl
    | ok s₁ =>
      have hnet : s₁.network = s.network := (start_sameSetup hs).1
      exact steps_reseed (hnet ▸ hc) stop budget
  | _ => rfl

theorem processed_reseed : ∀ {calls : List Call} {s : Simulation}, s.network.Certain →
    processed calls (s.reseed g) = (processed calls s).map (Step.reseed g)
  | [], _, _ => rfl
  | c :: calls, s, hc => by
    simp only [processed, List.map_append, processedBy_reseed hc, call_reseed hc]
    refine congrArg _ ?_
    cases hs : s.call c with
    | error left => rfl
    | ok s₁ =>
      have hnet : s₁.network = s.network := (invariant_network s.network).call rfl hs
      exact processed_reseed (hnet ▸ hc)

/-! ## Two seeds -/

/--
Where all fractions are certain, the same calls with two seeds process the same tasks, one after
another in the same states but for the generator, with the same actions, and end in the same way, in
the same state but for the generator. Since a run may end after any number of tasks, that is so at
any time.
-/
theorem seeds_alike (hc : net.Certain) (seed seed' : UInt64) (calls : List Call) :
    drive calls (create net seed')
        = (drive calls (create net seed)).map (reseed (.ofSeed seed'))
      ∧ processed calls (create net seed')
        = (processed calls (create net seed)).map (Step.reseed (.ofSeed seed'))
      ∧ (processed calls (create net seed')).map (fun x => (x.key, x.task, x.commands))
        = (processed calls (create net seed)).map fun x => (x.key, x.task, x.commands) := by
  have hprocessed : processed calls (create net seed')
      = (processed calls (create net seed)).map (Step.reseed (.ofSeed seed')) :=
    processed_reseed (s := create net seed) hc
  refine ⟨drive_reseed (s := create net seed) hc, hprocessed, ?_⟩
  rw [hprocessed, List.map_map]
  rfl

theorem echoNetwork_certain : echoNetwork.Certain := by
  intro id app happ
  have hall : ∀ app ∈ echoNetwork.applications.values, ∀ m ∈ app.microservices,
      ∀ x ∈ m.selectivities, x.fraction.toFloat ≥ 1.0 ∨ x.fraction.toFloat ≤ 0.0 := by
    decide +kernel
  exact Application.certain_of_selectivities (hall app (Applications.mem_values happ))

/-- The phone asks and hears its echoes whatever the seed is. -/
theorem seeds_alike_echo : ∃ s, drive echoCalls (create echoNetwork 0) = .ok s
    ∧ s.statistics.executions = 4 ∧ s.lastMessage = 5
    ∧ drive echoCalls (create echoNetwork 7) = .ok (s.reseed (.ofSeed 7))
    ∧ (processed echoCalls (create echoNetwork 7)).map (fun x => (x.key, x.task, x.commands))
      = (processed echoCalls (create echoNetwork 0)).map fun x => (x.key, x.task, x.commands) := by
  obtain ⟨s, hs, hp⟩ := exists_of_leavesWith
    (p := fun s => decide (s.statistics.executions = 4 ∧ s.lastMessage = 5))
    (show leavesWith _ (drive echoCalls (create echoNetwork 0)) = true by decide +kernel)
  obtain ⟨hexecutions, hlast⟩ := of_decide_eq_true hp
  obtain ⟨hdrive, _, hcommands⟩ := seeds_alike echoNetwork_certain 0 7 echoCalls
  rw [hs] at hdrive
  exact ⟨s, hs, hexecutions, hlast, hdrive, hcommands⟩

end Simulation

end FogNet
