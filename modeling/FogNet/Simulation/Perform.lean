import FogNet.Simulation.Basic

/-!
# Carrying out actions

What a simulation does for an action of a device: it schedules what the action leads to, counts it
and measures it. A message put on a link arrives after transmission and latency, an execution takes
the processing demand over the speed of the microservice, and what reaches an actuator may close
loops of its application.

## Main statements

* `perform_schedules` — an action schedules at most one task, never before now
-/

namespace FogNet

namespace Simulation

/-- How long a message is processed: not at all, if its destination has no speed. -/
def executionTime (s : Simulation) (message : Message) : Option Duration :=
  let mips := ((s.network.application? message.app).map fun app =>
    app.mipsOf message.destination).getD 0
  if mips = 0 then some 0
  else Duration.ofSecondsFloat? (Float.ofNat message.cpuLength / Float.ofNat mips)

/-- A message goes over a link. -/
def transmit (s : Simulation) (target : DeviceId) (message : Message)
    (transmission latency : Duration) : Except Overflow Simulation :=
  let s := s.count fun t => t.countTransmission latency.toSeconds message.size
  let s := s.record (.networkUsage latency.toSeconds message.size)
  s.scheduleAfter target (transmission + latency) (.device (.messageArrived message))

/-- An instance begins to process a message. -/
def execute (s : Simulation) (target : InstanceId) (message : Message) :
    Except Overflow Simulation :=
  match s.executionTime message with
  | none => .error ⟨s.log⟩
  | some delay =>
    let s := s.count fun t => t.countExecution message.tupleType delay
    let s := s.record (.execution message.tupleType delay.toSeconds)
    s.scheduleAfter target.device delay (.executionCompleted target message)

/-- A loop of an application was closed. -/
def closeLoop (app : AppId) (latency : Duration) (s : Simulation) (loop : LoopId) : Simulation :=
  (s.count fun t => t.countLoop ⟨app, loop⟩ latency).record (.loopLatency loop latency.toSeconds)

/-- A message reaches an actuator. -/
def actuate (s : Simulation) (actuator : ActuatorId) (message : Message) :
    Except Overflow Simulation :=
  match s.actuators.get? actuator with
  | none => .ok s
  | some a => do
    let arrival ← s.later a.latency
    let s := s.count Statistics.countDelivery
    match s.network.application? message.app with
    | none => return s
    | some app =>
      let taken := arrival - message.emittedAt
      return (app.loopsEndingAt a.actuatorType).foldl (closeLoop app.id taken) s

/-- Carries out an action of a device. -/
def perform (device : DeviceId) (s : Simulation) : Action → Except Overflow Simulation
  | .transmit target _ message transmission latency =>
    s.transmit target message transmission latency
  | .deliver target event =>
    .ok (if s.machines.contains target then s.scheduleNow target (.device event) else s)
  | .setTimer timer duration =>
    (s.scheduleAfter device duration (.device timer.event)).map fun s =>
      s.count Statistics.countTimer
  | .enqueueInternal event => .ok (s.scheduleNow device (.device event))
  | .execute target message => s.execute target message
  | .deliverToActuator actuator message => s.actuate actuator message
  | .recordDrop _ reason => .ok (s.count fun t => t.countDrop reason)
  | .recordCloudTraffic _ => .ok (s.count Statistics.countCloudTraffic)

/-- Carries out actions of a device one after another. -/
def performAll (device : DeviceId) (s : Simulation) : List Action → Except Overflow Simulation
  | [] => .ok s
  | a :: rest =>
    match s.perform device a with
    | .error e => .error e
    | .ok s => s.performAll device rest

/-! ## What actions schedule -/

/-- The tasks of a simulation are those of another one, with at most one more that is not past. -/
def SchedulesOne (s s' : Simulation) : Prop :=
  (s'.queue = s.queue ∧ s'.scheduled = s.scheduled)
    ∨ ∃ key task, s'.queue = s.queue.insert key task ∧ s'.scheduled = s.scheduled + 1
        ∧ key.sequence = s.scheduled + 1 ∧ key.priority = task.priority ∧ s.now ≤ key.time

theorem schedule_schedulesOne (s : Simulation) (device : DeviceId) {time : Duration} (task : Task)
    (h : s.now ≤ time) : s.SchedulesOne (s.schedule device time task) :=
  Or.inr ⟨_, task, rfl, rfl, rfl, rfl, h⟩

theorem foldl_closeLoop_queue (app : AppId) (latency : Duration) : ∀ (loops : List LoopId)
    (s : Simulation), (loops.foldl (closeLoop app latency) s).queue = s.queue
      ∧ (loops.foldl (closeLoop app latency) s).scheduled = s.scheduled
  | [], _ => ⟨rfl, rfl⟩
  | loop :: loops, s => foldl_closeLoop_queue app latency loops (closeLoop app latency s loop)

/-- An action schedules at most one task, never before now. -/
theorem perform_schedules {device : DeviceId} {s s' : Simulation} {a : Action}
    (h : s.perform device a = .ok s') : s.SchedulesOne s' := by
  cases a with
  | transmit target link message transmission latency =>
    obtain ⟨_, rfl⟩ := scheduleAfter_ok_cases (s := (s.count _).record _) h
    exact schedule_schedulesOne _ _ _ (Nat.le_add_right _ _)
  | deliver target event =>
    simp only [perform, Except.ok.injEq] at h
    subst h
    split
    · exact schedule_schedulesOne _ _ _ (Nat.le_refl _)
    · exact Or.inl ⟨rfl, rfl⟩
  | setTimer timer duration =>
    simp only [perform] at h
    cases ht : s.scheduleAfter device duration (.device timer.event) with
    | error e => simp [ht, Except.map] at h
    | ok s₁ =>
      simp only [ht, Except.map, Except.ok.injEq] at h
      obtain ⟨_, rfl⟩ := scheduleAfter_ok_cases ht
      subst h
      exact schedule_schedulesOne s device (.device timer.event) (Nat.le_add_right _ _)
  | enqueueInternal event =>
    simp only [perform, Except.ok.injEq] at h
    subst h
    exact schedule_schedulesOne _ _ _ (Nat.le_refl _)
  | execute target message =>
    simp only [perform, execute] at h
    split at h
    · simp at h
    · next delay _ =>
      obtain ⟨_, rfl⟩ := scheduleAfter_ok_cases (s := (s.count _).record _) h
      exact schedule_schedulesOne _ _ _ (Nat.le_add_right _ _)
  | deliverToActuator actuator message =>
    simp only [perform, actuate] at h
    split at h
    · rw [← Except.ok.inj h]
      exact Or.inl ⟨rfl, rfl⟩
    · next a _ =>
      cases hl : s.later a.latency with
      | error e => rw [hl] at h; exact absurd h (by simp [bind, Except.bind])
      | ok arrival =>
        rw [hl] at h
        simp only [bind, Except.bind] at h
        split at h
        · rw [← Except.ok.inj h]
          exact Or.inl ⟨rfl, rfl⟩
        · rw [← Except.ok.inj h]
          exact Or.inl (foldl_closeLoop_queue _ _ _ _)
  | recordDrop id reason =>
    simp only [perform, Except.ok.injEq] at h
    subst h
    exact Or.inl ⟨rfl, rfl⟩
  | recordCloudTraffic id =>
    simp only [perform, Except.ok.injEq] at h
    subst h
    exact Or.inl ⟨rfl, rfl⟩

end Simulation

end FogNet
