import FogNet.Proofs.Machine.Notices
import FogNet.Proofs.Simulation.Calls
import FogNet.Proofs.Simulation.Messages

/-!
# Measurements and statistics

What happens in a simulation is told twice. Measurements are taken by devices when they decide what
to do, and by the simulation when it carries out what they decided; statistics are counted only when
an action is carried out. In between, devices have given notice of what is not counted yet. The
account of a simulation holds the one against the other: what they gave notice of is what was
counted, together with what the actions that are still to be carried out owe.

When a task has been processed nothing is owed, so the measurements and the statistics agree,
however the simulation is driven.

## Main statements

* `Account.notice`, `Account.drop`, `Account.send` — a notice is owed until it is counted
* `performAll_accounted` — actions that are carried out are owed no longer
* `measurements_agree` — after any calls measurements and statistics tell the same
-/

namespace FogNet

/-! ## What statistics count -/

theorem DropReason.name_injective {a b : DropReason} (h : a.name = b.name) : a = b := by
  cases a <;> cases b <;> first | rfl | exact absurd h (by decide)

namespace Statistics

/-- How many messages of a type were executed. -/
def executionsOf (t : Statistics) (tupleType : TupleType) : Nat :=
  ((t.cpuTime.get? tupleType).map Average.count).getD 0

/-- How often a loop was closed, in all applications that have one with its number. -/
def closings (t : Statistics) (loop : LoopId) : Nat :=
  sumOf (t.loopLatency.entries.map fun e => if e.1.loop = loop then e.2.count else 0)

theorem executionsOf_countExecution (t : Statistics) (tupleType other : TupleType)
    (d : Duration) : (t.countExecution tupleType d).executionsOf other
      = t.executionsOf other + if other = tupleType then 1 else 0 := by
  rw [executionsOf, countExecution, SortedMap.upsert, SortedMap.get?_insert, executionsOf]
  by_cases h : other = tupleType
  · rw [if_pos h, if_pos h, h]
    cases t.cpuTime.get? tupleType <;> rfl
  · rw [if_neg h, if_neg h, Nat.add_zero]

/-- A closed loop counts for its number. -/
theorem closings_countLoop (t : Statistics) (key : LoopKey) (loop : LoopId) (d : Duration) :
    (t.countLoop key d).closings loop = t.closings loop + if loop = key.loop then 1 else 0 := by
  have hsum := t.loopLatency.sumOf_upsert key {} (fun a => a.record d)
    (fun e => if e.1.loop = loop then e.2.count else 0)
  change (t.countLoop key d).closings loop + _ = t.closings loop + _ at hsum
  by_cases h : key.loop = loop
  · rw [if_pos h.symm]
    cases hk : t.loopLatency.get? key <;> simp only [hk, h, if_true, Option.elim_none,
      Option.elim_some, Option.getD_none, Option.getD_some, Average.record_count] at hsum <;> omega
  · rw [if_neg (Ne.symm h)]
    cases hk : t.loopLatency.get? key <;> simp only [hk, h, if_false, Option.elim_none,
      Option.elim_some] at hsum <;> omega

/-- The statistics that measurements are held against are the same. -/
structure SameAccounts (t t' : Statistics) : Prop where
  drops : t'.drops = t.drops
  transmissions : t'.transmissions = t.transmissions
  cloudTraffic : t'.cloudTraffic = t.cloudTraffic
  executions : t'.executions = t.executions
  cpuTime : t'.cpuTime = t.cpuTime
  loopLatency : t'.loopLatency = t.loopLatency

end Statistics

/-! ## Accounts -/

namespace Notice

def isDrop : Notice → Bool
  | dropped _ => true
  | _ => false

/-- The size of a message that was put on a link. -/
def bytes? : Notice → Option Nat
  | sent bytes => some bytes
  | _ => none

end Notice

namespace Charge

def isExecution : Charge → Bool
  | execution _ => true
  | _ => false

/-- The size of a message that goes over a link. -/
def bytes? : Charge → Option Nat
  | usage bytes => some bytes
  | _ => none

end Charge

/--
What devices gave notice of was counted or is still owed, and what the simulation has measured was
counted.
-/
structure Account (notices : List Notice) (charges : List Charge) (t : Statistics)
    (owed : List Notice) : Prop where
  drops : ∀ reason : DropReason,
    notices.count (.dropped reason.name) = t.dropsFor reason + owed.count (.dropped reason.name)
  dropped : notices.countP Notice.isDrop = t.messagesDropped + owed.countP Notice.isDrop
  clouds : notices.count .reachedCloud = t.cloudTraffic + owed.count .reachedCloud
  bytes : notices.filterMap Notice.bytes?
    = charges.filterMap Charge.bytes? ++ owed.filterMap Notice.bytes?
  transmissions : (charges.filterMap Charge.bytes?).length = t.transmissions
  executionsOf : ∀ tupleType, charges.count (.execution tupleType) = t.executionsOf tupleType
  executions : charges.countP Charge.isExecution = t.executions
  closings : ∀ loop, charges.count (.loop loop) = t.closings loop

namespace Account

variable {notices new owed : List Notice} {charges : List Charge} {t t' : Statistics}

theorem empty : Account [] [] {} [] := by
  constructor <;> first | rfl | exact fun _ => rfl

theorem still (h : Account notices charges t owed) (ht : t.SameAccounts t') :
    Account notices charges t' owed := by
  obtain ⟨hdrops, htransmissions, hclouds, hexecutions, hcpu, hloops⟩ := ht
  constructor
  · intro reason
    rw [h.drops, Statistics.dropsFor, Statistics.dropsFor, hdrops]
  · rw [h.dropped, Statistics.messagesDropped, Statistics.messagesDropped, hdrops]
  · rw [h.clouds, hclouds]
  · exact h.bytes
  · rw [h.transmissions, htransmissions]
  · intro tupleType
    rw [h.executionsOf, Statistics.executionsOf, Statistics.executionsOf, hcpu]
  · rw [h.executions, hexecutions]
  · intro loop
    rw [h.closings, Statistics.closings, Statistics.closings, hloops]

/-- A notice is owed at first. -/
theorem notice (h : Account notices charges t owed) (new : List Notice) :
    Account (notices ++ new) charges t (owed ++ new) where
  __ := h
  drops reason := by rw [List.count_append, List.count_append, h.drops, Nat.add_assoc]
  dropped := by rw [List.countP_append, List.countP_append, h.dropped, Nat.add_assoc]
  clouds := by rw [List.count_append, List.count_append, h.clouds, Nat.add_assoc]
  bytes := by rw [List.filterMap_append, List.filterMap_append, h.bytes, List.append_assoc]

/-- A drop that is counted is owed no longer. -/
theorem drop {reason : DropReason}
    (h : Account notices charges t (.dropped reason.name :: owed)) :
    Account notices charges (t.countDrop reason) owed where
  __ := h
  drops other := by
    rw [h.drops, List.count_cons, Statistics.dropsFor_countDrop]
    by_cases hr : other = reason
    · rw [hr, if_pos rfl]
      simp only [beq_self_eq_true, if_true]
      omega
    · have hname : ¬reason.name = other.name := fun he =>
        hr (DropReason.name_injective he).symm
      simp only [hr, beq_iff_eq, Notice.dropped.injEq, hname, if_false]
      omega
  dropped := by
    rw [h.dropped, Statistics.messagesDropped_countDrop, List.countP_cons_of_pos rfl]
    omega
  clouds := by
    have hclouds := h.clouds
    rwa [List.count_cons_of_ne (by simp)] at hclouds

theorem reachCloud (h : Account notices charges t (.reachedCloud :: owed)) :
    Account notices charges t.countCloudTraffic owed where
  __ := h
  drops reason := by
    have hdrops := h.drops reason
    rwa [List.count_cons_of_ne (by simp)] at hdrops
  clouds := by
    change _ = t.cloudTraffic + 1 + _
    rw [h.clouds, List.count_cons_self, Nat.add_assoc, Nat.add_comm 1]

/-- A transmission is counted where its network usage is measured. -/
theorem send {bytes : Nat} (h : Account notices charges t (.sent bytes :: owed))
    (seconds : Float) :
    Account notices (charges ++ [.usage bytes]) (t.countTransmission seconds bytes) owed where
  __ := h
  drops reason := by
    have hdrops := h.drops reason
    rwa [List.count_cons_of_ne (by simp)] at hdrops
  clouds := by
    have hclouds := h.clouds
    rwa [List.count_cons_of_ne (by simp)] at hclouds
  bytes := by
    rw [h.bytes, List.filterMap_append, List.append_assoc]
    rfl
  transmissions := by
    rw [List.filterMap_append, List.length_append, h.transmissions]
    rfl
  executionsOf tupleType := by
    rw [List.count_append, h.executionsOf]
    rfl
  executions := by
    rw [List.countP_append, h.executions]
    rfl
  closings loop := by
    rw [List.count_append, h.closings]
    rfl

theorem execute (h : Account notices charges t owed) (tupleType : TupleType) (d : Duration) :
    Account notices (charges ++ [.execution tupleType]) (t.countExecution tupleType d) owed where
  __ := h
  bytes := by
    rw [h.bytes, List.filterMap_append]
    exact congrArg (· ++ _) (List.append_nil _).symm
  transmissions := by
    rw [List.filterMap_append, List.length_append, h.transmissions]
    rfl
  executionsOf other := by
    rw [List.count_append, h.executionsOf, Statistics.executionsOf_countExecution]
    simp only [List.count_singleton, beq_iff_eq, Charge.execution.injEq, @eq_comm _ other]
  executions := by
    rw [List.countP_append, h.executions]
    rfl
  closings loop := by
    rw [List.count_append, h.closings]
    rfl

theorem closeLoop (h : Account notices charges t owed) (key : LoopKey) (d : Duration) :
    Account notices (charges ++ [.loop key.loop]) (t.countLoop key d) owed where
  __ := h
  bytes := by
    rw [h.bytes, List.filterMap_append]
    exact congrArg (· ++ _) (List.append_nil _).symm
  transmissions := by
    rw [List.filterMap_append, List.length_append, h.transmissions]
    rfl
  executionsOf tupleType := by
    rw [List.count_append, h.executionsOf]
    rfl
  executions := by
    rw [List.countP_append, h.executions]
    rfl
  closings loop := by
    rw [List.count_append, h.closings, Statistics.closings_countLoop]
    simp only [List.count_singleton, beq_iff_eq, Charge.loop.injEq, @eq_comm _ loop]

end Account

/-! ## Steps of a simulation -/

namespace Simulation

variable {net : Network} {seed : UInt64} {s s' : Simulation} {owed : List Notice}

/-- The measurements, in the order in which they were taken. -/
def measurements (s : Simulation) : List Metric := s.log.reverse

/-- The account of a simulation, with what is owed by actions that are still to be carried out. -/
def Accounted (s : Simulation) (owed : List Notice) : Prop :=
  Account (s.measurements.filterMap Metric.notice?) (s.measurements.filterMap Metric.charge?)
    s.statistics owed

theorem measurements_record (s : Simulation) (x : Metric) :
    (s.record x).measurements = s.measurements ++ [x] := List.reverse_cons

namespace Accounted

/-- What takes no measurement and counts nothing that is measured leaves the account as it is. -/
theorem still (h : s.Accounted owed) (hlog : s'.log = s.log)
    (ht : s.statistics.SameAccounts s'.statistics) : s'.Accounted owed := by
  rw [Accounted, measurements, hlog]
  exact Account.still h ht

theorem scheduleAfter (h : s.Accounted owed) {device : DeviceId} {delay : Duration} {task : Task}
    (hs : s.scheduleAfter device delay task = .ok s') : s'.Accounted owed := by
  obtain ⟨_, rfl⟩ := scheduleAfter_ok_cases hs
  exact h.still rfl ⟨rfl, rfl, rfl, rfl, rfl, rfl⟩

theorem transmit {message : Message} (h : s.Accounted (.sent message.size :: owed))
    {target : DeviceId} {transmission latency : Duration}
    (hs : s.transmit target message transmission latency = .ok s') : s'.Accounted owed := by
  refine Accounted.scheduleAfter ?_ hs
  rw [Accounted, measurements_record, List.filterMap_append, List.filterMap_append]
  rw [show [Metric.networkUsage _ _].filterMap Metric.notice? = [] from rfl, List.append_nil]
  exact Account.send h _

theorem execute (h : s.Accounted owed) {target : InstanceId} {message : Message}
    (hs : s.execute target message = .ok s') : s'.Accounted owed := by
  unfold Simulation.execute at hs
  split at hs
  · exact absurd hs (by simp)
  · next delay _ =>
    refine Accounted.scheduleAfter ?_ hs
    rw [Accounted, measurements_record, List.filterMap_append, List.filterMap_append]
    rw [show [Metric.execution _ _].filterMap Metric.notice? = [] from rfl, List.append_nil]
    exact Account.execute h _ _

theorem closeLoops (app : AppId) (latency : Duration) : ∀ {loops : List LoopId} {s : Simulation},
    s.Accounted owed → (loops.foldl (Simulation.closeLoop app latency) s).Accounted owed
  | [], _, h => h
  | loop :: loops, s, h => by
    refine closeLoops app latency (s := (s.count _).record _) ?_
    rw [Accounted, measurements_record, List.filterMap_append, List.filterMap_append]
    rw [show [Metric.loopLatency _ _].filterMap Metric.notice? = [] from rfl, List.append_nil]
    exact Account.closeLoop h ⟨app, loop⟩ latency

theorem actuate (h : s.Accounted owed) {actuator : ActuatorId} {message : Message}
    (hs : s.actuate actuator message = .ok s') : s'.Accounted owed := by
  unfold Simulation.actuate at hs
  split at hs
  · exact Except.ok.inj hs ▸ h
  · next a _ =>
    cases hl : s.later a.latency with
    | error e => rw [hl] at hs; exact absurd hs (by simp [bind, Except.bind])
    | ok arrival =>
      rw [hl] at hs
      simp only [bind, Except.bind] at hs
      have hcount : (s.count Statistics.countDelivery).Accounted owed :=
        h.still rfl ⟨rfl, rfl, rfl, rfl, rfl, rfl⟩
      split at hs
      · exact Except.ok.inj hs ▸ hcount
      · rw [← Except.ok.inj hs]
        exact closeLoops _ _ hcount

end Accounted

/-- An action that is carried out is owed no longer. -/
theorem perform_accounted {device : DeviceId} {a : Action}
    (h : s.Accounted (a.notice?.toList ++ owed)) (hs : s.perform device a = .ok s') :
    s'.Accounted owed := by
  cases a with
  | transmit target link message transmission latency => exact Accounted.transmit h hs
  | deliver target event =>
    rw [← Except.ok.inj hs]
    split
    · exact Accounted.still h rfl ⟨rfl, rfl, rfl, rfl, rfl, rfl⟩
    · exact h
  | setTimer timer duration =>
    simp only [perform] at hs
    cases ht : s.scheduleAfter device duration (.device timer.event) with
    | error e => simp [ht, Except.map] at hs
    | ok s₁ =>
      simp only [ht, Except.map, Except.ok.injEq] at hs
      rw [← hs]
      exact (Accounted.scheduleAfter h ht).still rfl ⟨rfl, rfl, rfl, rfl, rfl, rfl⟩
  | enqueueInternal event =>
    rw [← Except.ok.inj hs]
    exact Accounted.still h rfl ⟨rfl, rfl, rfl, rfl, rfl, rfl⟩
  | execute target message => exact Accounted.execute h hs
  | deliverToActuator actuator message => exact Accounted.actuate h hs
  | recordDrop id reason =>
    rw [← Except.ok.inj hs]
    exact Account.drop h
  | recordCloudTraffic id =>
    rw [← Except.ok.inj hs]
    exact Account.reachCloud h

/-- Actions that are carried out are owed no longer. -/
theorem performAll_accounted {device : DeviceId} : ∀ {actions : List Action} {s : Simulation},
    s.Accounted (actions.filterMap Action.notice?) →
      s.performAll device actions = .ok s' → s'.Accounted []
  | [], s, h, hs => Except.ok.inj hs ▸ h
  | a :: actions, s, h, hs => by
    unfold performAll at hs
    split at hs
    · simp at hs
    · next s₁ ha =>
      have hcons : (a :: actions).filterMap Action.notice?
          = a.notice?.toList ++ actions.filterMap Action.notice? := by
        cases hr : a.notice? <;> simp [hr]
      rw [hcons] at h
      exact performAll_accounted (perform_accounted h ha) hs

namespace Accounted

/-- When a device has handled an event and its actions are carried out, nothing is owed. -/
theorem happen (h : s.Accounted []) {device : DeviceId} {event : Event}
    (hs : s.happen device event = .ok s') : s'.Accounted [] := by
  unfold Simulation.happen at hs
  split at hs
  · exact Except.ok.inj hs ▸ h
  · next m hm =>
    simp only at hs
    split at hs
    · exact absurd hs (by simp)
    · next actions m' hvalue =>
      have hmatches := Machine.handle_matches hvalue
      refine performAll_accounted ?_ hs
      rw [← hmatches.notices]
      have hnotice := Account.notice h
        (({ m with now := s.now }.handle s.network event).metrics.filterMap Metric.notice?)
      rw [List.nil_append] at hnotice
      refine Account.still ?_ ⟨rfl, rfl, rfl, rfl, rfl, rfl⟩ (t := s.statistics)
      simp only [measurements, count, List.reverse_append, List.reverse_reverse,
        List.filterMap_append, hmatches.charges, List.append_nil]
      exact hnotice

theorem tick (h : s.Accounted []) {id : SensorId} (hs : s.tick id = .ok s') :
    s'.Accounted [] := by
  unfold Simulation.tick at hs
  split at hs
  · exact Except.ok.inj hs ▸ h
  · next sensor _ =>
    split at hs
    · exact Except.ok.inj hs ▸ h
    · next app _ =>
      cases he : s.emit sensor app with
      | error e => rw [he] at hs; exact absurd hs (by simp [bind, Except.bind])
      | ok s₁ =>
        rw [he] at hs
        simp only [bind, Except.bind] at hs
        refine Accounted.scheduleAfter ?_ hs
        unfold emit at he
        simp only at he
        split at he
        · rw [← Except.ok.inj he]
          exact h.still rfl ⟨rfl, rfl, rfl, rfl, rfl, rfl⟩
        · refine Accounted.scheduleAfter ?_ he
          exact h.still rfl ⟨rfl, rfl, rfl, rfl, rfl, rfl⟩

theorem complete (h : s.Accounted []) (target : InstanceId) (message : Message) :
    (s.complete target message).Accounted [] := by
  have hfold : ∀ (outputs : List Message) (s : Simulation), s.Accounted [] → (outputs.foldl
      (fun s output => s.scheduleNow target.device (.device (.messageArrived output)))
        s).Accounted [] := by
    intro outputs
    induction outputs with
    | nil => exact fun _ h => h
    | cons output outputs ih =>
      exact fun s h => ih _ (h.still rfl ⟨rfl, rfl, rfl, rfl, rfl, rfl⟩)
  unfold Simulation.complete
  split
  · exact h
  · next app _ =>
    rcases app.resultants message.destination message (s.lastMessage + 1) s.generator with
      ⟨outputs, generator⟩
    exact hfold outputs _ (h.still rfl ⟨rfl, rfl, rfl, rfl, rfl, rfl⟩)

theorem step (h : s.Accounted []) {key : Key} {task : Task}
    (hs : (s.take key task).process key task = .ok s') : s'.Accounted [] := by
  have htake : (s.take key task).Accounted [] := h.still rfl ⟨rfl, rfl, rfl, rfl, rfl, rfl⟩
  cases task with
  | sensorTick id => exact htake.tick hs
  | executionCompleted target message => exact Except.ok.inj hs ▸ htake.complete target message
  | device event => exact htake.happen hs

theorem start (h : s.Accounted []) (hs : s.start = .ok s') : s'.Accounted [] := by
  unfold Simulation.start at hs
  split at hs
  · exact Except.ok.inj hs ▸ h
  · simp only at hs
    cases hm : s.machines.values.foldlM startMachine { s with started := true } with
    | error e => rw [hm] at hs; exact absurd hs (by simp [bind, Except.bind])
    | ok s₁ =>
      rw [hm] at hs
      have hkeep {s s' : Simulation} {m : Machine} (hstart : s.startMachine m = .ok s')
          (h : s.Accounted []) : s'.Accounted [] := by
        refine performAll_accounted ?_ hstart
        rwa [List.filterMap_eq_nil_iff.mpr Machine.start_notices]
      have hsensor {s s' : Simulation} {x : Sensor} (hstart : s.startSensor x = .ok s')
          (h : s.Accounted []) : s'.Accounted [] := by
        unfold startSensor at hstart
        split at hstart
        · exact Except.ok.inj hstart ▸ h
        · simp only at hstart
          refine Accounted.scheduleAfter ?_ hstart
          split <;> exact h.still rfl ⟨rfl, rfl, rfl, rfl, rfl, rfl⟩
      have hmachines : s₁.Accounted [] :=
        foldlM_ok (R := fun s s' => s.Accounted [] → s'.Accounted []) (fun _ h => h)
          (fun h h' hs => h' (h hs)) hkeep hm (h.still rfl ⟨rfl, rfl, rfl, rfl, rfl, rfl⟩)
      exact foldlM_ok (R := fun s s' => s.Accounted [] → s'.Accounted []) (fun _ h => h)
        (fun h h' hs => h' (h hs)) hsensor hs hmachines

end Accounted

theorem create_accounted (net : Network) (seed : UInt64) : (create net seed).Accounted [] :=
  Account.empty

/-- Whatever is called, nothing is owed afterwards. -/
theorem invariant_accounted : Invariant fun s => s.Accounted [] where
  sensor hs h := by
    obtain ⟨_, _, _, _, rfl⟩ := addSensor_ok_cases hs
    exact h.still rfl ⟨rfl, rfl, rfl, rfl, rfl, rfl⟩
  actuator hs h := by
    obtain ⟨_, _, _, _, rfl⟩ := addActuator_ok_cases hs
    exact h.still rfl ⟨rfl, rfl, rfl, rfl, rfl, rfl⟩
  start hs h := h.start hs
  inject hs h := h.scheduleAfter hs
  step _ hs h := h.step hs
  settle _ h := h.still rfl ⟨rfl, rfl, rfl, rfl, rfl, rfl⟩

end Simulation

/-! ## Agreement -/

namespace Metric

def isDrop : Metric → Bool
  | messageDropped _ => true
  | _ => false

def isExecution : Metric → Bool
  | execution .. => true
  | _ => false

def isExecutionOf (tupleType : TupleType) : Metric → Bool
  | execution t _ => t == tupleType
  | _ => false

def closes (loop : LoopId) : Metric → Bool
  | loopLatency l _ => l == loop
  | _ => false

/-- The size of a message that was put on a link. -/
def transmitted? : Metric → Option Nat
  | messageTransmitted _ bytes => some bytes
  | _ => none

/-- The size of a message that goes over a link. -/
def used? : Metric → Option Nat
  | networkUsage _ bytes => some bytes
  | _ => none

end Metric

/-- Measurements tell the same as statistics. -/
structure Agreement (log : List Metric) (t : Statistics) : Prop where
  drops : ∀ reason : DropReason, log.count (.messageDropped reason.name) = t.dropsFor reason
  dropped : log.countP Metric.isDrop = t.messagesDropped
  bytes : log.filterMap Metric.transmitted? = log.filterMap Metric.used?
  transmitted : (log.filterMap Metric.transmitted?).length = t.transmissions
  used : (log.filterMap Metric.used?).length = t.transmissions
  clouds : log.count .cloudTraffic = t.cloudTraffic
  executionsOf : ∀ tupleType, log.countP (Metric.isExecutionOf tupleType) = t.executionsOf tupleType
  executions : log.countP Metric.isExecution = t.executions
  closings : ∀ loop, log.countP (Metric.closes loop) = t.closings loop

/-- What is said of a part of each measurement is said of the parts. -/
theorem countP_filterMap_eq {α β : Type} {f : α → Option β} {p : β → Bool} {q : α → Bool}
    (h : ∀ x, ((f x).map p).getD false = q x) (l : List α) :
    (l.filterMap f).countP p = l.countP q := by
  rw [List.countP_filterMap]
  exact congrArg (List.countP · l) (funext h)

/-- What is settled in full is in agreement. -/
theorem Account.agreement {log : List Metric} {t : Statistics}
    (h : Account (log.filterMap Metric.notice?) (log.filterMap Metric.charge?) t []) :
    Agreement log t := by
  have htransmitted : (log.filterMap Metric.notice?).filterMap Notice.bytes?
      = log.filterMap Metric.transmitted? := by
    rw [List.filterMap_filterMap]
    exact congrArg (List.filterMap · log) (funext fun x => by cases x <;> rfl)
  have hused : (log.filterMap Metric.charge?).filterMap Charge.bytes?
      = log.filterMap Metric.used? := by
    rw [List.filterMap_filterMap]
    exact congrArg (List.filterMap · log) (funext fun x => by cases x <;> rfl)
  have hbytes := h.bytes
  have htransmissions := h.transmissions
  rw [htransmitted, hused, List.filterMap_nil, List.append_nil] at hbytes
  rw [hused] at htransmissions
  refine ⟨?_, ?_, hbytes, hbytes ▸ htransmissions, htransmissions, ?_, ?_, ?_, ?_⟩
  · intro reason
    refine (countP_filterMap_eq (fun x => ?_) log).symm.trans (h.drops reason)
    cases x <;> simp [Metric.notice?]
  · exact (countP_filterMap_eq (fun x => by cases x <;> rfl) log).symm.trans h.dropped
  · refine (countP_filterMap_eq (fun x => ?_) log).symm.trans h.clouds
    cases x <;> simp [Metric.notice?]
  · intro tupleType
    refine (countP_filterMap_eq (fun x => ?_) log).symm.trans (h.executionsOf tupleType)
    cases x <;> simp [Metric.charge?, Metric.isExecutionOf]
  · exact (countP_filterMap_eq (fun x => by cases x <;> rfl) log).symm.trans h.executions
  · intro loop
    refine (countP_filterMap_eq (fun x => ?_) log).symm.trans (h.closings loop)
    cases x <;> simp [Metric.charge?, Metric.closes]

namespace Simulation

variable {net : Network} {seed : UInt64} {s : Simulation}

/--
Whatever is called, with events from outside and runs of any length, what was measured and what was
counted tell the same: for each reason as many drops; as many transmissions and uses of the network,
with the same sizes in the same order; as much traffic to the cloud; as many executions of each type
and in all; and for each number of a loop as many closings as all applications have together.
-/
theorem measurements_agree {calls : List Call} (h : drive calls (create net seed) = .ok s) :
    Agreement s.measurements s.statistics :=
  Account.agreement (invariant_accounted.drive (create_accounted net seed) h)

/-- A sensor at the phone, and a message from outside for an actuator that the phone lacks. -/
def echoCalls : List Call :=
  [.addSensor
      { id := 1, gateway := 2, app := "a", tupleType := "t", interval := Duration.ofMillis 500 },
    .inject 2 (Duration.ofMillis 100) (.messageArrived
      { id := 0, app := "a", user := 1, tupleType := "x", direction := .actuator, source := "m",
        destination := "lamp" }),
    .runUntil 706250000 80]

/-- The phone drops the message from outside, asks twice and hears two echoes. -/
theorem measurements_agree_echo : ∃ s, drive echoCalls (create echoNetwork 0) = .ok s
    ∧ s.statistics.dropsFor .noActuator = 1
    ∧ s.measurements.count (.messageDropped "no_actuator") = 1
    ∧ s.statistics.transmissions = 4
    ∧ (s.measurements.filterMap Metric.used?).length = 4
    ∧ s.measurements.filterMap Metric.transmitted? = s.measurements.filterMap Metric.used?
    ∧ s.statistics.executions = 4 ∧ s.measurements.countP Metric.isExecution = 4 := by
  obtain ⟨s, hs, hp⟩ := exists_of_leavesWith (p := fun s => decide (
      s.statistics.dropsFor .noActuator = 1 ∧ s.statistics.transmissions = 4
        ∧ s.statistics.executions = 4))
    (show leavesWith _ (drive echoCalls (create echoNetwork 0)) = true by decide +kernel)
  obtain ⟨hdrops, htransmissions, hexecutions⟩ := of_decide_eq_true hp
  have hagree := measurements_agree hs
  exact ⟨s, hs, hdrops, (hagree.drops .noActuator).trans hdrops, htransmissions,
    hagree.used.trans htransmissions, hagree.bytes, hexecutions,
    hagree.executions.trans hexecutions⟩

end Simulation

end FogNet
