import FogNet.Proofs.Simulation.Instances
import FogNet.Proofs.Topology.Distance

/-!
# Replies return to the instance that asked

A message keeps where it was processed in two places: in a ledger, which dispatch reads to find the
device, and in its pins, which the device reads to find the instance. Both are written when an
instance is chosen, and inherited together. Instances stay, and a message moves along links only. So
for every message under way the two agree, the pinned instance runs, and there is a way back to it.

## Main statements

* `Live.origin` — where a message comes from that is under way after a step
* `Traceable.addressed`, `Traceable.processed`, `Traceable.moved` — what dispatch does to a message
* `Traced.step`, `traced_of_ran` — every message under way can be traced, along every run
* `replies_return` — a message going down comes to its pinned instance, or has none to come to
-/

namespace FogNet

/-! ## Messages under way -/

/-- The message that a task brings, and the device where it is then. -/
def Task.carried? (device : DeviceId) : Task → Option (DeviceId × Message)
  | .device (.messageArrived message) => some (device, message)
  | .executionCompleted target message => some (target.device, message)
  | _ => none

/-- The message that an action lets arrive or be processed, and the device where it is then. -/
def Action.carried? : Action → Option (DeviceId × Message)
  | .transmit target _ message _ _ => some (target, message)
  | .execute target message => some (target.device, message)
  | _ => none

theorem Task.carried?_of_isInternal {e : Event} (h : e.isInternal = true) (device : DeviceId) :
    (Task.device e).carried? device = none := by
  cases e <;> first | rfl | exact absurd h Bool.false_ne_true

namespace Simulation

variable {net : Network} {seed : UInt64} {s s' : Simulation} {l : Layout} {history : List Step}
  {d : DeviceId} {message : Message} {bookings : List Booking} {key : Key} {task : Task}

/-- What is scheduled for an action brings the message of the action. -/
theorem carried?_booking? {device : DeviceId} {a : Action} (ha : a.LetsInternal) {b : Booking}
    (hb : s.booking? device a = some b) : b.task.carried? b.device = a.carried? := by
  cases booked_of_booking? hb with
  | deliver _ _ | enqueueInternal _ => exact Task.carried?_of_isInternal ha _
  | setTimer timer _ => cases timer <;> rfl
  | transmit _ _ _ _ _ | execute _ => rfl

/-- A simulation starts without messages. -/
theorem Opening.carried? {b : Booking} (h : s.Opening b) : b.task.carried? b.device = none := by
  cases h with
  | machine _ ha hb =>
    rw [carried?_booking? (Machine.internal_of_start _ ha) hb]
    rcases Machine.start_actions ha with rfl | ⟨_, _, rfl⟩ <;> rfl
  | request _ _ _ => rfl
  | interval _ => rfl

/--
A message is under way: it arrives at a device or is processed there, or it waits for the link to
the device.
-/
inductive Live (s : Simulation) : DeviceId → Message → Prop
  | queued {e : Key × Task} {d : DeviceId} {message : Message} : e ∈ s.queue.entries →
      e.2.carried? e.1.device = some (d, message) → Live s d message
  | waiting {d : DeviceId} {m : Machine} {w : Waiting} : s.machine? d = some m →
      w ∈ m.outbound.waits → Live s w.target w.message

/-- Where a message comes from that is under way after a task, and where it is then. -/
inductive Origin (s : Simulation) (key : Key) : Task → DeviceId → Message → Prop
  | kept {task : Task} {d : DeviceId} {message : Message} : s.Live d message →
      Origin s key task d message
  | emitted {id : SensorId} {sensor : Sensor} {app : Application} {message : Message} :
      s.network.application? sensor.app = some app →
      app.sensorMessage? sensor.tupleType (s.lastMessage + 1) key.time = some message →
      Origin s key (.sensorTick id) sensor.gateway
        { message with destinationDevice := some sensor.gateway }
  | answered {target : InstanceId} {input output : Message} : output ∈ s.outputs input →
      Origin s key (.executionCompleted target input) target.device output
  | sentOn {m : Machine} {arrived addressed : Message} {host next : DeviceId} {link : Link} :
      s.machine? key.device = some m → m.addressed? arrived = some (host, addressed) →
      s.network.topology.link? m.id next = some link →
      Origin s key (.device (.messageArrived arrived)) next addressed
  | chosen {m : Machine} {arrived addressed : Message} {target : InstanceId} :
      s.machine? key.device = some m → m.addressed? arrived = some (m.id, addressed) →
      m.deployment.select addressed.app addressed.destination
        (addressed.pin? addressed.destination) = .ok target →
      Origin s key (.device (.messageArrived arrived)) target.device
        ((addressed.setPin addressed.destination target).recordTraversal m.id
          addressed.destination)

namespace Live

theorem of_still (hs : s.Still s') (h : s'.Live d message) : s.Live d message := by
  cases h with
  | queued he hcarried => exact .queued (hs.queue _ he) hcarried
  | waiting hm hw =>
    obtain ⟨m, hm, houtbound, _⟩ := hs.machine _ _ hm
    rw [houtbound] at hw
    exact .waiting hm hw

/-- A message under way was so before, or it is scheduled. -/
theorem of_books (hb : s.Books s' bookings) (h : s'.Live d message) :
    s.Live d message ∨ ∃ b ∈ bookings, b.task.carried? b.device = some (d, message) := by
  cases h with
  | queued he hcarried =>
    rcases hb.mem he with ⟨b, hmem, _, _, rfl⟩ | he
    · exact Or.inr ⟨b, hmem, hcarried⟩
    · exact Or.inl (.queued he hcarried)
  | waiting hm hw =>
    rw [machine?, hb.machines] at hm
    exact Or.inl (.waiting hm hw)

/-- At first no message is under way. -/
theorem not_create (h : (create net seed).Live d message) : False := by
  rcases h with ⟨he, _⟩ | ⟨hm, hw⟩
  · exact absurd he List.not_mem_nil
  · obtain ⟨_, _, _, rfl⟩ := machine?_create hm
    exact absurd hw List.not_mem_nil

/-- The start puts no message under way. -/
theorem of_start {s₀ : Simulation} (hb : s.Books s' bookings)
    (hopening : ∀ b ∈ bookings, s₀.Opening b) (h : s'.Live d message) : s.Live d message := by
  rcases h.of_books hb with hlive | ⟨b, hmem, hcarried⟩
  · exact hlive
  · rw [(hopening b hmem).carried?] at hcarried
    cases hcarried

/-- A message under way was so before, or it waits at the machine that changed. -/
theorem of_insert {g : DeviceId} {m' : Machine}
    (h : Live { s with machines := s.machines.insert g m' } d message) :
    s.Live d message ∨ ∃ w ∈ m'.outbound.waits, w.target = d ∧ w.message = message := by
  cases h with
  | queued he hcarried => exact Or.inl (.queued he hcarried)
  | @waiting e m₁ w hm₁ hw =>
    rw [machine?, SortedMap.get?_insert] at hm₁
    split at hm₁
    · rw [← Option.some.inj hm₁] at hw
      exact Or.inr ⟨w, hw, rfl, rfl⟩
    · exact Or.inl (.waiting hm₁ hw)

/-- What an event puts under way was handed to a link before, or has just arrived. -/
theorem origin_of_happen {event : Event} (hq : s.queue.first? = some (key, .device event))
    (hp : (s.take key (.device event)).happen key.device event = .ok s') (h : s'.Live d message) :
    s.Origin key (.device event) d message := by
  have hstill := take_still hq
  rcases happen_books hp with ⟨_, rfl⟩ | ⟨m, actions, m', hm, hv, hbooks⟩
  · exact .kept (h.of_still hstill)
  have heffect := Machine.effect_of_handle hv
  have hknown : s.machine? key.device = some m := hm
  have hhanded {w : Waiting} (hw : w ∈ m.outbound.waits ∨ ∃ kind,
      ({ m with now := key.time } : Machine).handedTo? s.network kind event = some w) :
      s.Origin key (.device event) w.target w.message := by
    rcases hw with hw | ⟨_, hw⟩
    · exact .kept (.waiting hknown hw)
    · obtain ⟨arrived, _, _, rfl, haddressed, hlink, _⟩ := Machine.handedTo?_cases hw
      exact .sentOn hknown haddressed hlink
  rcases h.of_books hbooks with h | ⟨b, hb, hcarried⟩
  · rcases h.of_insert with h | ⟨w, hw, rfl, rfl⟩
    · exact .kept (h.of_still hstill)
    · exact hhanded (Machine.waits_of_effect heffect hw)
  · obtain ⟨a, ha, hb⟩ := List.mem_filterMap.mp hb
    rw [carried?_booking? (Machine.internal_of_effect heffect a ha) hb] at hcarried
    cases a with
    | transmit target kind message transmission latency =>
      obtain ⟨rfl, rfl⟩ := Prod.mk.inj (Option.some.inj hcarried)
      exact hhanded (Machine.transmit_of_effect heffect ha)
    | execute target message =>
      obtain ⟨rfl, rfl⟩ := Prod.mk.inj (Option.some.inj hcarried)
      obtain ⟨arrived, rest, o, rfl, hrest, hmem⟩ :=
        Machine.dispatched_of_effect heffect ha (fun hc => hc.elim) rfl
      obtain ⟨addressed, haddressed, hselect, rfl⟩ := Machine.execute_of_dispatched hrest hmem
      exact .chosen (m := m) hknown haddressed hselect
    | _ => cases hcarried

/-- A message that is under way after a step was so before, or the step put it there. -/
theorem origin (hq : s.queue.first? = some (key, task))
    (hp : (s.take key task).process key task = .ok s') (h : s'.Live d message) :
    s.Origin key task d message := by
  have hstill := take_still hq
  cases task with
  | sensorTick id =>
    obtain ⟨bookings, hbooks, hemission⟩ := tick_books hp
    rcases h.of_books hbooks with h | ⟨b, hb, hcarried⟩
    · exact .kept (h.of_still hstill)
    · cases hemission b hb with
      | arrival _ happ hmessage =>
        obtain ⟨rfl, rfl⟩ := Prod.mk.inj (Option.some.inj hcarried)
        exact .emitted happ hmessage
      | interval _ => cases hcarried
  | executionCompleted target input =>
    rw [← Except.ok.inj hp] at h
    rcases h.of_books (complete_books _ target input) with h | ⟨b, hb, hcarried⟩
    · exact .kept (h.of_still hstill)
    · obtain ⟨answer, hanswer, rfl⟩ := List.mem_map.mp hb
      obtain ⟨rfl, rfl⟩ := Prod.mk.inj (Option.some.inj hcarried)
      exact .answered hanswer
  | device event => exact h.origin_of_happen hq hp

end Live

/-! ## Traces -/

/--
What a message at a device says about the past can be relied on: the ledger and the pins name the
same devices, the pinned instances run there, and links lead there. A message going down that is
bound for a device is bound for the one that the ledger names.
-/
structure Traceable (net : Network) (s : Simulation) (d : DeviceId) (message : Message) : Prop where
  ledger : ∀ name, message.deviceFor name = (message.pin? name).map InstanceId.device
  runs : ∀ name p, message.pin? name = some p → s.Runs message.app name p
  joined : ∀ name p, message.pin? name = some p → net.topology.Joined d p.device
  bound : message.direction = .down → ∀ e, message.destinationDevice = some e →
    message.deviceFor message.destination = some e

namespace Traceable

theorem grows (h : s.Traceable net d message) (hg : s.Grows s') : s'.Traceable net d message :=
  ⟨h.ledger, fun name p hp => hg _ _ _ (h.runs name p hp), h.joined, h.bound⟩

/-- A message that was processed nowhere. -/
theorem fresh (s : Simulation) (d : DeviceId) (hledger : message.traversed = [])
    (hpins : message.pins = SortedMap.empty) (hup : message.direction = .up) :
    s.Traceable net d message := by
  have hnone (name : Name) : message.pin? name = none := by rw [Message.pin?, hpins]; rfl
  constructor
  · intro name
    rw [hnone, Message.deviceFor, hledger]
    rfl
  · intro name p hp
    rw [hnone] at hp
    cases hp
  · intro name p hp
    rw [hnone] at hp
    cases hp
  · intro hdown
    rw [hup] at hdown
    cases hdown

/-- A message may take over the ledger and the pins of another one. -/
theorem inherited (h : s.Traceable net d message) {output : Message}
    (hledger : output.traversed = message.traversed) (hpins : output.pins = message.pins)
    (happ : output.app = message.app)
    (hbound : output.direction = .down → ∀ e, output.destinationDevice = some e →
      output.deviceFor output.destination = some e) : s.Traceable net d output := by
  have hdevice (name : Name) : output.deviceFor name = message.deviceFor name := by
    rw [Message.deviceFor, hledger, Message.deviceFor]
  have hpin (name : Name) : output.pin? name = message.pin? name := by
    rw [Message.pin?, hpins, Message.pin?]
  constructor
  · intro name
    rw [hdevice, hpin]
    exact h.ledger name
  · intro name p hp
    rw [happ]
    exact h.runs name p (hpin name ▸ hp)
  · exact fun name p hp => h.joined name p (hpin name ▸ hp)
  · exact hbound

/-- A message going down is bound for where it was before. -/
theorem addressed (h : s.Traceable net d message) {m : Machine} {e : DeviceId}
    {addressed : Message} (ha : m.addressed? message = some (e, addressed)) :
    s.Traceable net d addressed ∧ addressed.destinationDevice = some e := by
  rcases Machine.addressed?_cases ha with ⟨hd, rfl⟩ | ⟨_, ⟨turns, hr⟩, rfl⟩
  · exact ⟨h, hd⟩
  · refine ⟨h.inherited rfl rfl rfl fun hdown e' he => ?_, rfl⟩
    rw [← Option.some.inj he]
    rcases Machine.resolve_some_cases hr with ⟨hup, _⟩ | ⟨_, hfor, _⟩
    · rw [show message.direction = .down from hdown] at hup
      cases hup
    · exact hfor

/-- When an instance is chosen at the destination, the ledger and the pins are told. -/
theorem processed (h : s.Traceable net d message) {target : InstanceId}
    (htarget : target.device = d) (hrun : s.Runs message.app message.destination target)
    (hhere : message.destinationDevice = some d) : s.Traceable net target.device
      ((message.setPin message.destination target).recordTraversal d message.destination) := by
  have hpin (name : Name) :
      ((message.setPin message.destination target).recordTraversal d message.destination).pin? name
        = if name = message.destination then some target else message.pin? name :=
    message.pin?_setPin message.destination name target
  have hdevice (name : Name) :
      ((message.setPin message.destination target).recordTraversal d
          message.destination).deviceFor name
        = if message.destination = name then some d else message.deviceFor name :=
    Message.deviceFor_recordTraversal _ d message.destination name
  rw [htarget]
  constructor
  · intro name
    rw [hdevice, hpin]
    by_cases hname : name = message.destination
    · rw [if_pos hname, if_pos hname.symm, Option.map_some, htarget]
    · rw [if_neg hname, if_neg (Ne.symm hname)]
      exact h.ledger name
  · intro name p hp
    rw [hpin] at hp
    by_cases hname : name = message.destination
    · rw [if_pos hname] at hp
      rw [← Option.some.inj hp, hname]
      exact hrun
    · rw [if_neg hname] at hp
      exact h.runs name p hp
  · intro name p hp
    rw [hpin] at hp
    by_cases hname : name = message.destination
    · rw [if_pos hname] at hp
      rw [← Option.some.inj hp, htarget]
      exact .refl _ d
    · rw [if_neg hname] at hp
      exact h.joined name p hp
  · intro _ e he
    rw [hdevice]
    exact (if_pos rfl).trans (hhere.symm.trans he)

/-- What a message leaves behind stays joined to it. -/
theorem moved (hf : net.topology.toLayout.Forest) (h : s.Traceable net d message) {e : DeviceId}
    {link : Link} (hl : net.topology.link? d e = some link) : s.Traceable net e message :=
  ⟨h.ledger, h.runs, fun name p hp => (h.joined name p hp).back hf hl, h.bound⟩

end Traceable

/-! ## Steps -/

/-- Every message under way can be traced. -/
def Traced (net : Network) (s : Simulation) : Prop :=
  ∀ d message, s.Live d message → s.Traceable net d message

/-- An answer inherits from the message that it answers. -/
theorem inherit_of_mem_resultantsFrom {app : Application} {m : Microservice}
    {input output : Message} : ∀ {edges : List Edge} {id : MessageId} {g : Generator},
      output ∈ (app.resultantsFrom m input edges id g).1 → output.traversed = input.traversed
        ∧ output.pins = input.pins ∧ output.app = app.id ∧ output.destinationDevice = none
  | [], _, _, h => absurd h List.not_mem_nil
  | e :: edges, id, g, h => by
    unfold Application.resultantsFrom at h
    split at h
    · exact inherit_of_mem_resultantsFrom h
    · split at h
      · exact inherit_of_mem_resultantsFrom h
      · rcases List.mem_cons.mp h with rfl | h
        · exact ⟨rfl, rfl, rfl, rfl⟩
        · exact inherit_of_mem_resultantsFrom h

/-- What an instance answers inherits from what it processed. -/
theorem Traceable.answer {apps : List Application} (ha : net.applications = .ofList apps)
    (hnetwork : s.network = net) (h : s.Traceable net d message) {output : Message}
    (hanswer : output ∈ s.outputs message) : s.Traceable net d output := by
  unfold outputs at hanswer
  split at hanswer
  · exact absurd hanswer List.not_mem_nil
  · next app happ =>
    rw [hnetwork] at happ
    unfold Application.resultants at hanswer
    split at hanswer
    · exact absurd hanswer List.not_mem_nil
    · obtain ⟨hledger, hpins, hid, hnone⟩ := inherit_of_mem_resultantsFrom hanswer
      have hsame := hid.trans (Network.id_of_application? ha happ)
      refine h.inherited hledger hpins hsame fun _ e he => ?_
      rw [hnone] at he
      cases he

namespace Traced

theorem still (h : s.Traced net) (hs : s.Still s') : s'.Traced net :=
  fun d message hlive => (h d message (hlive.of_still hs)).grows hs.grows

/-- A step puts only messages under way that can be traced. -/
theorem origin {apps : List Application} (hf : net.topology.toLayout.Forest)
    (ha : net.applications = .ofList apps) (hs : s.Arranged net) (h : s.Traced net)
    (hq : s.queue.first? = some (key, task)) (ho : s.Origin key task d message) :
    s.Traceable net d message := by
  have hfirst {d : DeviceId} {message : Message}
      (hcarried : task.carried? key.device = some (d, message)) : s.Traceable net d message :=
    h d message (.queued (Queue.mem_of_first hq) hcarried)
  cases ho with
  | kept hlive => exact h d message hlive
  | emitted _ hmessage =>
    obtain ⟨e, _, rfl⟩ := Option.map_eq_some_iff.mp hmessage
    exact .fresh s _ rfl rfl rfl
  | answered hanswer => exact (hfirst rfl).answer ha hs.network hanswer
  | sentOn hm haddressed hlink =>
    rw [hs.network, hs.id _ _ hm] at hlink
    exact ((hfirst rfl).addressed haddressed).1.moved hf hlink
  | @chosen m _ _ target hm haddressed hselect =>
    have hid : m.id = key.device := hs.id _ m hm
    have hrun := Deployment.select_mem hselect
    have htarget : target.device = key.device := by
      rw [Deployment.device_of_mem_instancesOf hrun, (hs.sound _ m hm).instances, hid]
    obtain ⟨htraced, hhere⟩ := (hfirst rfl).addressed haddressed
    rw [hid] at hhere ⊢
    exact htraced.processed htarget ⟨m, htarget ▸ hm, hrun⟩ hhere

/-- A step keeps every message traceable. -/
theorem step {apps : List Application} (hf : net.topology.toLayout.Forest)
    (ha : net.applications = .ofList apps) (hs : s.Arranged net) (h : s.Traced net)
    (hq : s.queue.first? = some (key, task))
    (hp : (s.take key task).process key task = .ok s') : s'.Traced net := by
  intro d message hlive
  have htaken : s.Grows (s.take key task) := grows_of_machines rfl
  exact (h.origin hf ha hs hq (hlive.origin hq hp)).grows (htaken.trans (process_grows hp))

end Traced

/-! ## Runs -/

/-- In every reached simulation all messages under way can be traced. -/
theorem traced_of_ran {apps : List Application} (hb : Topology.build l = .ok net.topology)
    (ha : net.applications = .ofList apps) (h : Ran net seed history s) : s.Traced net := by
  refine invariant_of_ran (P := fun _ s => s.Traced net) h ?create (fun ih hs _ _ => ih.still hs)
    ?start fun h ih hq hp =>
      ih.step (Layout.forest_of_build hb) ha (intact_of_ran hb h).arranged hq hp
  case create => exact fun _ _ hlive => hlive.not_create.elim
  case start =>
    intro history s s' bookings _ _ ih hbooks hopening d message hlive
    exact (ih d message (hlive.of_start hbooks hopening)).grows (grows_of_machines hbooks.machines)

/-! ## Messages going down -/

/-- A message going down that is bound for a device is pinned to an instance that runs there. -/
theorem Traceable.pinned (h : s.Traceable net d message) (hdown : message.direction = .down)
    {m : Machine} {e : DeviceId} {addressed : Message}
    (ha : m.addressed? message = some (e, addressed)) :
    message.destinationDevice.or (message.deviceFor message.destination) = some e
      ∧ ∃ p, message.pin? message.destination = some p
        ∧ addressed.pin? addressed.destination = some p ∧ p.device = e
        ∧ s.Runs addressed.app addressed.destination p ∧ net.topology.Joined d e := by
  obtain ⟨htraced, hhere⟩ := h.addressed ha
  have hsame : addressed.direction = message.direction
      ∧ addressed.pin? addressed.destination = message.pin? message.destination
      ∧ message.destinationDevice.or (message.deviceFor message.destination) = some e := by
    rcases Machine.addressed?_cases ha with ⟨hd, rfl⟩ | ⟨hd, ⟨turns, hr⟩, rfl⟩
    · exact ⟨rfl, rfl, by rw [hd]; rfl⟩
    · refine ⟨rfl, rfl, ?_⟩
      rcases Machine.resolve_some_cases hr with ⟨hup, _⟩ | ⟨_, hfor, _⟩
      · rw [hdown] at hup
        cases hup
      · rw [hd, hfor]
        rfl
  obtain ⟨hdirection, hpin, hor⟩ := hsame
  have hfor := htraced.bound (hdirection.trans hdown) e hhere
  rw [htraced.ledger] at hfor
  obtain ⟨p, hp, rfl⟩ := Option.map_eq_some_iff.mp hfor
  exact ⟨hor, p, hpin ▸ hp, hp, rfl, htraced.runs _ p hp, htraced.joined _ p hp⟩

/--
What dispatch does with a message going down: it gives the message up only if the ledger names no
device, and at the device that the ledger names the pinned instance processes it.
-/
theorem Traceable.dispatched (hb : Topology.build l = .ok net.topology) (hs : s.Arranged net)
    (h : s.Traceable net d message) (hdown : message.direction = .down) {m : Machine}
    (hm : s.machine? d = some m) {now : Duration} {actions : List Action} {o : Outbound}
    (hactions : Machine.Dispatched net { m with now } message actions o) :
    (∀ id reason, .recordDrop id reason ∈ actions → id = message.id ∧ reason = .unresolvable
        ∧ message.destinationDevice = none ∧ message.deviceFor message.destination = none)
      ∧ (message.destinationDevice.or (message.deviceFor message.destination) = some d →
          ∃ p processed, message.pin? message.destination = some p ∧ p.device = d
            ∧ actions = [.execute p processed]) := by
  have hid : ({ m with now } : Machine).id = d := hs.id d m hm
  -- The pinned instance can be chosen at its device, and elsewhere there is a link towards it.
  have hselect {addressed : Message}
      (ha : ({ m with now } : Machine).addressed? message = some (d, addressed)) :
      ∃ p, message.pin? message.destination = some p ∧ p.device = d
        ∧ m.deployment.select addressed.app addressed.destination
            (addressed.pin? addressed.destination) = .ok p := by
    obtain ⟨_, p, hp, hpin, hdevice, ⟨m₁, hm₁, hrun⟩, _⟩ := h.pinned hdown ha
    rw [hdevice, hm, Option.some.injEq] at hm₁
    rw [← hm₁] at hrun
    refine ⟨p, hp, hdevice, ?_⟩
    rw [hpin]
    exact Deployment.select_pin.mpr ⟨rfl, hrun⟩
  have hroute {e : DeviceId} {addressed : Message}
      (ha : ({ m with now } : Machine).addressed? message = some (e, addressed)) (hne : e ≠ d) :
      ∃ hop k, net.topology.nextHop d e = .ok hop ∧ net.topology.link? d hop = some k := by
    obtain ⟨_, _, _, _, _, _, hjoined⟩ := h.pinned hdown ha
    exact Topology.nextHop_of_joined hb (Ne.symm hne) hjoined
  cases hactions with
  | delivered _ hdirection | untaken hdirection =>
    rw [hdown] at hdirection
    cases hdirection
  | unresolved _ hnone =>
    have hledger : message.destinationDevice = none
        ∧ message.deviceFor message.destination = none := by
      unfold Machine.addressed? at hnone
      split at hnone
      · cases hnone
      · next hd =>
        refine ⟨hd, ?_⟩
        simpa [Machine.resolve, hdown] using hnone
    refine ⟨fun id reason hmem => ?_, fun hor => ?_⟩
    · obtain ⟨rfl, rfl⟩ := Action.recordDrop.inj (List.mem_singleton.mp hmem)
      exact ⟨rfl, rfl, hledger⟩
    · rw [hledger.1, hledger.2] at hor
      cases hor
  | executed _ ha hchosen =>
    rw [hid] at ha
    obtain ⟨p, hp, hdevice, hselect⟩ := hselect ha
    obtain rfl := Except.ok.inj (hselect.symm.trans hchosen)
    exact ⟨fun id reason hmem => by simp at hmem, fun _ => ⟨p, _, hp, hdevice, rfl⟩⟩
  | rejected _ ha hrejected =>
    rw [hid] at ha
    obtain ⟨p, _, _, hselect⟩ := hselect ha
    cases hselect.symm.trans hrejected
  | unrouted _ ha hne herror =>
    rw [hid] at hne herror
    obtain ⟨hop, _, hnext, _⟩ := hroute ha hne
    cases hnext.symm.trans herror
  | unlinked _ ha hne hnext hlink =>
    rw [hid] at hne hnext hlink
    obtain ⟨hop, k, hnext', hlink'⟩ := hroute ha hne
    rw [Except.ok.inj (hnext'.symm.trans hnext), hlink] at hlink'
    cases hlink'
  | sent _ ha hne _ _ hsend =>
    refine ⟨fun id reason hmem => ?_, fun hor => ?_⟩
    · rcases Outbound.send_cases hsend with ⟨rfl, _⟩ | ⟨_, rfl, _⟩ <;> simp at hmem
    · rw [(h.pinned hdown ha).1] at hor
      exact absurd (Option.some.inj hor) (hid ▸ hne)

/-- What a step of the history did: something to the machine of its device, if there is one. -/
theorem effect_of_mem (hb : Topology.build l = .ok net.topology) (h : Ran net seed history s)
    {x : Step} (hx : x ∈ history) {event : Event} (ht : x.task = .device event) :
    (x.before.machine? x.key.device = none ∧ x.actions event = [])
      ∨ ∃ m m', x.before.machine? x.key.device = some m
        ∧ Machine.Effect net { m with now := x.key.time } event (x.actions event) m' := by
  obtain ⟨_, hran, _, s', hp⟩ := h.mem hx
  obtain ⟨before, key, task⟩ := x
  simp only at ht
  subst ht
  have hnetwork : before.network = net := (intact_of_ran hb hran).arranged.network
  have hp : (before.take key (.device event)).happen key.device event = .ok s' := hp
  rcases happen_books hp with ⟨hnone, _⟩ | ⟨m, actions, m', hm, hv, _⟩
  · have hnone : before.machine? key.device = none := hnone
    exact Or.inl ⟨hnone, Step.actions_of_none hnone event⟩
  · have hm : before.machine? key.device = some m := hm
    refine Or.inr ⟨m, m', hm, ?_⟩
    rw [Step.actions_of_handle hm hv, ← hnetwork]
    exact Machine.effect_of_handle hv

/--
In a reached simulation the ledger of every message under way names, for every microservice, the
device of the instance that is pinned for it, and that instance runs there. On the way to it only
messages that arrived were dropped. One that goes down was dropped only if it was bound for no
device yet and its ledger names none for its destination; and when it came to the device that it was
bound for, or that the ledger names, its pinned instance began to process it.
-/
theorem replies_return {apps : List Application} (hb : Topology.build l = .ok net.topology)
    (ha : net.applications = .ofList apps) (h : Ran net seed history s) :
    (∀ d message, s.Live d message → ∀ name,
        message.deviceFor name = (message.pin? name).map InstanceId.device
          ∧ ∀ p, message.pin? name = some p → ∃ m, s.machine? p.device = some m
            ∧ p ∈ m.deployment.instancesOf message.app name)
      ∧ (∀ x ∈ history, ∀ event, x.task = .device event → ∀ id reason,
          .recordDrop id reason ∈ x.actions event → ∃ message, event = .messageArrived message
            ∧ message.id = id ∧ (message.direction = .down → reason = .unresolvable
              ∧ message.destinationDevice = none ∧ message.deviceFor message.destination = none))
      ∧ ∀ x ∈ history, ∀ message, x.task = .device (.messageArrived message) →
          message.direction = .down →
          message.destinationDevice.or (message.deviceFor message.destination)
            = some x.key.device →
          ∃ p processed counted, message.pin? message.destination = some p
            ∧ p.device = x.key.device
            ∧ x.actions (.messageArrived message) = counted ++ [.execute p processed]
            ∧ ∀ a ∈ counted, a = .recordCloudTraffic message.id := by
  have harrival {x : Step} (hx : x ∈ history) {message : Message}
      (ht : x.task = .device (.messageArrived message)) :
      x.before.Arranged net ∧ x.before.Traceable net x.key.device message
        ∧ x.before.machine? x.key.device ≠ none := by
    obtain ⟨_, hran, hq, _⟩ := h.mem hx
    have hintact := intact_of_ran hb hran
    have hfirst := Queue.mem_of_first hq
    refine ⟨hintact.arranged,
      traced_of_ran hb ha hran _ _ (.queued hfirst (by rw [ht]; rfl)), fun hnone => ?_⟩
    have hknown := hintact.orderly.first hq (d := x.key.device) (by rw [ht]; rfl)
    rw [SortedMap.contains_eq, show x.before.machines.get? x.key.device = none from hnone] at hknown
    cases hknown
  refine ⟨fun d message hlive name => ?_, fun x hx event ht id reason hdrop => ?_,
    fun x hx message ht hdown hor => ?_⟩
  · have htraced := traced_of_ran hb ha h d message hlive
    exact ⟨htraced.ledger name, fun p hp => htraced.runs name p hp⟩
  · rcases effect_of_mem hb h hx ht with ⟨_, hnil⟩ | ⟨m, m', hm, heffect⟩
    · rw [hnil] at hdrop
      cases hdrop
    · obtain ⟨message, rest, o, rfl, hrest, hmem⟩ :=
        Machine.dispatched_of_effect heffect hdrop (fun hc => hc.elim) rfl
      obtain ⟨harranged, htraced, _⟩ := harrival hx ht
      refine ⟨message, rfl, Machine.id_of_dispatched hrest hmem, fun hdown => ?_⟩
      exact ((htraced.dispatched hb harranged hdown hm hrest).1 id reason hmem).2
  · obtain ⟨harranged, htraced, hknown⟩ := harrival hx ht
    rcases effect_of_mem hb h hx ht with ⟨hnone, _⟩ | ⟨m, m', hm, heffect⟩
    · exact absurd hnone hknown
    · generalize x.actions (.messageArrived message) = actions at heffect
      cases heffect with
      | received hcounted hrest =>
        obtain ⟨p, processed, hp, hdevice, rfl⟩ :=
          (htraced.dispatched hb harranged hdown hm hrest).2 hor
        exact ⟨p, processed, _, hp, hdevice, rfl, hcounted⟩

/-- A step in which a message going down comes to the device that it is bound for. -/
def Step.returns (x : Step) : Bool :=
  match x.task with
  | .device (.messageArrived message) =>
    message.direction == .down && message.destinationDevice == some x.key.device
  | _ => false

theorem Step.returns_cases {x : Step} (h : x.returns = true) :
    ∃ message, x.task = .device (.messageArrived message) ∧ message.direction = .down
      ∧ message.destinationDevice = some x.key.device := by
  unfold returns at h
  split at h
  · next message ht =>
    simp only [Bool.and_eq_true, beq_iff_eq] at h
    exact ⟨message, ht, h⟩
  · cases h

/--
After seven tenths of a second the phone has heard the first echo, and the client that asked, its
only instance, processes it.
-/
theorem replies_return_echo : ∃ history s x message p processed, Ran echoNetwork 0 history s
    ∧ x ∈ history ∧ x.task = .device (.messageArrived message) ∧ message.direction = .down
    ∧ x.key.device = 2 ∧ message.pin? message.destination = some p ∧ p.device = 2
    ∧ .execute p processed ∈ x.actions (.messageArrived message) := by
  obtain ⟨s, hs, _⟩ := exists_of_finishesWith (p := fun _ => true)
    (show finishesWith _ (echoStart.runUntil 706250000 80) = true by decide +kernel)
  have hran : Ran echoNetwork 0 (echoStart.stepsUntil 706250000 80) s :=
    ran_of_runUntil (ran_withSensors _ _ _) hs
  obtain ⟨x, hx, hreturns⟩ := List.any_eq_true.mp
    (show (echoStart.stepsUntil 706250000 80).any (fun x => x.returns && x.key.device == 2) = true
      by decide +kernel)
  obtain ⟨hreturns, hdevice⟩ := Bool.and_eq_true_iff.mp hreturns
  obtain ⟨message, ht, hdown, hbound⟩ := Step.returns_cases hreturns
  have happlications : echoNetwork.applications = .ofList [echo] := rfl
  obtain ⟨_, _, hprocessed⟩ := replies_return build_phone happlications hran
  obtain ⟨p, processed, counted, hp, hhere, hactions, _⟩ :=
    hprocessed x hx message ht hdown (by rw [hbound]; rfl)
  have hdevice : x.key.device = 2 := beq_iff_eq.mp hdevice
  refine ⟨_, s, x, message, p, processed, hran, hx, ht, hdown, hdevice, hp, hhere.trans hdevice, ?_⟩
  rw [hactions]
  exact List.mem_append_right _ List.mem_cons_self

end Simulation

end FogNet
