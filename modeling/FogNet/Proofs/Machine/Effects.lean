import FogNet.Proofs.Machine.Messages

/-!
# What an event does to a device

The step function of a device, turned round: from the actions and the machine that an event leads to
back to what the device did. Every invariant of a machine is shown along these cases.

## Main statements

* `dispatched_of_receive` — what becomes of a message that arrives
* `effect_of_handle` — what an event does
* `moves_of_effect` — what an event does to one link
* `waits_of_effect`, `transmit_of_effect`, `dispatched_of_effect` — where messages come from
* `flow_of_effect` — where messages on their way go
* `instances_of_effect` — instances stay
-/

namespace FogNet

namespace Machine

variable {net : Network} {m m' : Machine} {message : Message} {actions : List Action}

/-! ## Messages that arrive -/

/-- The device that a message is for, and the message when that is written on it. -/
def addressed? (m : Machine) (message : Message) : Option (DeviceId × Message) :=
  match message.destinationDevice with
  | some destination => some (destination, message)
  | none => (m.resolve message).map fun r =>
      (r.1, { message with destinationDevice := some r.1, sourceDevice := some m.id })

theorem addressed?_cases {d : DeviceId} {addressed : Message}
    (h : m.addressed? message = some (d, addressed)) :
    (message.destinationDevice = some d ∧ addressed = message)
      ∨ (message.destinationDevice = none ∧ (∃ turns, m.resolve message = some (d, turns))
        ∧ addressed = { message with destinationDevice := some d, sourceDevice := some m.id }) := by
  unfold addressed? at h
  split at h
  · next hd =>
    simp only [Option.some.injEq, Prod.mk.injEq] at h
    obtain ⟨rfl, rfl⟩ := h
    exact Or.inl ⟨hd, rfl⟩
  · next hd =>
    simp only [Option.map_eq_some_iff, Prod.mk.injEq] at h
    obtain ⟨⟨_, turns⟩, hr, rfl, rfl⟩ := h
    exact Or.inr ⟨hd, ⟨turns, hr⟩, rfl⟩

/-- A message that is bound for a device is what it was, but for its addresses. -/
theorem bound_of_addressed? {d : DeviceId} {addressed : Message}
    (h : m.addressed? message = some (d, addressed)) : addressed.destinationDevice = some d
      ∧ addressed = { message with
          destinationDevice := some d, sourceDevice := addressed.sourceDevice } := by
  rcases addressed?_cases h with ⟨hd, rfl⟩ | ⟨_, _, rfl⟩
  · refine ⟨hd, ?_⟩
    rw [← hd]
  · exact ⟨rfl, rfl⟩

/-- A message that is bound for a device is not looked at again. -/
theorem addressed?_of_bound {d : DeviceId} (h : message.destinationDevice = some d) :
    m.addressed? message = some (d, message) := by
  rw [addressed?, h]

/-- What a device does about a message that arrives, and the links that it has then. -/
inductive Dispatched (net : Network) (m : Machine) (message : Message) :
    List Action → Outbound → Prop
  | delivered (targets : List AttachedActuator) : message.direction = .actuator →
      Dispatched net m message (targets.map fun a => .deliverToActuator a.id message) m.outbound
  | untaken : message.direction = .actuator →
      Dispatched net m message [.recordDrop message.id .noActuator] m.outbound
  | unresolved : message.direction ≠ .actuator → m.addressed? message = none →
      Dispatched net m message [.recordDrop message.id .unresolvable] m.outbound
  | executed {addressed : Message} {target : InstanceId} : message.direction ≠ .actuator →
      m.addressed? message = some (m.id, addressed) →
      m.deployment.select addressed.app addressed.destination
        (addressed.pin? addressed.destination) = .ok target →
      Dispatched net m message [.execute target
        ((addressed.setPin addressed.destination target).recordTraversal m.id
          addressed.destination)] m.outbound
  | rejected {addressed : Message} {reason : DropReason} : message.direction ≠ .actuator →
      m.addressed? message = some (m.id, addressed) →
      m.deployment.select addressed.app addressed.destination
        (addressed.pin? addressed.destination) = .error reason →
      Dispatched net m message [.recordDrop message.id reason] m.outbound
  | unrouted {d : DeviceId} {addressed : Message} {e : TopologyError} :
      message.direction ≠ .actuator → m.addressed? message = some (d, addressed) → d ≠ m.id →
      net.topology.nextHop m.id d = .error e →
      Dispatched net m message [.recordDrop message.id .missingRoute] m.outbound
  | unlinked {d next : DeviceId} {addressed : Message} :
      message.direction ≠ .actuator → m.addressed? message = some (d, addressed) → d ≠ m.id →
      net.topology.nextHop m.id d = .ok next → net.topology.link? m.id next = none →
      Dispatched net m message [.recordDrop message.id .notAdjacent] m.outbound
  | sent {d next : DeviceId} {addressed : Message} {link : Link} {actions : List Action}
      {o : Outbound} : message.direction ≠ .actuator →
      m.addressed? message = some (d, addressed) → d ≠ m.id →
      net.topology.nextHop m.id d = .ok next → net.topology.link? m.id next = some link →
      (m.outbound.send link.kind ⟨next, link.latency, addressed⟩).value = some (actions, o) →
      Dispatched net m message actions o

theorem dispatched_of_advance (turns : Turns) {d : DeviceId} {addressed : Message}
    (hdirection : message.direction ≠ .actuator)
    (haddressed : m.addressed? message = some (d, addressed)) (hid : addressed.id = message.id)
    (h : ({ m with turns }.advance net addressed d).value = some (actions, m')) :
    m.Dispatched net message actions m'.outbound := by
  unfold advance at h
  split at h
  · next hd =>
    subst hd
    simp only [Recorded.value_bind, Recorded.value_pure, Option.bind_eq_some_iff,
      Option.some.injEq, Prod.mk.injEq] at h
    obtain ⟨_, he, rfl, rfl⟩ := h
    unfold execute at he
    simp only at he
    split at he
    · next hselect =>
      rw [drop_value, Option.some.injEq] at he
      rw [← he, hid]
      exact .rejected hdirection haddressed hselect
    · next hselect =>
      rw [Recorded.value_pure, Option.some.injEq] at he
      rw [← he]
      exact .executed hdirection haddressed hselect
  · next hd =>
    simp only [Recorded.value_bind, Recorded.value_pure, Option.bind_eq_some_iff,
      Option.some.injEq, Prod.mk.injEq] at h
    obtain ⟨⟨_, _⟩, ho, rfl, rfl⟩ := h
    unfold forward at ho
    split at ho
    · next hnext =>
      simp only [Recorded.value_bind, drop_value, Option.bind_some, Recorded.value_pure,
        Option.some.injEq, Prod.mk.injEq] at ho
      rw [← ho.1, ← ho.2, hid]
      exact .unrouted hdirection haddressed hd hnext
    · next hnext =>
      split at ho
      · next hlink =>
        simp only [Recorded.value_bind, drop_value, Option.bind_some, Recorded.value_pure,
          Option.some.injEq, Prod.mk.injEq] at ho
        rw [← ho.1, ← ho.2, hid]
        exact .unlinked hdirection haddressed hd hnext hlink
      · next hlink => exact .sent hdirection haddressed hd hnext hlink ho

theorem dispatched_of_travel (hdirection : message.direction ≠ .actuator)
    (h : (m.travel net message).value = some (actions, m')) :
    m.Dispatched net message actions m'.outbound := by
  unfold travel at h
  split at h
  · next hd =>
    exact dispatched_of_advance m.turns hdirection (by rw [addressed?, hd]) rfl h
  · next hd =>
    split at h
    · next hr =>
      simp only [Recorded.value_bind, drop_value, Option.bind_some, Recorded.value_pure,
        Option.some.injEq, Prod.mk.injEq] at h
      rw [← h.1, ← h.2]
      exact .unresolved hdirection (by rw [addressed?, hd, hr, Option.map_none])
    · next d turns hr =>
      have haddressed : m.addressed? message = some (d,
          { message with destinationDevice := some d, sourceDevice := some m.id }) := by
        rw [addressed?, hd]
        simp only [hr, Option.map_some]
      exact dispatched_of_advance turns hdirection haddressed rfl h

/-- What becomes of a message that arrives, besides that it is counted at the cloud. -/
theorem dispatched_of_receive (h : (m.receive net message).value = some (actions, m')) :
    ∃ counted rest, actions = counted ++ rest ∧ (∀ a ∈ counted, a = .recordCloudTraffic message.id)
      ∧ m.Dispatched net message rest m'.outbound := by
  unfold receive at h
  split at h
  · next hdirection =>
    simp only [Recorded.value_bind, Recorded.value_pure, Option.bind_eq_some_iff,
      Option.some.injEq, Prod.mk.injEq] at h
    obtain ⟨_, ha, rfl, rfl⟩ := h
    refine ⟨[], _, rfl, by simp, ?_⟩
    unfold actuate at ha
    split at ha
    · rw [drop_value, Option.some.injEq] at ha
      exact ha ▸ .untaken hdirection
    · rw [Recorded.value_pure, Option.some.injEq] at ha
      exact ha ▸ .delivered _ hdirection
  · next hdirection =>
    simp only [Recorded.value_bind, Recorded.value_pure, Option.bind_eq_some_iff,
      Option.some.injEq, Prod.mk.injEq] at h
    obtain ⟨counted, hc, ⟨_, _⟩, ht, rfl, rfl⟩ := h
    refine ⟨counted, _, rfl, ?_, dispatched_of_travel hdirection ht⟩
    unfold countTraffic at hc
    split at hc
    · simp only [Recorded.value_bind, Recorded.value_record, Option.bind_some, Recorded.value_pure,
        Option.some.injEq] at hc
      simp [← hc]
    · simp only [Recorded.value_pure, Option.some.injEq] at hc
      simp [← hc]

/-- An instance processes a message that is for this device, and is chosen by its pin. -/
theorem execute_of_dispatched {o : Outbound} (h : m.Dispatched net message actions o)
    {target : InstanceId} {processed : Message} (ha : .execute target processed ∈ actions) :
    ∃ addressed, m.addressed? message = some (m.id, addressed)
      ∧ m.deployment.select addressed.app addressed.destination
          (addressed.pin? addressed.destination) = .ok target
      ∧ processed = (addressed.setPin addressed.destination target).recordTraversal m.id
          addressed.destination := by
  cases h with
  | @executed addressed _ _ haddressed hselect =>
    obtain ⟨rfl, rfl⟩ := Action.execute.inj (List.mem_singleton.mp ha)
    exact ⟨addressed, haddressed, hselect, rfl⟩
  | delivered targets _ =>
    obtain ⟨_, _, he⟩ := List.mem_map.mp ha
    cases he
  | sent _ _ _ _ _ hsend =>
    rcases Outbound.send_cases hsend with ⟨rfl, _⟩ | ⟨_, rfl, _⟩ <;> simp at ha
  | _ => cases List.mem_singleton.mp ha

/-- Dispatch gives up no other message than the one that arrived. -/
theorem id_of_dispatched {o : Outbound} (h : m.Dispatched net message actions o) {id : MessageId}
    {reason : DropReason} (ha : .recordDrop id reason ∈ actions) : message.id = id := by
  cases h with
  | delivered targets _ =>
    obtain ⟨_, _, he⟩ := List.mem_map.mp ha
    cases he
  | sent _ _ _ _ _ hsend =>
    rcases Outbound.send_cases hsend with ⟨rfl, _⟩ | ⟨_, rfl, _⟩ <;> simp at ha
  | executed _ _ _ => cases List.mem_singleton.mp ha
  | _ => exact (Action.recordDrop.inj (List.mem_singleton.mp ha)).1.symm

/--
Dispatch ends the way of a message only at the device that the message is for, if there is a link
towards it elsewhere.
-/
theorem ends_of_dispatched {o : Outbound} (h : m.Dispatched net message actions o)
    (hdirection : message.direction ≠ .actuator) {d : DeviceId} {addressed : Message}
    (haddressed : m.addressed? message = some (d, addressed))
    (hroute : d ≠ m.id → ∃ hop k,
      net.topology.nextHop m.id d = .ok hop ∧ net.topology.link? m.id hop = some k) :
    (∀ target processed, .execute target processed ∈ actions → m.id = d
        ∧ processed = (addressed.setPin addressed.destination target).recordTraversal d
            addressed.destination)
      ∧ ∀ id reason, .recordDrop id reason ∈ actions → m.id = d
        ∧ reason ≠ .missingRoute ∧ reason ≠ .notAdjacent := by
  have hsame {d' : DeviceId} {addressed' : Message}
      (ha : m.addressed? message = some (d', addressed')) : d' = d ∧ addressed' = addressed := by
    rw [haddressed, Option.some.injEq, Prod.mk.injEq] at ha
    exact ⟨ha.1.symm, ha.2.symm⟩
  cases h with
  | delivered _ hactuator | untaken hactuator => exact absurd hactuator hdirection
  | unresolved _ hnone =>
    rw [haddressed] at hnone
    cases hnone
  | executed _ ha _ =>
    obtain ⟨rfl, rfl⟩ := hsame ha
    refine ⟨fun target processed hmem => ?_, fun id reason hmem => ?_⟩
    · obtain ⟨rfl, rfl⟩ := Action.execute.inj (List.mem_singleton.mp hmem)
      exact ⟨rfl, rfl⟩
    · cases List.mem_singleton.mp hmem
  | rejected _ ha hselect =>
    obtain ⟨rfl, rfl⟩ := hsame ha
    refine ⟨fun target processed hmem => ?_, fun id reason hmem => ⟨rfl, ?_⟩⟩
    · cases List.mem_singleton.mp hmem
    · obtain ⟨-, rfl⟩ := Action.recordDrop.inj (List.mem_singleton.mp hmem)
      rcases Deployment.select_error hselect with rfl | rfl <;> decide
  | unrouted _ ha hne herror =>
    obtain ⟨rfl, rfl⟩ := hsame ha
    obtain ⟨hop, _, hnext, _⟩ := hroute hne
    cases hnext.symm.trans herror
  | unlinked _ ha hne hnext hlink =>
    obtain ⟨rfl, rfl⟩ := hsame ha
    obtain ⟨hop, k, hnext', hlink'⟩ := hroute hne
    rw [Except.ok.inj (hnext'.symm.trans hnext), hlink] at hlink'
    cases hlink'
  | sent _ _ _ _ _ hsend =>
    rcases Outbound.send_cases hsend with ⟨rfl, _⟩ | ⟨_, rfl, _⟩
    · exact ⟨fun _ _ hmem => absurd hmem List.not_mem_nil,
        fun _ _ hmem => absurd hmem List.not_mem_nil⟩
    · exact ⟨fun _ _ hmem => by simp at hmem, fun _ _ hmem => by simp at hmem⟩

/-! ## Events -/

/-- What an event does to a device. -/
inductive Effect (net : Network) (m : Machine) : Event → List Action → Machine → Prop
  | passed : m.orchestrator = none → Effect net m .placementTimer [] m
  | cycle {o o' : Orchestrator} {actions : List Action} : m.orchestrator = some o →
      (o.tick net m.id).value = some (actions, o') →
      Effect net m .placementTimer actions { m with orchestrator := some o' }
  | freed {link : LinkKind} {actions : List Action} {o : Outbound} :
      (m.outbound.freed link).value = some (actions, o) →
      Effect net m (.linkFreed link) actions { m with outbound := o }
  | received {message : Message} {counted rest : List Action} {turns : Turns} {o : Outbound} :
      (∀ a ∈ counted, a = .recordCloudTraffic message.id) → m.Dispatched net message rest o →
      Effect net m (.messageArrived message) (counted ++ rest) { m with turns, outbound := o }
  | submitted (r : Request) : Effect net m (.placementRequestSubmitted r) [] (m.submit r)
  | learned (microservice : Name) (host : DeviceId) :
      Effect net m (.serviceDiscoveryUpdate microservice host) []
        { m with directory := m.directory.add microservice host }
  | activated (app : AppId) :
      Effect net m (.activateApplication app) [] { m with deployment := m.deployment.activate app }
  | readied (app : AppId) :
      Effect net m (.applicationReady app) [] { m with deployment := m.deployment.markReady app }
  | launched {app : AppId} (microservice : Name) : net.applications.contains app = true →
      Effect net m (.launchMicroservice app microservice) []
        { m with deployment := m.deployment.launch app microservice }
  | refused {app : AppId} (microservice : Name) : net.applications.contains app = false →
      Effect net m (.launchMicroservice app microservice) [] m

/-- An event does one of these things to a device. -/
theorem effect_of_handle {e : Event} (h : (m.handle net e).value = some (actions, m')) :
    m.Effect net e actions m' := by
  cases e with
  | placementTimer =>
    simp only [handle, cycle] at h
    split at h
    · next ho =>
      simp only [Recorded.value_pure, Option.some.injEq, Prod.mk.injEq] at h
      rw [← h.1, ← h.2]
      exact .passed ho
    · next ho =>
      simp only [Recorded.value_bind, Recorded.value_pure, Option.bind_eq_some_iff,
        Option.some.injEq, Prod.mk.injEq] at h
      obtain ⟨⟨_, _⟩, ht, rfl, rfl⟩ := h
      exact .cycle ho ht
  | linkFreed link =>
    simp only [handle, Recorded.value_bind, Recorded.value_pure, Option.bind_eq_some_iff,
      Option.some.injEq, Prod.mk.injEq] at h
    obtain ⟨⟨_, _⟩, ho, rfl, rfl⟩ := h
    exact .freed ho
  | messageArrived message =>
    have h : (m.receive net message).value = some (actions, m') := h
    obtain ⟨hdevice, hdirectory, hactuators, hdeployment, horchestrator, hnow⟩ :=
      receive_sameNode h
    obtain ⟨counted, rest, rfl, hcounted, hrest⟩ := dispatched_of_receive h
    have hm' : m' = { m with turns := m'.turns, outbound := m'.outbound } := by
      rw [← hdevice, ← hdirectory, ← hactuators, ← hdeployment, ← horchestrator, ← hnow]
    rw [hm']
    exact .received hcounted hrest
  | placementRequestSubmitted r =>
    simp only [handle, Recorded.value_pure, Option.some.injEq, Prod.mk.injEq] at h
    rw [← h.1, ← h.2]
    exact .submitted r
  | serviceDiscoveryUpdate microservice host =>
    simp only [handle, learn, Recorded.value_bind, Recorded.value_pure, Option.bind_eq_some_iff,
      Option.some.injEq, Prod.mk.injEq] at h
    obtain ⟨_, ⟨_, _, rfl⟩, rfl, rfl⟩ := h
    exact .learned microservice host
  | activateApplication app =>
    simp only [handle, Recorded.value_pure, Option.some.injEq, Prod.mk.injEq] at h
    rw [← h.1, ← h.2]
    exact .activated app
  | applicationReady app =>
    simp only [handle, Recorded.value_pure, Option.some.injEq, Prod.mk.injEq] at h
    rw [← h.1, ← h.2]
    exact .readied app
  | launchMicroservice app microservice =>
    simp only [handle, launch, Recorded.value_bind, Recorded.value_pure, Option.bind_eq_some_iff,
      Option.some.injEq, Prod.mk.injEq] at h
    obtain ⟨_, hl, rfl, rfl⟩ := h
    split at hl
    · next happ =>
      simp only [Recorded.value_bind, Recorded.value_pure, Option.bind_eq_some_iff,
        Option.some.injEq] at hl
      obtain ⟨_, _, rfl⟩ := hl
      exact .launched microservice happ
    · next happ =>
      simp only [Recorded.value_pure, Option.some.injEq] at hl
      rw [← hl]
      exact .refused microservice (by simpa using happ)

end Machine

/-! ## Links -/

/-- Whether an action puts a message on a link, or waits for the end of the transmission. -/
def Action.isOn (kind : LinkKind) : Action → Bool
  | .setTimer (.linkFree link) _ | .transmit _ link _ _ _ => link == kind
  | _ => false

/-- What an action puts on a link. -/
def Action.travelling? : Action → Option Waiting
  | .transmit target _ message _ latency => some ⟨target, latency, message⟩
  | _ => none

/-- An action that lets nothing happen at once but internal events. -/
def Action.LetsInternal : Action → Prop
  | .deliver _ event | .enqueueInternal event => event.isInternal = true
  | _ => True

/-- What a device does to put a message on a link, when the transmission takes some time. -/
def Waiting.departing (w : Waiting) (kind : LinkKind) (transmission : Duration) : List Action :=
  [.setTimer (.linkFree kind) transmission,
    .transmit w.target kind w.message transmission w.latency]

/-- Whether an event is the end of the transmission on a link. -/
def Event.frees (kind : LinkKind) : Event → Bool
  | .linkFreed link => link == kind
  | _ => false

/--
What can happen to the queue of a link, by the message that it is handed, whether it is free again,
and the message that is put on it, with the time that this takes.
-/
inductive LinkQueue.Moves (q : LinkQueue) :
    Option Waiting → Bool → Option (Waiting × Duration) → LinkQueue → Prop
  | stays : Moves q none false none q
  | joins (w : Waiting) : q.busy = true →
      Moves q (some w) false none { busy := true, waiting := q.waiting ++ [w] }
  | departs (w : Waiting) (d : Duration) : q.busy = false →
      Moves q (some w) false (some (w, d)) { busy := true, waiting := q.waiting }
  | idles : q.waiting = [] → Moves q none true none { busy := false, waiting := [] }
  | follows {w : Waiting} {rest : List Waiting} (d : Duration) : q.waiting = w :: rest →
      Moves q none true (some (w, d)) { busy := true, waiting := rest }

/-- What waits for a link afterwards, or is put on it, was handed to it or waited before. -/
theorem LinkQueue.Moves.origin {q q' : LinkQueue} {handed : Option Waiting} {frees : Bool}
    {put : Option (Waiting × Duration)} (h : q.Moves handed frees put q') :
    (∀ w ∈ q'.waiting, w ∈ q.waiting ∨ handed = some w)
      ∧ ∀ p, put = some p → p.1 ∈ q.waiting ∨ handed = some p.1 := by
  cases h with
  | stays => exact ⟨fun w hw => Or.inl hw, by simp⟩
  | joins w _ =>
    refine ⟨fun w' hw => ?_, by simp⟩
    rcases List.mem_append.mp hw with hw | hw
    · exact Or.inl hw
    · exact Or.inr (congrArg some (List.mem_singleton.mp hw).symm)
  | departs w _ _ => exact ⟨fun w hw => Or.inl hw, by simp⟩
  | idles _ => simp
  | follows _ hwaiting =>
    rw [hwaiting]
    exact ⟨fun w hw => Or.inl (List.mem_cons_of_mem _ hw), by simp⟩

namespace Outbound

variable {o o' : Outbound} {link kind : LinkKind} {w : Waiting} {actions : List Action}

theorem mem_waits : w ∈ o.waits ↔ ∃ kind, w ∈ (o.queue kind).waiting := by
  have hall (kind : LinkKind) : kind ∈ LinkKind.all := by cases kind <;> decide
  simp [waits, hall]

/-- What a message that is sent does to each link. -/
theorem moves_of_send (h : (o.send link w).value = some (actions, o')) (kind : LinkKind) :
    ∃ put, (o.queue kind).Moves (if link = kind then some w else none) false put (o'.queue kind)
      ∧ actions.filter (Action.isOn kind) = put.elim [] fun p => p.1.departing kind p.2 := by
  by_cases hk : link = kind
  · subst hk
    rw [if_pos rfl]
    cases hbusy : (o.queue link).busy with
    | true =>
      rw [send_busy w hbusy, Recorded.value_pure, Option.some.injEq, Prod.mk.injEq] at h
      obtain ⟨rfl, rfl⟩ := h
      rw [queue_setQueue_self]
      exact ⟨none, .joins w hbusy, rfl⟩
    | false =>
      simp only [send, hbusy, Bool.false_eq_true, if_false, Recorded.value_bind,
        Option.bind_eq_some_iff, Recorded.value_pure, Option.some.injEq, Prod.mk.injEq] at h
      obtain ⟨_, ht, rfl, rfl⟩ := h
      obtain ⟨d, _, rfl⟩ := transmit_actions ht
      rw [queue_setQueue_self]
      exact ⟨some (w, d), .departs w d hbusy, by simp [Action.isOn, Waiting.departing]⟩
  · rw [if_neg hk, send_other h (Ne.symm hk)]
    refine ⟨none, .stays, ?_⟩
    rcases send_cases h with ⟨rfl, _⟩ | ⟨_, rfl, _⟩ <;> simp [Action.isOn, hk]

/-- What the end of a transmission does to each link. -/
theorem moves_of_freed (h : (o.freed link).value = some (actions, o')) (kind : LinkKind) :
    ∃ put, (o.queue kind).Moves none (link == kind) put (o'.queue kind)
      ∧ actions.filter (Action.isOn kind) = put.elim [] fun p => p.1.departing kind p.2 := by
  by_cases hk : link = kind
  · subst hk
    rw [beq_self_eq_true]
    cases hw : (o.queue link).waiting with
    | nil =>
      simp only [freed, hw, Recorded.value_pure, Option.some.injEq, Prod.mk.injEq] at h
      obtain ⟨rfl, rfl⟩ := h
      rw [queue_setQueue_self]
      exact ⟨none, .idles hw, rfl⟩
    | cons w rest =>
      obtain ⟨ht, rfl⟩ := freed_waiting hw h
      obtain ⟨d, _, rfl⟩ := transmit_actions ht
      rw [queue_setQueue_self]
      exact ⟨some (w, d), .follows d hw, by simp [Action.isOn, Waiting.departing]⟩
  · rw [freed_other h (Ne.symm hk), show (link == kind) = false by simpa using hk]
    refine ⟨none, .stays, ?_⟩
    rcases freed_cases h with ⟨rfl, _⟩ | ⟨_, _, rfl, _⟩ <;> simp [Action.isOn, hk]

end Outbound

namespace Machine

variable {net : Network} {m m' : Machine} {message : Message} {actions : List Action}

/-- What dispatch hands to a link when a message arrives, and which link this is. -/
def handed? (net : Network) (m : Machine) (message : Message) : Option (LinkKind × Waiting) :=
  if message.direction = .actuator then none
  else
    match m.addressed? message with
    | none => none
    | some (d, addressed) =>
      if d = m.id then none
      else
        match net.topology.nextHop m.id d with
        | .error _ => none
        | .ok next => (net.topology.link? m.id next).map fun link =>
            (link.kind, ⟨next, link.latency, addressed⟩)

/-- What dispatch hands to a link is an arrived message on its way to another device. -/
theorem handed?_cases {kind : LinkKind} {w : Waiting} (h : m.handed? net message = some (kind, w)) :
    message.direction ≠ .actuator ∧ ∃ d link, m.addressed? message = some (d, w.message)
      ∧ d ≠ m.id ∧ net.topology.nextHop m.id d = .ok w.target
      ∧ net.topology.link? m.id w.target = some link ∧ link.kind = kind
      ∧ link.latency = w.latency := by
  unfold handed? at h
  split at h
  · cases h
  · next hdirection =>
    split at h
    · cases h
    · next d addressed haddressed =>
      split at h
      · cases h
      · next hd =>
        split at h
        · cases h
        · next hnext =>
          obtain ⟨link, hlink, hw⟩ := Option.map_eq_some_iff.mp h
          obtain ⟨rfl, rfl⟩ := Prod.mk.inj hw
          exact ⟨hdirection, d, link, haddressed, hd, hnext, hlink, rfl, rfl⟩

/-- What dispatch hands to one link at an event. -/
def handedTo? (net : Network) (m : Machine) (kind : LinkKind) : Event → Option Waiting
  | .messageArrived message =>
    ((m.handed? net message).filter fun h => h.1 == kind).map Prod.snd
  | _ => none

theorem handedTo?_cases {kind : LinkKind} {e : Event} {w : Waiting}
    (h : m.handedTo? net kind e = some w) : ∃ message d link, e = .messageArrived message
      ∧ m.addressed? message = some (d, w.message)
      ∧ net.topology.link? m.id w.target = some link ∧ link.latency = w.latency := by
  cases e with
  | messageArrived message =>
    obtain ⟨⟨_, w⟩, hh, rfl⟩ := Option.map_eq_some_iff.mp h
    obtain ⟨_, d, link, haddressed, _, _, hlink, _, hlatency⟩ :=
      handed?_cases (Option.filter_eq_some_iff.mp hh).1
    exact ⟨message, d, link, rfl, haddressed, hlink, hlatency⟩
  | _ => cases h

/-- Dispatch sends what it hands to a link over it, and otherwise puts nothing on a link. -/
theorem sent_of_dispatched {o : Outbound} (h : m.Dispatched net message actions o) :
    (m.handed? net message = none ∧ o = m.outbound
        ∧ ∀ a ∈ actions, a.sent? = none ∧ ∀ kind, a.isOn kind = false)
      ∨ ∃ link w, m.handed? net message = some (link, w)
        ∧ (m.outbound.send link w).value = some (actions, o) := by
  cases h with
  | sent hdirection haddressed hd hnext hlink hsend =>
    refine Or.inr ⟨_, _, ?_, hsend⟩
    simp only [handed?, if_neg hdirection, haddressed, if_neg hd, hnext, hlink, Option.map_some]
  | delivered targets hdirection =>
    refine Or.inl ⟨by rw [handed?, if_pos hdirection], rfl, fun a ha => ?_⟩
    obtain ⟨_, _, rfl⟩ := List.mem_map.mp ha
    exact ⟨rfl, fun _ => rfl⟩
  | untaken hdirection =>
    exact Or.inl ⟨by rw [handed?, if_pos hdirection], rfl, by simp [Action.sent?, Action.isOn]⟩
  | unresolved _ haddressed =>
    exact Or.inl ⟨by simp [handed?, haddressed], rfl, by simp [Action.sent?, Action.isOn]⟩
  | executed _ haddressed _ | rejected _ haddressed _ =>
    exact Or.inl ⟨by simp [handed?, haddressed], rfl, by simp [Action.sent?, Action.isOn]⟩
  | unrouted _ haddressed _ hnext =>
    exact Or.inl ⟨by simp [handed?, haddressed, hnext], rfl,
      by simp [Action.sent?, Action.isOn]⟩
  | unlinked _ haddressed _ hnext hlink =>
    exact Or.inl ⟨by simp [handed?, haddressed, hnext, hlink], rfl,
      by simp [Action.sent?, Action.isOn]⟩

theorem moves_of_dispatched {o : Outbound} (h : m.Dispatched net message actions o)
    (kind : LinkKind) : ∃ put,
      (m.outbound.queue kind).Moves (m.handedTo? net kind (.messageArrived message)) false put
        (o.queue kind)
      ∧ actions.filter (Action.isOn kind) = put.elim [] fun p => p.1.departing kind p.2 := by
  rcases sent_of_dispatched h with ⟨hnone, rfl, hactions⟩ | ⟨link, w, hhanded, hsend⟩
  · refine ⟨none, ?_, List.filter_eq_nil_iff.mpr fun a ha => by simp [(hactions a ha).2 kind]⟩
    rw [handedTo?, hnone]
    exact .stays
  · obtain ⟨put, hmoves, hfilter⟩ := Outbound.moves_of_send hsend kind
    refine ⟨put, ?_, hfilter⟩
    simp only [handedTo?, hhanded, Option.filter_some, beq_iff_eq]
    by_cases hk : link = kind
    · rw [if_pos hk] at hmoves ⊢
      exact hmoves
    · rw [if_neg hk] at hmoves ⊢
      exact hmoves

/-- What an event does to each link: what it is handed, and what is put on it. -/
theorem moves_of_effect {e : Event} (h : m.Effect net e actions m') (kind : LinkKind) : ∃ put,
    (m.outbound.queue kind).Moves (m.handedTo? net kind e) (e.frees kind) put
      (m'.outbound.queue kind)
    ∧ actions.filter (Action.isOn kind) = put.elim [] fun p => p.1.departing kind p.2 := by
  cases h with
  | freed ho => exact Outbound.moves_of_freed ho kind
  | @received message counted rest _ _ hcounted hrest =>
    obtain ⟨put, hmoves, hfilter⟩ := moves_of_dispatched hrest kind
    have hnone : counted.filter (Action.isOn kind) = [] :=
      List.filter_eq_nil_iff.mpr fun a ha => by simp [hcounted a ha, Action.isOn]
    refine ⟨put, hmoves, ?_⟩
    rw [List.filter_append, hnone, List.nil_append, hfilter]
  | cycle _ ht =>
    refine ⟨none, .stays, List.filter_eq_nil_iff.mpr fun a ha => ?_⟩
    rcases Orchestrator.tick_actions ht ha with rfl | ⟨_, _, rfl, _⟩ <;>
      simp [Action.isOn, Orchestrator.nextCycle]
  | _ => exact ⟨none, .stays, rfl⟩

/-- What waits for links afterwards waited before, or was handed to one of them. -/
theorem waits_of_effect {e : Event} (h : m.Effect net e actions m') {w : Waiting}
    (hw : w ∈ m'.outbound.waits) :
    w ∈ m.outbound.waits ∨ ∃ kind, m.handedTo? net kind e = some w := by
  obtain ⟨kind, hw⟩ := Outbound.mem_waits.mp hw
  obtain ⟨_, hmoves, _⟩ := moves_of_effect h kind
  exact (hmoves.origin.1 w hw).imp (fun h => Outbound.mem_waits.mpr ⟨kind, h⟩) fun h => ⟨kind, h⟩

/-- What is put on a link waited before, or was handed to it. -/
theorem transmit_of_effect {e : Event} (h : m.Effect net e actions m') {target : DeviceId}
    {kind : LinkKind} {transmission latency : Duration}
    (ha : .transmit target kind message transmission latency ∈ actions) :
    ⟨target, latency, message⟩ ∈ m.outbound.waits
      ∨ ∃ kind, m.handedTo? net kind e = some ⟨target, latency, message⟩ := by
  obtain ⟨put, hmoves, hfilter⟩ := moves_of_effect h kind
  have hon := List.mem_filter.mpr
    ⟨ha, show (Action.transmit target kind message transmission latency).isOn kind = true
      from beq_self_eq_true kind⟩
  rw [hfilter] at hon
  cases put with
  | none => exact absurd hon List.not_mem_nil
  | some p =>
    have hp : p.1 = ⟨target, latency, message⟩ := by
      simp only [Option.elim_some, Waiting.departing, List.mem_cons, reduceCtorEq,
        Action.transmit.injEq, true_and, List.not_mem_nil, or_false, false_or] at hon
      obtain ⟨rfl, rfl, _, rfl⟩ := hon
      rfl
    rw [← hp]
    exact (hmoves.origin.2 p rfl).imp (fun h => Outbound.mem_waits.mpr ⟨kind, h⟩)
      fun h => ⟨kind, h⟩

/-- Only a message that arrives is processed, handed to actuators or given up. -/
theorem dispatched_of_effect {e : Event} (h : m.Effect net e actions m') {a : Action}
    (ha : a ∈ actions) (hcommand : ¬ a.IsCommand) (hsent : a.sent? = none) :
    ∃ message rest o, e = .messageArrived message ∧ m.Dispatched net message rest o ∧ a ∈ rest := by
  cases h with
  | @received message counted rest _ o hcounted hrest =>
    refine ⟨message, rest, o, rfl, hrest, (List.mem_append.mp ha).resolve_left fun hmem => ?_⟩
    rw [hcounted a hmem] at hcommand
    exact hcommand trivial
  | cycle _ ht => exact absurd (Orchestrator.tick_commands ht a ha) hcommand
  | freed ho =>
    exfalso
    rcases Outbound.freed_cases ho with ⟨rfl, _⟩ | ⟨w, d, rfl, _⟩
    · exact List.not_mem_nil ha
    · rcases List.mem_cons.mp ha with rfl | ha
      · exact hcommand trivial
      · rw [List.mem_singleton.mp ha] at hsent
        cases hsent
  | _ => exact absurd ha List.not_mem_nil

/-- What dispatch hands to a link at an event, whichever link it is. -/
def handedAt? (net : Network) (m : Machine) : Event → Option Waiting
  | .messageArrived message => (m.handed? net message).map Prod.snd
  | _ => none

theorem arriving?_of_handedAt? {e : Event} {w : Waiting} (h : m.handedAt? net e = some w) :
    e.arriving? = some w.message.id := by
  cases e with
  | messageArrived message =>
    obtain ⟨⟨_, w⟩, hhanded, rfl⟩ := Option.map_eq_some_iff.mp h
    obtain ⟨_, _, _, haddressed, _⟩ := handed?_cases hhanded
    obtain ⟨_, hsame⟩ := bound_of_addressed? haddressed
    exact congrArg some (congrArg Message.id hsame).symm
  | _ => cases h

/--
What waited for links, and what dispatch hands to one, waits for links afterwards, but for one
message at most, which is put on its link.
-/
theorem flow_of_effect {e : Event} (h : m.Effect net e actions m') : ∃ put : Option Waiting,
    actions.filterMap Action.travelling? = put.toList
      ∧ (put.toList ++ m'.outbound.waits).Perm
          ((m.handedAt? net e).toList ++ m.outbound.waits) := by
  cases h with
  | freed ho =>
    rcases Outbound.freed_cases ho with ⟨rfl, hwaits⟩ | ⟨w, _, rfl, hwaits⟩
    · exact ⟨none, rfl, hwaits⟩
    · exact ⟨some w, rfl, hwaits⟩
  | @received message counted rest _ _ hcounted hrest =>
    have hnone : counted.filterMap Action.travelling? = [] :=
      List.filterMap_eq_nil_iff.mpr fun a ha => by rw [hcounted a ha]; rfl
    rw [List.filterMap_append, hnone, List.nil_append, handedAt?]
    rcases sent_of_dispatched hrest with ⟨hhanded, rfl, hactions⟩ | ⟨link, w, hhanded, hsend⟩
    · rw [hhanded]
      refine ⟨none, List.filterMap_eq_nil_iff.mpr fun a ha => ?_, .refl _⟩
      have hsent := (hactions a ha).1
      cases a <;> first | rfl | cases hsent
    · rw [hhanded]
      rcases Outbound.send_cases hsend with ⟨rfl, hwaits⟩ | ⟨_, rfl, hwaits⟩
      · exact ⟨none, rfl, hwaits⟩
      · exact ⟨some w, rfl, hwaits.cons w⟩
  | cycle _ ht =>
    refine ⟨none, List.filterMap_eq_nil_iff.mpr fun a ha => ?_, .refl _⟩
    rcases Orchestrator.tick_actions ht ha with rfl | ⟨_, _, rfl, _⟩ <;> rfl
  | _ => exact ⟨none, rfl, .refl _⟩

/-- Instances stay, and stay the same. -/
theorem instances_of_effect {e : Event} (h : m.Effect net e actions m') (app : AppId)
    (name : Name) : m.deployment.instancesOf app name ⊆ m'.deployment.instancesOf app name := by
  cases h with
  | launched _ _ =>
    rw [Deployment.instancesOf_launch]
    exact List.subset_append_left _ _
  | submitted _ | learned _ _ | activated _ | readied _ => exact fun _ hp => hp
  | _ => exact List.Subset.refl _

/-- All events that a device lets happen at once are internal. -/
theorem internal_of_effect {e : Event} (h : m.Effect net e actions m') :
    ∀ a ∈ actions, a.LetsInternal := by
  have hsend {o o' : Outbound} {link : LinkKind} {w : Waiting} {actions : List Action}
      (h : (o.send link w).value = some (actions, o')) : ∀ a ∈ actions, a.LetsInternal := by
    rcases Outbound.send_cases h with ⟨rfl, _⟩ | ⟨_, rfl, _⟩ <;> simp [Action.LetsInternal]
  cases h with
  | cycle _ ht =>
    intro a ha
    rcases Orchestrator.tick_actions ht ha with rfl | ⟨_, _, rfl, he, _⟩
    · trivial
    · exact he
  | freed ho =>
    rcases Outbound.freed_cases ho with ⟨rfl, _⟩ | ⟨_, _, rfl, _⟩ <;> simp [Action.LetsInternal]
  | received hcounted hrest =>
    refine List.forall_mem_append.mpr ⟨fun a ha => by rw [hcounted a ha]; trivial, ?_⟩
    cases hrest with
    | sent _ _ _ _ _ ho => exact hsend ho
    | delivered targets _ =>
      intro a ha
      obtain ⟨_, _, rfl⟩ := List.mem_map.mp ha
      trivial
    | _ => simp [Action.LetsInternal]
  | _ => simp

theorem internal_of_start : ∀ a ∈ m.start, a.LetsInternal := by
  intro a ha
  rcases start_actions ha with rfl | ⟨_, he, rfl⟩
  · trivial
  · exact he

end Machine

end FogNet
