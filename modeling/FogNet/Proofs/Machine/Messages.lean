import FogNet.Proofs.Machine.Submissions
import FogNet.Proofs.Topology.Forest
import FogNet.Sum
import Mathlib.Algebra.BigOperators.Group.List.Lemmas
import Mathlib.Data.List.Dedup

/-!
# What a device does about messages

A message that arrives at a device is put on a link, waits for one, is processed by an instance, is
dropped, or is handed to actuators: it gets exactly one of these. A link that is free again takes
one of the messages that wait for it. Nothing else that a device does is about messages.

## Main statements

* `Outbound.send_cases`, `Outbound.freed_cases` — who waits for the links of a device
* `Machine.relays_receive` — what a device does about a message that arrives
* `Machine.relays_handle` — what it does about all its messages at an event
-/

namespace FogNet

open List (Perm)

/-! ## Messages in events and actions -/

/-- The message whose arrival an event is. -/
def Event.arriving? : Event → Option MessageId
  | .messageArrived message => some message.id
  | _ => none

theorem Event.arriving?_of_isInternal {e : Event} (h : e.isInternal = true) :
    e.arriving? = none := by
  cases e <;> first | rfl | exact absurd h Bool.false_ne_true

/-- The message that a task lets arrive. -/
def Task.arriving? : Task → Option MessageId
  | .device event => event.arriving?
  | _ => none

/-- How a message came to its end. -/
inductive Fate where
  | executed
  | dropped (reason : DropReason)
  | delivered (actuators : List ActuatorId)
  deriving DecidableEq, Repr

namespace Fate

def isExecuted : Fate → Bool
  | executed => true
  | _ => false

def isDropped : Fate → Bool
  | dropped _ => true
  | _ => false

def isDelivered : Fate → Bool
  | delivered _ => true
  | _ => false

/-- How many actuators the message was handed to. -/
def deliveries : Fate → Nat
  | delivered actuators => actuators.length
  | _ => 0

end Fate

namespace Action

/-- The message that an action puts on a link. -/
def sent? : Action → Option MessageId
  | transmit _ _ message _ _ => some message.id
  | _ => none

/-- The message that an action lets an instance process. -/
def processed? : Action → Option MessageId
  | execute _ message => some message.id
  | _ => none

/-- The message that an action gives up, and why. -/
def dropped? : Action → Option (MessageId × DropReason)
  | recordDrop message reason => some (message, reason)
  | _ => none

/-- The message that an action hands to an actuator. -/
def delivered? : Action → Option (MessageId × ActuatorId)
  | deliverToActuator actuator message => some (message.id, actuator)
  | _ => none

/-- An action that is about no message: a timer, or an event that is no arrival. -/
def IsCommand : Action → Prop
  | deliver _ event | enqueueInternal event => event.arriving? = none
  | setTimer _ _ | recordCloudTraffic _ => True
  | _ => False

end Action

/-! ## Messages that end -/

/-- The actuators to which actions hand a message. -/
def takers (actions : List Action) (id : MessageId) : List ActuatorId :=
  ((actions.filterMap Action.delivered?).filter fun e => e.1 == id).map Prod.snd

/-- The messages that end with some actions. One that goes to several actuators ends once. -/
def endings (actions : List Action) : List (MessageId × Fate) :=
  (actions.filterMap Action.dropped?).map (fun e => (e.1, .dropped e.2))
    ++ ((actions.filterMap Action.delivered?).map Prod.fst).dedup.map fun id =>
        (id, .delivered (takers actions id))

theorem filterMap_commands {α : Type} {f : Action → Option α} {actions : List Action}
    (h : ∀ a ∈ actions, a.IsCommand) (hf : ∀ a : Action, a.IsCommand → f a = none) :
    actions.filterMap f = [] :=
  List.filterMap_eq_nil_iff.mpr fun a ha => hf a (h a ha)

/-- A command puts no message on a link, lets none be processed and ends none. -/
theorem Action.IsCommand.silent {a : Action} (h : a.IsCommand) :
    a.sent? = none ∧ a.processed? = none ∧ a.dropped? = none ∧ a.delivered? = none := by
  cases a <;> first | exact ⟨rfl, rfl, rfl, rfl⟩ | exact h.elim

theorem endings_append {commands : List Action} (h : ∀ a ∈ commands, a.IsCommand)
    (actions : List Action) : endings (commands ++ actions) = endings actions := by
  have hdelivered : (commands ++ actions).filterMap Action.delivered?
      = actions.filterMap Action.delivered? := by
    rw [List.filterMap_append, filterMap_commands h fun _ ha => ha.silent.2.2.2, List.nil_append]
  have htakers : takers (commands ++ actions) = takers actions := by
    funext id
    rw [takers, takers, hdelivered]
  rw [endings, endings, hdelivered, htakers, List.filterMap_append,
    filterMap_commands h fun _ ha => ha.silent.2.2.1, List.nil_append]

theorem endings_commands {actions : List Action} (h : ∀ a ∈ actions, a.IsCommand) :
    endings actions = [] := by
  rw [← actions.append_nil, endings_append h]
  rfl

theorem filterMap_deliver {α : Type} {f : Action → Option α} (message : Message)
    (targets : List AttachedActuator) (hf : ∀ id, f (.deliverToActuator id message) = none) :
    (targets.map fun a => Action.deliverToActuator a.id message).filterMap f = [] := by
  rw [List.filterMap_map]
  exact List.filterMap_eq_nil_iff.mpr fun a _ => hf a.id

theorem endings_deliver (message : Message) {targets : List AttachedActuator} (h : targets ≠ []) :
    endings (targets.map fun a => .deliverToActuator a.id message)
      = [(message.id, .delivered (targets.map AttachedActuator.id))] := by
  have hdelivered : (targets.map fun a => Action.deliverToActuator a.id message).filterMap
      Action.delivered? = targets.map fun a => (message.id, a.id) := by
    rw [List.filterMap_map, ← List.filterMap_eq_map]
    rfl
  -- All deliveries are of one message, so only one is left of its numbers.
  have hids : ((targets.map fun a => (message.id, a.id)).map Prod.fst).dedup = [message.id] := by
    rw [List.map_map, show Prod.fst ∘ (fun a : AttachedActuator => (message.id, a.id))
      = Function.const _ message.id from rfl, List.map_const,
      List.replicate_dedup (by simpa using h)]
  have htakers : takers (targets.map fun a => .deliverToActuator a.id message) message.id
      = targets.map AttachedActuator.id := by
    rw [takers, hdelivered]
    simp [List.filter_map, Function.comp_def]
  rw [endings, filterMap_deliver message targets fun _ => rfl, hdelivered, hids,
    List.map_singleton, htakers]
  rfl

section Endings

variable (actions : List Action)

theorem countP_isExecuted_endings : (endings actions).countP (fun e => e.2.isExecuted) = 0 := by
  rw [endings, List.countP_append, List.countP_map, List.countP_map]
  exact Nat.add_eq_zero_iff.mpr ⟨List.countP_eq_zero.mpr (by simp [Fate.isExecuted]),
    List.countP_eq_zero.mpr (by simp [Fate.isExecuted])⟩

/-- Every drop ends a message. -/
theorem countP_isDropped_endings : (endings actions).countP (fun e => e.2.isDropped)
    = (actions.filterMap Action.dropped?).length := by
  have hdropped : ((actions.filterMap Action.dropped?).map fun e => (e.1, Fate.dropped e.2)).countP
      (fun e => e.2.isDropped) = (actions.filterMap Action.dropped?).length := by
    rw [List.countP_map]
    exact List.countP_eq_length.mpr fun _ _ => rfl
  rw [endings, List.countP_append, hdropped, List.countP_map,
    List.countP_eq_zero.mpr (by simp [Fate.isDropped]), Nat.add_zero]

theorem length_takers (id : MessageId) : (takers actions id).length
    = ((actions.filterMap Action.delivered?).map Prod.fst).count id := by
  rw [takers, List.length_map, ← List.countP_eq_length_filter, List.count, List.countP_map]
  rfl

/-- A message that several actuators take ends once, with all its deliveries. -/
theorem deliveries_endings : sumOf ((endings actions).map fun e => e.2.deliveries)
    = (actions.filterMap Action.delivered?).length := by
  have hdropped : ∀ l : List (MessageId × DropReason),
      sumOf ((l.map fun e => (e.1, Fate.dropped e.2)).map fun e => e.2.deliveries) = 0 := by
    intro l
    induction l with
    | nil => rfl
    | cons e l ih => exact (Nat.zero_add _).trans ih
  -- The library knows the counts of a list without repetitions only by its own sum.
  have hsum : ∀ l : List Nat, sumOf l = l.sum := by
    intro l
    induction l with
    | nil => rfl
    | cons n l ih => rw [sumOf_cons, List.sum_cons, ih]
  rw [endings, List.map_append, sumOf_append, hdropped, Nat.zero_add, List.map_map]
  simp only [Function.comp_def, Fate.deliveries, length_takers]
  rw [hsum, List.sum_map_count_dedup_eq_length, List.length_map]

/-- A delivery is to at least one actuator. -/
theorem ne_nil_of_mem_endings {id : MessageId} {l : List ActuatorId}
    (h : (id, Fate.delivered l) ∈ endings actions) : l ≠ [] := by
  rcases List.mem_append.mp h with h | h
  · obtain ⟨_, _, he⟩ := List.mem_map.mp h
    cases he
  · obtain ⟨x, hx, he⟩ := List.mem_map.mp h
    cases he
    rw [← List.length_pos_iff, length_takers, List.count_pos_iff]
    exact List.mem_dedup.mp hx

end Endings

/-- The messages that actions put on a link, let be processed, or bring to an end. -/
def onward (actions : List Action) : List MessageId :=
  actions.filterMap Action.sent? ++ actions.filterMap Action.processed?
    ++ (endings actions).map Prod.fst

/-- Commands before other actions change nothing about messages. -/
theorem onward_append {commands : List Action} (h : ∀ a ∈ commands, a.IsCommand)
    (actions : List Action) : onward (commands ++ actions) = onward actions := by
  simp only [onward, endings_append h, List.filterMap_append,
    filterMap_commands h fun _ ha => ha.silent.1, filterMap_commands h fun _ ha => ha.silent.2.1,
    List.nil_append]

theorem onward_commands {actions : List Action} (h : ∀ a ∈ actions, a.IsCommand) :
    onward actions = [] := by
  rw [← actions.append_nil, onward_append h]
  rfl

theorem onward_deliver (message : Message) {targets : List AttachedActuator} (h : targets ≠ []) :
    onward (targets.map fun a => .deliverToActuator a.id message) = [message.id] := by
  rw [onward, endings_deliver message h, filterMap_deliver message targets fun _ => rfl,
    filterMap_deliver message targets fun _ => rfl]
  rfl

/-! ## Links -/

namespace Outbound

variable {o o' : Outbound} {link : LinkKind} {w : Waiting} {actions : List Action}

/-- All that wait for links. -/
def waits (o : Outbound) : List Waiting := LinkKind.all.flatMap fun k => (o.queue k).waiting

theorem waits_setQueue (o : Outbound) (link : LinkKind) (q : LinkQueue) :
    ((o.queue link).waiting ++ (o.setQueue link q).waits).Perm (q.waiting ++ o.waits) := by
  classical
  rw [List.perm_iff_count]
  intro w
  cases link <;>
    simp [waits, LinkKind.all, setQueue, queue, PerLink.get, PerLink.set, List.count_append] <;>
    omega

/-- A message that is sent waits for its link, or it is put on it. -/
theorem send_cases (h : (o.send link w).value = some (actions, o')) :
    (actions = [] ∧ o'.waits.Perm (w :: o.waits))
      ∨ ∃ d, actions = [.setTimer (.linkFree link) d,
          .transmit w.target link w.message d w.latency] ∧ o'.waits.Perm o.waits := by
  unfold send at h
  simp only at h
  split at h
  · simp only [Recorded.value_pure, Option.some.injEq, Prod.mk.injEq] at h
    obtain ⟨rfl, rfl⟩ := h
    have hw := o.waits_setQueue link
      { o.queue link with waiting := (o.queue link).waiting ++ [w] }
    rw [List.append_assoc, List.singleton_append] at hw
    exact Or.inl ⟨rfl, (List.perm_append_left_iff _).mp hw⟩
  · simp only [Recorded.value_bind, Option.bind_eq_some_iff, Recorded.value_pure,
      Option.some.injEq, Prod.mk.injEq] at h
    obtain ⟨_, ht, rfl, rfl⟩ := h
    obtain ⟨d, _, rfl⟩ := transmit_actions ht
    exact Or.inr ⟨d, rfl, (List.perm_append_left_iff _).mp (o.waits_setQueue link _)⟩

/-- A link that is free again has none that wait for it, or the first of them is put on it. -/
theorem freed_cases (h : (o.freed link).value = some (actions, o')) :
    (actions = [] ∧ o'.waits.Perm o.waits)
      ∨ ∃ w d, actions = [.setTimer (.linkFree link) d,
          .transmit w.target link w.message d w.latency] ∧ (w :: o'.waits).Perm o.waits := by
  cases hq : (o.queue link).waiting with
  | nil =>
    simp only [freed, hq, Recorded.value_pure, Option.some.injEq, Prod.mk.injEq] at h
    obtain ⟨rfl, rfl⟩ := h
    have hw := o.waits_setQueue link {}
    rw [hq] at hw
    exact Or.inl ⟨rfl, hw⟩
  | cons w rest =>
    obtain ⟨ht, rfl⟩ := freed_waiting hq h
    obtain ⟨d, _, rfl⟩ := transmit_actions ht
    have hw := o.waits_setQueue link { busy := true, waiting := rest }
    rw [hq] at hw
    refine Or.inr ⟨w, d, rfl, (List.perm_append_left_iff rest).mp ?_⟩
    exact List.perm_middle.trans hw

end Outbound

/-! ## Devices -/

/--
An action that can be carried out: its link leads to a device, its instance runs on this device, its
actuator is attached here, and its event brings no message.
-/
def Action.Proper (net : Network) (m : Machine) : Action → Prop
  | transmit target _ _ _ _ => net.topology.contains target = true
  | execute target _ => target.device = m.id
  | deliverToActuator actuator _ => ∃ a ∈ m.actuators, a.id = actuator
  | deliver _ event | enqueueInternal event => event.arriving? = none
  | setTimer _ _ | recordDrop _ _ | recordCloudTraffic _ => True

theorem Action.IsCommand.proper {net : Network} {m : Machine} {a : Action} (h : a.IsCommand) :
    a.Proper net m := by
  cases a <;> first | exact h | exact h.elim

theorem Orchestrator.tick_commands {net : Network} {root : DeviceId} {o o' : Orchestrator}
    {actions : List Action} (h : (o.tick net root).value = some (actions, o')) :
    ∀ a ∈ actions, a.IsCommand := by
  intro a ha
  rcases tick_actions h ha with rfl | ⟨_, _, rfl, he, _⟩
  · trivial
  · exact Event.arriving?_of_isInternal he

namespace Machine

variable {net : Network} {m m' : Machine} {message : Message} {actions : List Action}

/-- The messages that wait for links of a device. -/
def waiting (m : Machine) : List MessageId := m.outbound.waits.map fun w => w.message.id

/-- The instances of a device are its own, and what waits for its links is for devices. -/
structure Sound (net : Network) (m : Machine) : Prop where
  instances : m.deployment.device = m.id
  targets : ∀ w ∈ m.outbound.waits, net.topology.contains w.target = true

/-- Each message that waits here, or arrives, goes on waiting, or the actions take it on, once. -/
structure Relays (net : Network) (m m' : Machine) (arriving : Option MessageId)
    (actions : List Action) : Prop where
  flow : (onward actions ++ m'.waiting).Perm (arriving.toList ++ m.waiting)
  proper : ∀ a ∈ actions, a.Proper net m'
  sound : m'.Sound net
  actuators : m'.actuators = m.actuators

theorem Relays.prepend {arriving : Option MessageId} (h : m.Relays net m' arriving actions)
    {commands : List Action} (hc : ∀ a ∈ commands, a.IsCommand) :
    m.Relays net m' arriving (commands ++ actions) where
  flow := by
    rw [onward_append hc]
    exact h.flow
  proper := List.forall_mem_append.mpr ⟨fun a ha => (hc a ha).proper, h.proper⟩
  sound := h.sound
  actuators := h.actuators

/-- What has nothing to do with messages leaves them where they are. -/
theorem relays_commands (hs : m.Sound net) (hc : ∀ a ∈ actions, a.IsCommand)
    (hdevice : m'.device = m.device) (hinstances : m'.deployment.device = m.deployment.device)
    (houtbound : m'.outbound = m.outbound) (hactuators : m'.actuators = m.actuators) :
    m.Relays net m' none actions where
  flow := by
    rw [onward_commands hc, waiting, waiting, houtbound]
    exact List.Perm.refl _
  proper a ha := (hc a ha).proper
  sound :=
    { instances := by
        rw [hinstances, id, hdevice]
        exact hs.instances
      targets := by
        rw [houtbound]
        exact hs.targets }
  actuators := hactuators

/-- A message that one action takes on leaves the others in line. -/
theorem relays_self (hs : m.Sound net) {id : MessageId} (ho : onward actions = [id])
    (hp : ∀ a ∈ actions, a.Proper net m) : m.Relays net m (some id) actions where
  flow := by
    rw [ho]
    exact List.Perm.refl _
  proper := hp
  sound := hs
  actuators := rfl

theorem relays_drop (hs : m.Sound net) (message : Message) (reason : DropReason) :
    m.Relays net m (some message.id) [.recordDrop message.id reason] :=
  relays_self hs rfl (by simp [Action.Proper])

theorem relays_execute (hs : m.Sound net) (h : (m.execute message).value = some actions) :
    m.Relays net m (some message.id) actions := by
  unfold execute at h
  simp only at h
  split at h
  · next reason _ =>
    rw [drop_value, Option.some.injEq] at h
    exact h ▸ relays_drop hs message reason
  · next target hselect =>
    rw [Recorded.value_pure, Option.some.injEq] at h
    subst h
    refine relays_self hs rfl fun a ha => ?_
    rw [List.mem_singleton.mp ha]
    -- A selected instance was launched here, and so it has the number of this device.
    obtain ⟨_, _, rfl⟩ := List.mem_map.mp (Deployment.select_mem hselect)
    exact hs.instances

theorem relays_forward (hf : net.topology.toLayout.Forest) (hs : m.Sound net) {d : DeviceId}
    {o : Outbound} (h : (m.forward net message d).value = some (actions, o)) :
    m.Relays net { m with outbound := o } (some message.id) actions := by
  -- Both reasons to drop the message leave the links as they are.
  have hdrop {reason : DropReason} (h : (do
      let actions ← drop message reason
      return (actions, m.outbound) : Recorded (List Action × Outbound)).value = some (actions, o)) :
      m.Relays net { m with outbound := o } (some message.id) actions := by
    simp only [Recorded.value_bind, drop_value, Option.bind_some, Recorded.value_pure,
      Option.some.injEq, Prod.mk.injEq] at h
    obtain ⟨rfl, rfl⟩ := h
    exact relays_drop hs message reason
  unfold forward at h
  split at h
  · exact hdrop h
  · next next _ =>
    split at h
    · exact hdrop h
    · next link hlink =>
      obtain ⟨_, e, _, he⟩ := hf.link?_goal hlink
      have htarget : net.topology.contains next = true := by
        rw [Layout.contains, he]
        rfl
      rcases Outbound.send_cases h with ⟨rfl, hwaits⟩ | ⟨_, rfl, hwaits⟩
      · exact {
          flow := hwaits.map _
          proper := by simp
          sound :=
            { instances := hs.instances
              targets := fun w hw => by
                rcases List.mem_cons.mp (hwaits.mem_iff.mp hw) with rfl | hw
                · exact htarget
                · exact hs.targets w hw }
          actuators := rfl }
      · exact {
          flow := (hwaits.map _).cons _
          proper := by simp [Action.Proper, htarget]
          sound := ⟨hs.instances, fun w hw => hs.targets w (hwaits.mem_iff.mp hw)⟩
          actuators := rfl }

theorem relays_advance (hf : net.topology.toLayout.Forest) (hs : m.Sound net) {d : DeviceId}
    (h : (m.advance net message d).value = some (actions, m')) :
    m.Relays net m' (some message.id) actions := by
  unfold advance at h
  split at h
  · simp only [Recorded.value_bind, Recorded.value_pure, Option.bind_eq_some_iff,
      Option.some.injEq, Prod.mk.injEq] at h
    obtain ⟨_, he, rfl, rfl⟩ := h
    exact relays_execute hs he
  · simp only [Recorded.value_bind, Recorded.value_pure, Option.bind_eq_some_iff,
      Option.some.injEq, Prod.mk.injEq] at h
    obtain ⟨⟨_, _⟩, ho, rfl, rfl⟩ := h
    exact relays_forward hf hs ho

theorem relays_travel (hf : net.topology.toLayout.Forest) (hs : m.Sound net)
    (h : (m.travel net message).value = some (actions, m')) :
    m.Relays net m' (some message.id) actions := by
  unfold travel at h
  split at h
  · exact relays_advance hf hs h
  · split at h
    · simp only [Recorded.value_bind, drop_value, Option.bind_some, Recorded.value_pure,
        Option.some.injEq, Prod.mk.injEq] at h
      obtain ⟨rfl, rfl⟩ := h
      exact relays_drop hs message .unresolvable
    · next d turns _ =>
      have hturned : ({ m with turns } : Machine).Sound net := ⟨hs.instances, hs.targets⟩
      have hr := relays_advance hf hturned h
      exact ⟨hr.flow, hr.proper, hr.sound, hr.actuators⟩

theorem countTraffic_commands (h : (m.countTraffic message).value = some actions) :
    ∀ a ∈ actions, a.IsCommand := by
  unfold countTraffic at h
  split at h
  · simp only [Recorded.value_bind, Recorded.value_record, Option.bind_some, Recorded.value_pure,
      Option.some.injEq] at h
    simp [← h, Action.IsCommand]
  · simp only [Recorded.value_pure, Option.some.injEq] at h
    simp [← h]

theorem relays_actuate (hs : m.Sound net) (h : (m.actuate message).value = some actions) :
    m.Relays net m (some message.id) actions := by
  unfold actuate at h
  split at h
  · rw [drop_value, Option.some.injEq] at h
    exact h ▸ relays_drop hs message .noActuator
  · next htargets =>
    rw [Recorded.value_pure, Option.some.injEq] at h
    subst h
    refine relays_self hs (onward_deliver message htargets) fun a ha => ?_
    obtain ⟨x, hx, rfl⟩ := List.mem_map.mp ha
    exact ⟨x, List.mem_of_mem_filter hx, rfl⟩

/-- What a device does about a message that arrives. -/
theorem relays_receive (hf : net.topology.toLayout.Forest) (hs : m.Sound net)
    (h : (m.receive net message).value = some (actions, m')) :
    m.Relays net m' (some message.id) actions := by
  unfold receive at h
  split at h
  · simp only [Recorded.value_bind, Recorded.value_pure, Option.bind_eq_some_iff,
      Option.some.injEq, Prod.mk.injEq] at h
    obtain ⟨_, ha, rfl, rfl⟩ := h
    exact relays_actuate hs ha
  · simp only [Recorded.value_bind, Recorded.value_pure, Option.bind_eq_some_iff,
      Option.some.injEq, Prod.mk.injEq] at h
    obtain ⟨_, hc, ⟨_, _⟩, ht, rfl, rfl⟩ := h
    exact (relays_travel hf hs ht).prepend (countTraffic_commands hc)

theorem relays_freed (hs : m.Sound net) {link : LinkKind} {o : Outbound}
    (h : (m.outbound.freed link).value = some (actions, o)) :
    m.Relays net { m with outbound := o } none actions := by
  rcases Outbound.freed_cases h with ⟨rfl, hwaits⟩ | ⟨w, _, rfl, hwaits⟩
  · exact {
      flow := hwaits.map _
      proper := by simp
      sound := ⟨hs.instances, fun w hw => hs.targets w (hwaits.mem_iff.mp hw)⟩
      actuators := rfl }
  · exact {
      flow := hwaits.map fun x : Waiting => x.message.id
      proper := by
        simp [Action.Proper, hs.targets w (hwaits.mem_iff.mp List.mem_cons_self)]
      sound := ⟨hs.instances, fun w' hw =>
        hs.targets w' (hwaits.mem_iff.mp (List.mem_cons_of_mem w hw))⟩
      actuators := rfl }

/-- What a device does about the messages that are here, or arrive, when an event happens to it. -/
theorem relays_handle (hf : net.topology.toLayout.Forest) (hs : m.Sound net) {e : Event}
    (h : (m.handle net e).value = some (actions, m')) :
    m.Relays net m' e.arriving? actions := by
  cases e with
  | placementTimer =>
    simp only [handle, cycle] at h
    split at h
    · simp only [Recorded.value_pure, Option.some.injEq, Prod.mk.injEq] at h
      obtain ⟨rfl, rfl⟩ := h
      exact relays_commands hs (by simp) rfl rfl rfl rfl
    · simp only [Recorded.value_bind, Recorded.value_pure, Option.bind_eq_some_iff,
        Option.some.injEq, Prod.mk.injEq] at h
      obtain ⟨⟨_, _⟩, ht, rfl, rfl⟩ := h
      exact relays_commands hs (Orchestrator.tick_commands ht) rfl rfl rfl rfl
  | linkFreed link =>
    simp only [handle, Recorded.value_bind, Recorded.value_pure, Option.bind_eq_some_iff,
      Option.some.injEq, Prod.mk.injEq] at h
    obtain ⟨⟨_, _⟩, ho, rfl, rfl⟩ := h
    exact relays_freed hs ho
  | messageArrived message => exact relays_receive hf hs h
  | placementRequestSubmitted _ | activateApplication _ | applicationReady _ =>
    simp only [handle, Recorded.value_pure, Option.some.injEq, Prod.mk.injEq] at h
    obtain ⟨rfl, rfl⟩ := h
    exact relays_commands hs (by simp) rfl rfl rfl rfl
  | serviceDiscoveryUpdate _ _ =>
    simp only [handle, learn, Recorded.value_bind, Recorded.value_pure, Option.bind_eq_some_iff,
      Option.some.injEq, Prod.mk.injEq] at h
    obtain ⟨_, ⟨_, _, rfl⟩, rfl, rfl⟩ := h
    exact relays_commands hs (by simp) rfl rfl rfl rfl
  | launchMicroservice _ _ =>
    simp only [handle, launch, Recorded.value_bind, Recorded.value_pure, Option.bind_eq_some_iff,
      Option.some.injEq, Prod.mk.injEq] at h
    obtain ⟨_, hl, rfl, rfl⟩ := h
    split at hl
    · simp only [Recorded.value_bind, Recorded.value_pure, Option.bind_eq_some_iff,
        Option.some.injEq] at hl
      obtain ⟨_, _, rfl⟩ := hl
      exact relays_commands hs (by simp) rfl (by simp) rfl rfl
    · simp only [Recorded.value_pure, Option.some.injEq] at hl
      subst hl
      exact relays_commands hs (by simp) rfl rfl rfl rfl

theorem start_commands : ∀ a ∈ m.start, a.IsCommand := by
  intro a ha
  rcases start_actions ha with rfl | ⟨e, he, rfl⟩
  · trivial
  · exact Event.arriving?_of_isInternal he

end Machine

end FogNet
