import FogNet.Machine.Basic

/-!
# Dispatch

What a device does with a message that arrives. A message to actuators goes to those attached here.
Any other message gets a destination device if it has none: going up, the host whose turn it is;
going down, the device where its path went before. At its destination it is processed by an
instance, elsewhere it goes on over the link towards the destination.

## Main statements

* `resolve_some_cases` — where the destination of a message comes from
* `receive_deployment`, `receive_orchestrator` — a message changes neither what runs here nor what
  is pending
-/

namespace FogNet

namespace Machine

/-- Drops a message. -/
def drop (message : Message) (reason : DropReason) : Recorded (List Action) := do
  Recorded.record (.messageDropped reason.name)
  return [.recordDrop message.id reason]

/-- Hands a message to every actuator here that takes it. -/
def actuate (m : Machine) (message : Message) : Recorded (List Action) :=
  match m.actuators.filter fun a => a.takes message with
  | [] => drop message .noActuator
  | targets => pure (targets.map fun a => .deliverToActuator a.id message)

/-- The device that a message is for, with the turns after it was found. -/
def resolve (m : Machine) (message : Message) : Option (DeviceId × Turns) :=
  match message.direction with
  | .up => m.turns.choose m.directory message.destination
  | .down => (message.deviceFor message.destination).map fun d => (d, m.turns)
  | .actuator => none

/-- Lets an instance here process a message, which is noted in the message. -/
def execute (m : Machine) (message : Message) : Recorded (List Action) :=
  let microservice := message.destination
  match m.deployment.select message.app microservice (message.pin? microservice) with
  | .error reason => drop message reason
  | .ok target =>
    pure [.execute target
      ((message.setPin microservice target).recordTraversal m.id microservice)]

/-- Sends a message on towards another device. -/
def forward (net : Network) (m : Machine) (message : Message) (destination : DeviceId) :
    Recorded (List Action × Outbound) :=
  match net.topology.nextHop m.id destination with
  | .error _ => do return (← drop message .missingRoute, m.outbound)
  | .ok next =>
    match net.topology.link? m.id next with
    | none => do return (← drop message .notAdjacent, m.outbound)
    | some link => m.outbound.send link.kind { target := next, latency := link.latency, message }

/-- Processes a message here, if this is its destination, or sends it on. -/
def advance (net : Network) (m : Machine) (message : Message) (destination : DeviceId) :
    Recorded (List Action × Machine) :=
  if destination = m.id then do return (← m.execute message, m)
  else do
    let (actions, outbound) ← m.forward net message destination
    return (actions, { m with outbound })

/-- Takes a message to its destination device, which is found out first if need be. -/
def travel (net : Network) (m : Machine) (message : Message) : Recorded (List Action × Machine) :=
  match message.destinationDevice with
  | some destination => m.advance net message destination
  | none =>
    match m.resolve message with
    | none => do return (← drop message .unresolvable, m)
    | some (destination, turns) =>
      { m with turns }.advance net
        { message with destinationDevice := some destination, sourceDevice := some m.id }
        destination

/-- A message that reaches the cloud counts as cloud traffic. -/
def countTraffic (m : Machine) (message : Message) : Recorded (List Action) :=
  if m.role = .cloud then do
    Recorded.record .cloudTraffic
    return [.recordCloudTraffic message.id]
  else pure []

/-- Handles a message that arrives. -/
def receive (net : Network) (m : Machine) (message : Message) :
    Recorded (List Action × Machine) :=
  if message.direction = .actuator then do return (← m.actuate message, m)
  else do
    let counted ← m.countTraffic message
    let (actions, m) ← m.travel net message
    return (counted ++ actions, m)

/-! ## Laws -/

@[simp] theorem drop_value (message : Message) (reason : DropReason) :
    (drop message reason).value = some [.recordDrop message.id reason] := rfl

/-- The destination of a message going up is a host, that of one going down is where it was. -/
theorem resolve_some_cases {m : Machine} {message : Message} {d : DeviceId} {turns : Turns}
    (h : m.resolve message = some (d, turns)) :
    (message.direction = .up ∧ d ∈ m.directory.hosts message.destination)
      ∨ (message.direction = .down ∧ message.deviceFor message.destination = some d
          ∧ turns = m.turns) := by
  unfold resolve at h
  cases hd : message.direction with
  | up =>
    simp only [hd] at h
    exact Or.inl ⟨rfl, Turns.choose_mem h⟩
  | down =>
    simp only [hd, Option.map_eq_some_iff, Prod.mk.injEq] at h
    obtain ⟨x, hx, rfl, ht⟩ := h
    exact Or.inr ⟨rfl, hx, ht.symm⟩
  | actuator => simp [hd] at h

/-- What goes on in a machine on the way of a message: turns and outbound links. -/
def SameNode (m m' : Machine) : Prop :=
  m'.device = m.device ∧ m'.directory = m.directory ∧ m'.actuators = m.actuators
    ∧ m'.deployment = m.deployment ∧ m'.orchestrator = m.orchestrator ∧ m'.now = m.now

theorem advance_sameNode {net : Network} {m m' : Machine} {message : Message} {d : DeviceId}
    {actions : List Action} (h : (m.advance net message d).value = some (actions, m')) :
    m.SameNode m' := by
  unfold advance at h
  split at h
  all_goals
    simp only [Recorded.value_bind, Recorded.value_pure, Option.bind_eq_some_iff,
      Option.some.injEq, Prod.mk.injEq] at h
    obtain ⟨_, _, _, rfl⟩ := h
    exact ⟨rfl, rfl, rfl, rfl, rfl, rfl⟩

theorem travel_sameNode {net : Network} {m m' : Machine} {message : Message}
    {actions : List Action} (h : (m.travel net message).value = some (actions, m')) :
    m.SameNode m' := by
  unfold travel at h
  split at h
  · exact advance_sameNode h
  · split at h
    · simp only [Recorded.value_bind, Recorded.value_pure, Option.bind_eq_some_iff,
        Option.some.injEq, Prod.mk.injEq] at h
      obtain ⟨_, _, _, rfl⟩ := h
      exact ⟨rfl, rfl, rfl, rfl, rfl, rfl⟩
    · have hsame := advance_sameNode h
      exact hsame

theorem receive_sameNode {net : Network} {m m' : Machine} {message : Message}
    {actions : List Action} (h : (m.receive net message).value = some (actions, m')) :
    m.SameNode m' := by
  unfold receive at h
  split at h
  · simp only [Recorded.value_bind, Recorded.value_pure, Option.bind_eq_some_iff,
      Option.some.injEq, Prod.mk.injEq] at h
    obtain ⟨_, _, _, rfl⟩ := h
    exact ⟨rfl, rfl, rfl, rfl, rfl, rfl⟩
  · simp only [Recorded.value_bind, Recorded.value_pure, Option.bind_eq_some_iff,
      Option.some.injEq, Prod.mk.injEq] at h
    obtain ⟨_, _, ⟨_, _⟩, ht, _, rfl⟩ := h
    exact travel_sameNode ht

/-- A message does not change what runs here. -/
theorem receive_deployment {net : Network} {m m' : Machine} {message : Message}
    {actions : List Action} (h : (m.receive net message).value = some (actions, m')) :
    m'.deployment = m.deployment :=
  (receive_sameNode h).2.2.2.1

/-- A message does not change what is pending here. -/
theorem receive_orchestrator {net : Network} {m m' : Machine} {message : Message}
    {actions : List Action} (h : (m.receive net message).value = some (actions, m')) :
    m'.orchestrator = m.orchestrator :=
  (receive_sameNode h).2.2.2.2.1

end Machine

end FogNet
