import FogNet.Action
import FogNet.Metric

/-!
# Outbound links

A link carries one transmission at a time; what comes in the meantime waits in line. A transmission
takes the size of its message over the bandwidth of the link, and the device is told by a timer when
it is over.

## Main statements

* `send_busy`, `freed_waiting` — who waits, and who goes next
* `transmit_actions` — a transmission is one timer and one message on the link
* `send_other`, `freed_other` — the links do not disturb one another
-/

namespace FogNet

/-- A message that waits for its link. -/
structure Waiting where
  target : DeviceId
  latency : Duration
  message : Message

/-- The state of one outbound link. -/
structure LinkQueue where
  busy : Bool := false
  /-- The messages that wait, first come first. -/
  waiting : List Waiting := []

/-- The outbound links of a device. -/
structure Outbound where
  /-- In bytes per second. -/
  bandwidth : PerLink Float
  queues : PerLink LinkQueue := PerLink.const {}

namespace Outbound

def queue (o : Outbound) (link : LinkKind) : LinkQueue := o.queues.get link

def setQueue (o : Outbound) (link : LinkKind) (q : LinkQueue) : Outbound :=
  { o with queues := o.queues.set link q }

/-- How long a link is busy with a message. -/
def transmissionTime (o : Outbound) (link : LinkKind) (message : Message) : Option Duration :=
  Duration.ofSecondsFloat? (Float.ofNat message.size / o.bandwidth.get link)

/-- What a device does to put a message on a link. -/
def transmit (o : Outbound) (link : LinkKind) (w : Waiting) : Recorded (List Action) := do
  let transmission ← Recorded.ofOption (o.transmissionTime link w.message)
  Recorded.record (.messageTransmitted link.name w.message.size)
  return [.setTimer (.linkFree link) transmission,
    .transmit w.target link w.message transmission w.latency]

/-- Sends a message over a link, or lets it wait for its turn. -/
def send (o : Outbound) (link : LinkKind) (w : Waiting) : Recorded (List Action × Outbound) :=
  let q := o.queue link
  if q.busy then pure ([], o.setQueue link { q with waiting := q.waiting ++ [w] })
  else do
    let actions ← o.transmit link w
    return (actions, o.setQueue link { q with busy := true })

/-- Goes on after a transmission: the next message in line, or an idle link. -/
def freed (o : Outbound) (link : LinkKind) : Recorded (List Action × Outbound) :=
  let q := o.queue link
  match q.waiting with
  | [] => pure ([], o.setQueue link { q with busy := false })
  | w :: rest => do
    let actions ← o.transmit link w
    return (actions, o.setQueue link { busy := true, waiting := rest })

/-! ## Laws -/

@[simp] theorem queue_setQueue_self (o : Outbound) (link : LinkKind) (q : LinkQueue) :
    (o.setQueue link q).queue link = q := PerLink.get_set_self _ _ _

theorem queue_setQueue_ne (o : Outbound) {link other : LinkKind} (q : LinkQueue)
    (h : other ≠ link) : (o.setQueue link q).queue other = o.queue other :=
  PerLink.get_set_ne _ _ h

/-- A transmission is one timer and one message on the link. -/
theorem transmit_actions {o : Outbound} {link : LinkKind} {w : Waiting} {actions : List Action}
    (h : (o.transmit link w).value = some actions) :
    ∃ d, o.transmissionTime link w.message = some d ∧
      actions = [.setTimer (.linkFree link) d, .transmit w.target link w.message d w.latency] := by
  unfold transmit at h
  simp only [Recorded.value_bind, Recorded.ofOption, Option.bind_eq_some_iff,
    Recorded.value_record] at h
  obtain ⟨d, hd, _, _, h⟩ := h
  exact ⟨d, hd, (Option.some.inj h).symm⟩

/-- On a busy link a message only joins the line. -/
theorem send_busy {o : Outbound} {link : LinkKind} (w : Waiting) (h : (o.queue link).busy = true) :
    o.send link w
      = pure ([], o.setQueue link
          { busy := true, waiting := (o.queue link).waiting ++ [w] }) := by
  simp [send, h]

/-- A freed link takes the message that waited longest. -/
theorem freed_waiting {o : Outbound} {link : LinkKind} {w : Waiting} {rest : List Waiting}
    (hw : (o.queue link).waiting = w :: rest) {actions : List Action} {o' : Outbound}
    (h : (o.freed link).value = some (actions, o')) :
    (o.transmit link w).value = some actions
      ∧ o' = o.setQueue link { busy := true, waiting := rest } := by
  simp only [freed, hw, Recorded.value_bind, Option.bind_eq_some_iff] at h
  obtain ⟨x, hx, h⟩ := h
  simp only [Recorded.value_pure, Option.some.injEq, Prod.mk.injEq] at h
  exact ⟨h.1 ▸ hx, h.2.symm⟩

theorem send_other {o o' : Outbound} {link other : LinkKind} {w : Waiting}
    {actions : List Action} (h : (o.send link w).value = some (actions, o'))
    (hne : other ≠ link) : o'.queue other = o.queue other := by
  unfold send at h
  simp only at h
  split at h
  · simp only [Recorded.value_pure, Option.some.injEq, Prod.mk.injEq] at h
    rw [← h.2, queue_setQueue_ne _ _ hne]
  · simp only [Recorded.value_bind, Option.bind_eq_some_iff, Recorded.value_pure,
      Option.some.injEq, Prod.mk.injEq] at h
    obtain ⟨_, _, _, rfl⟩ := h
    exact queue_setQueue_ne _ _ hne

theorem freed_other {o o' : Outbound} {link other : LinkKind} {actions : List Action}
    (h : (o.freed link).value = some (actions, o')) (hne : other ≠ link) :
    o'.queue other = o.queue other := by
  unfold freed at h
  simp only at h
  split at h
  · simp only [Recorded.value_pure, Option.some.injEq, Prod.mk.injEq] at h
    rw [← h.2, queue_setQueue_ne _ _ hne]
  · simp only [Recorded.value_bind, Option.bind_eq_some_iff, Recorded.value_pure,
      Option.some.injEq, Prod.mk.injEq] at h
    obtain ⟨_, _, _, rfl⟩ := h
    exact queue_setQueue_ne _ _ hne

end Outbound

end FogNet
