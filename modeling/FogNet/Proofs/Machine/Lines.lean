import FogNet.Proofs.Machine.Effects

/-!
# Lines

A device asks its links to carry messages, and it tells them when they are free again, also when
they are idle. Whatever it asks and in whatever order: a message that is sent over a link goes out
at once, or it joins the line of this link, and the line moves up by one message at a time. So what
has gone out over a link, followed by its line, is what was sent over it.

## Main statements

* `call_value` — all that a call does
* `next?_append_after` — what goes out and who waits afterwards, in terms of who waited before
* `perform_line` — what any calls do to one line
* `sent_in_order` — every message goes out once, in turn, and over its own link
-/

namespace FogNet

/-- What an action puts on a link. -/
def Action.carriedOn? (link : LinkKind) : Action → Option Waiting
  | .transmit target other message _ latency =>
    if other = link then some ⟨target, latency, message⟩ else none
  | _ => none

namespace Outbound

/-! ## Calls -/

/-- What a device asks of its links. -/
inductive Call where
  | send (link : LinkKind) (w : Waiting)
  | freed (link : LinkKind)

namespace Call

def link : Call → LinkKind
  | send link _ => link
  | freed link => link

/-- What a call sends over a link. -/
def sentOn (link : LinkKind) : Call → List Waiting
  | send other w => if other = link then [w] else []
  | freed _ => []

end Call

def call (o : Outbound) : Call → Recorded (List Action × Outbound)
  | .send link w => o.send link w
  | .freed link => o.freed link

/-- Calls one after the other, with all that they put on links. -/
def perform (o : Outbound) : List Call → Recorded (List Action × Outbound)
  | [] => pure ([], o)
  | c :: calls => do
    let (actions, o) ← o.call c
    let (more, o) ← o.perform calls
    return (actions ++ more, o)

/-- The messages that went out over a link, in order. -/
def carriedOn (link : LinkKind) (actions : List Action) : List Waiting :=
  actions.filterMap (Action.carriedOn? link)

/-- The messages that calls send over a link, in order. -/
def sentOn (link : LinkKind) (calls : List Call) : List Waiting :=
  calls.flatMap (Call.sentOn link)

/-- Who waits for a link finds it busy. -/
def WaitsOnBusy (o : Outbound) (link : LinkKind) : Prop :=
  (o.queue link).waiting ≠ [] → (o.queue link).busy = true

variable {o o' : Outbound} {c : Call} {link : LinkKind} {calls : List Call} {actions : List Action}

/-! ## What a call does -/

/-- The message that a call puts on its link, if there is one. -/
def next? (o : Outbound) : Call → Option Waiting
  | .send link w => if (o.queue link).busy then none else some w
  | .freed link => (o.queue link).waiting.head?

/-- The link of a call, after the call. -/
def after (o : Outbound) : Call → LinkQueue
  | .send link w =>
    let q := o.queue link
    if q.busy then { q with waiting := q.waiting ++ [w] } else { q with busy := true }
  | .freed link =>
    let q := o.queue link
    { busy := !q.waiting.isEmpty, waiting := q.waiting.tail }

theorem transmit_value_eq (o : Outbound) (link : LinkKind) (w : Waiting) :
    (o.transmit link w).value = (o.transmissionTime link w.message).map (w.departing link) := by
  unfold transmit
  rw [Recorded.value_bind]
  cases o.transmissionTime link w.message <;> rfl

/-- All that a call does. -/
theorem call_value (o : Outbound) (c : Call) : (o.call c).value =
    match o.next? c with
    | none => some ([], o.setQueue c.link (o.after c))
    | some w => (o.transmissionTime c.link w.message).map fun d =>
        (w.departing c.link d, o.setQueue c.link (o.after c)) := by
  have hput (w : Waiting) (link : LinkKind) (q : LinkQueue) :
      (do let actions ← o.transmit link w; return (actions, o.setQueue link q) :
        Recorded (List Action × Outbound)).value =
          (o.transmissionTime link w.message).map fun d =>
            (w.departing link d, o.setQueue link q) := by
    rw [Recorded.value_bind, transmit_value_eq]
    cases o.transmissionTime link w.message <;> rfl
  cases c with
  | send link w =>
    cases hq : (o.queue link).busy with
    | true => simp [call, send, next?, after, hq, Call.link]
    | false => simpa [call, send, next?, after, hq, Call.link] using hput w link _
  | freed link =>
    cases hq : (o.queue link).waiting with
    | nil => simp [call, freed, next?, after, hq, Call.link]
    | cons w rest => simpa [call, freed, next?, after, hq, Call.link] using hput w link _

/-- A call fails only for a message whose transmission has no duration in range. -/
theorem call_value_eq_none_iff : (o.call c).value = none ↔
    ∃ w, o.next? c = some w ∧ o.transmissionTime c.link w.message = none := by
  rw [call_value]
  cases o.next? c <;> simp

/-- What a call puts on its link, and what becomes of this link. -/
theorem call_cases (h : (o.call c).value = some (actions, o')) :
    o' = o.setQueue c.link (o.after c) ∧ ((o.next? c = none ∧ actions = []) ∨
      ∃ w d, o.next? c = some w ∧ o.transmissionTime c.link w.message = some d ∧
        actions = w.departing c.link d) := by
  rw [call_value] at h
  cases hnext : o.next? c with
  | none =>
    rw [hnext] at h
    simp only [Option.some.injEq, Prod.mk.injEq] at h
    exact ⟨h.2.symm, .inl ⟨rfl, h.1.symm⟩⟩
  | some w =>
    rw [hnext] at h
    obtain ⟨d, hd, h⟩ := Option.map_eq_some_iff.mp h
    simp only [Prod.mk.injEq] at h
    exact ⟨h.2.symm, .inr ⟨w, d, rfl, hd, h.1.symm⟩⟩

theorem call_bandwidth (h : (o.call c).value = some (actions, o')) :
    o'.bandwidth = o.bandwidth := by
  rw [(call_cases h).1]
  rfl

/-- What a call puts on a link is the next message of its own link. -/
theorem carriedOn_call (h : (o.call c).value = some (actions, o')) (link : LinkKind) :
    carriedOn link actions = if c.link = link then (o.next? c).toList else [] := by
  rcases (call_cases h).2 with ⟨hnext, rfl⟩ | ⟨w, d, hnext, _, rfl⟩
  · simp [carriedOn, hnext]
  · by_cases hlink : c.link = link <;>
      simp [carriedOn, Waiting.departing, List.filterMap_cons, Action.carriedOn?, hnext, hlink]

/-! ## Lines -/

/-- What goes out at a call, and who waits afterwards, are who waited before and what is sent. -/
theorem next?_append_after (h : o.WaitsOnBusy c.link) :
    (o.next? c).toList ++ (o.after c).waiting =
      (o.queue c.link).waiting ++ c.sentOn c.link := by
  cases c with
  | send link w =>
    cases hq : (o.queue link).busy with
    | true => simp [next?, after, hq, Call.link, Call.sentOn]
    | false =>
      -- No one waits for an idle link.
      have hnone : (o.queue link).waiting = [] :=
        Decidable.byContradiction fun hne => Bool.false_ne_true (hq.symm.trans (h hne))
      simp [next?, after, hq, Call.link, Call.sentOn, hnone]
  | freed link =>
    cases hq : (o.queue link).waiting <;> simp [next?, after, hq, Call.link, Call.sentOn]

theorem after_busy (h : o.WaitsOnBusy c.link) (hne : (o.after c).waiting ≠ []) :
    (o.after c).busy = true := by
  cases c with
  | send link w =>
    cases hq : (o.queue link).busy <;> simp [after, hq]
  | freed link =>
    cases hq : (o.queue link).waiting with
    | nil => simp [after, hq] at hne
    | cons w rest => simp [after, hq]

theorem sentOn_of_ne (h : c.link ≠ link) : c.sentOn link = [] := by
  cases c with
  | send other w => exact if_neg h
  | freed other => rfl

/-- What one call does to one line. -/
theorem call_line (hb : o.WaitsOnBusy link) (h : (o.call c).value = some (actions, o')) :
    carriedOn link actions ++ (o'.queue link).waiting =
        (o.queue link).waiting ++ c.sentOn link ∧ o'.WaitsOnBusy link := by
  obtain ⟨rfl, _⟩ := call_cases h
  rw [carriedOn_call h, WaitsOnBusy]
  split
  · next hlink =>
    subst hlink
    rw [queue_setQueue_self]
    exact ⟨next?_append_after hb, after_busy hb⟩
  · next hlink =>
    rw [queue_setQueue_ne _ _ (Ne.symm hlink), sentOn_of_ne hlink, List.nil_append,
      List.append_nil]
    exact ⟨rfl, hb⟩

/-- What any calls do to one line. -/
theorem perform_line (hb : o.WaitsOnBusy link)
    (h : (o.perform calls).value = some (actions, o')) :
    carriedOn link actions ++ (o'.queue link).waiting =
        (o.queue link).waiting ++ sentOn link calls ∧ o'.WaitsOnBusy link := by
  induction calls generalizing o actions with
  | nil =>
    simp only [perform, Recorded.value_pure, Option.some.injEq, Prod.mk.injEq] at h
    obtain ⟨rfl, rfl⟩ := h
    exact ⟨(List.append_nil _).symm, hb⟩
  | cons c calls ih =>
    simp only [perform, Recorded.value_bind, Recorded.value_pure, Option.bind_eq_some_iff,
      Option.some.injEq, Prod.mk.injEq] at h
    obtain ⟨⟨first, o₁⟩, hcall, ⟨more, o₂⟩, hmore, rfl, rfl⟩ := h
    obtain ⟨hfirst, hb₁⟩ := call_line hb hcall
    obtain ⟨hrest, hb'⟩ := ih hb₁ hmore
    refine ⟨?_, hb'⟩
    calc carriedOn link (first ++ more) ++ (o₂.queue link).waiting
        = carriedOn link first ++ (carriedOn link more ++ (o₂.queue link).waiting) := by
          rw [carriedOn, List.filterMap_append, List.append_assoc, carriedOn, carriedOn]
      _ = (carriedOn link first ++ (o₁.queue link).waiting) ++ sentOn link calls := by
          rw [hrest, List.append_assoc]
      _ = (o.queue link).waiting ++ sentOn link (c :: calls) := by
          rw [hfirst, List.append_assoc, sentOn, sentOn, List.flatMap_cons]

/--
After any calls from the start, what has gone out over a link, followed by who waits for it, is what
was sent over it, in order and each with its target, its latency and its message. Who waits finds a
busy link. Any further call puts nothing on a link or just one message, on its own link; it fails
only for a message whose transmission has no duration in range. On a busy link nothing that is sent
goes out, and the other links stay as they are.
-/
theorem sent_in_order {bandwidth : PerLink Float}
    (h : (perform { bandwidth } calls).value = some (actions, o)) :
    (∀ link, carriedOn link actions ++ (o.queue link).waiting = sentOn link calls ∧
      ((o.queue link).waiting ≠ [] → (o.queue link).busy = true)) ∧
    ∀ c : Call,
      ((o.call c).value = none ↔
        ∃ w, o.next? c = some w ∧ o.transmissionTime c.link w.message = none) ∧
      ∀ more o', (o.call c).value = some (more, o') →
        (more = [] ∨ ∃ w d, o.next? c = some w ∧
          o.transmissionTime c.link w.message = some d ∧ more = w.departing c.link d) ∧
        (∀ w, c = .send c.link w → (o.queue c.link).busy = true → more = []) ∧
        o'.bandwidth = o.bandwidth ∧
        ∀ other ≠ c.link, o'.queue other = o.queue other ∧ carriedOn other more = [] := by
  refine ⟨fun link => ?_, fun c => ⟨call_value_eq_none_iff, ?_⟩⟩
  · have hstart : (queue { bandwidth } link).waiting = [] := by cases link <;> rfl
    obtain ⟨hline, hbusy⟩ := perform_line (fun hne => absurd hstart hne) h
    rw [hline, hstart, List.nil_append]
    exact ⟨rfl, hbusy⟩
  · intro more o' hcall
    obtain ⟨hqueues, hmore⟩ := call_cases hcall
    refine ⟨hmore.imp And.right id, fun w hsend hbusy => ?_, call_bandwidth hcall,
      fun other hne => ⟨?_, ?_⟩⟩
    · have hnone : o.next? c = none := by rw [hsend, next?, if_pos hbusy]
      rcases hmore with ⟨_, hnil⟩ | ⟨_, _, hnext, _⟩
      · exact hnil
      · cases hnone.symm.trans hnext
    · rw [hqueues]
      exact queue_setQueue_ne _ _ hne
    · rw [carriedOn_call hcall, if_neg (Ne.symm hne)]

/-- A message of 500 bytes. -/
def parcel (id : MessageId) : Waiting :=
  { target := 3
    latency := Duration.ofMillis 2
    message := { id, app := "a", user := 1, tupleType := "t", direction := .up, source := "s",
                 destination := "m", size := 500 } }

/-- The uplink is free before it was busy, and the other links go on meanwhile. -/
theorem sent_in_order_parcels :
    let calls : List Call := [.freed .uplink, .send .cluster (parcel 1), .send .cluster (parcel 2),
      .send .uplink (parcel 3), .freed .downlink, .send .cluster (parcel 4), .freed .cluster]
    ∃ actions o, (perform { bandwidth := .const 1000 } calls).value = some (actions, o) ∧
      (o.queue .cluster).waiting.length = 1 ∧
      carriedOn .cluster actions ++ (o.queue .cluster).waiting =
        [parcel 1, parcel 2, parcel 4] ∧
      carriedOn .uplink actions ++ (o.queue .uplink).waiting = [parcel 3] := by
  intro calls
  have hany : (perform { bandwidth := .const 1000 } calls).value.any
      (fun r => (r.2.queue .cluster).waiting.length == 1) = true := by decide +kernel
  obtain ⟨⟨actions, o⟩, hrun, hwaiting⟩ := (Option.any_eq_true ..).mp hany
  obtain ⟨hall, _⟩ := sent_in_order hrun
  exact ⟨actions, o, hrun, beq_iff_eq.mp hwaiting, (hall .cluster).1, (hall .uplink).1⟩

end Outbound

end FogNet
