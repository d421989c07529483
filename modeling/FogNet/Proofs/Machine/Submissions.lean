import FogNet.Machine.Handle
import FogNet.Simulation.Queue

/-!
# Who submits requests

Requests are submitted from outside. Nothing that a device does submits one, whatever happens to it,
and its orchestrator changes in two ways only: by a submission and by a cycle.

## Main statements

* `Machine.handle_requests` — no device submits a request
* `Machine.handle_orchestrator` — what an event does to the orchestrator of a device
-/

namespace FogNet

/-! ## Submissions -/

/-- The request that an event submits. -/
def Event.request? : Event → Option Request
  | .placementRequestSubmitted request => some request
  | _ => none

/-- The request that a task submits. -/
def Task.request? : Task → Option Request
  | .device event => event.request?
  | _ => none

/-- The request that an action submits. -/
def Action.request? : Action → Option Request
  | .deliver _ event | .enqueueInternal event => event.request?
  | _ => none

/-! ## What devices do -/

namespace Outbound

theorem transmit_requests {o : Outbound} {link : LinkKind} {w : Waiting} {actions : List Action}
    (h : (o.transmit link w).value = some actions) : ∀ a ∈ actions, a.request? = none := by
  obtain ⟨_, _, rfl⟩ := transmit_actions h
  simp [Action.request?]

theorem send_requests {o o' : Outbound} {link : LinkKind} {w : Waiting} {actions : List Action}
    (h : (o.send link w).value = some (actions, o')) : ∀ a ∈ actions, a.request? = none := by
  unfold send at h
  simp only at h
  split at h
  · simp only [Recorded.value_pure, Option.some.injEq, Prod.mk.injEq] at h
    simp [← h.1]
  · simp only [Recorded.value_bind, Option.bind_eq_some_iff, Recorded.value_pure,
      Option.some.injEq, Prod.mk.injEq] at h
    obtain ⟨_, ht, rfl, _⟩ := h
    exact transmit_requests ht

theorem freed_requests {o o' : Outbound} {link : LinkKind} {actions : List Action}
    (h : (o.freed link).value = some (actions, o')) : ∀ a ∈ actions, a.request? = none := by
  unfold freed at h
  simp only at h
  split at h
  · simp only [Recorded.value_pure, Option.some.injEq, Prod.mk.injEq] at h
    simp [← h.1]
  · simp only [Recorded.value_bind, Option.bind_eq_some_iff, Recorded.value_pure,
      Option.some.injEq, Prod.mk.injEq] at h
    obtain ⟨_, ht, rfl, _⟩ := h
    exact transmit_requests ht

end Outbound

namespace Orchestrator

variable {net : Network} {a : Action}

/-- A placement is carried out by internal events to devices, none of which submits a request. -/
theorem deploy_actions {decisions : List Decision} (h : a ∈ deploy net decisions) :
    ∃ target e, a = .deliver target e ∧ e.isInternal = true ∧ e.request? = none := by
  unfold deploy at h
  rcases List.mem_append.mp h with h | h
  · obtain ⟨d, _, h⟩ := List.mem_flatMap.mp h
    obtain ⟨_, _, rfl⟩ := List.mem_map.mp h
    exact ⟨_, _, rfl, rfl, rfl⟩
  · obtain ⟨device, _, h⟩ := List.mem_flatMap.mp h
    obtain ⟨app, _, h⟩ := List.mem_flatMap.mp h
    unfold launches at h
    split at h
    · simp at h
    · obtain ⟨e, he, rfl⟩ := List.mem_map.mp h
      refine ⟨device, e, rfl, ?_⟩
      rcases List.mem_append.mp he with he | he
      · simp only [List.mem_cons, List.not_mem_nil, or_false] at he
        rcases he with rfl | rfl <;> exact ⟨rfl, rfl⟩
      · obtain ⟨_, _, rfl⟩ := List.mem_map.mp he
        exact ⟨rfl, rfl⟩

/-- A cycle carries out a placement, and sets the timer for the next cycle. -/
theorem tick_actions {root : DeviceId} {o o' : Orchestrator} {actions : List Action}
    (h : (o.tick net root).value = some (actions, o')) (ha : a ∈ actions) :
    a = nextCycle net
      ∨ ∃ target e, a = .deliver target e ∧ e.isInternal = true ∧ e.request? = none := by
  unfold tick at h
  split at h
  · simp only [Recorded.value_pure, Option.some.injEq, Prod.mk.injEq] at h
    rw [← h.1] at ha
    exact Or.inl (List.mem_singleton.mp ha)
  · rw [Recorded.value_bind, place_value] at h
    simp only [Option.bind_some, Recorded.value_pure, Option.some.injEq, Prod.mk.injEq] at h
    rw [← h.1] at ha
    rcases List.mem_append.mp ha with ha | ha
    · exact Or.inr (deploy_actions ha)
    · exact Or.inl (List.mem_singleton.mp ha)

theorem tick_requests {root : DeviceId} {o o' : Orchestrator} {actions : List Action}
    (h : (o.tick net root).value = some (actions, o')) : ∀ a ∈ actions, a.request? = none := by
  intro a ha
  rcases tick_actions h ha with rfl | ⟨_, _, rfl, _, he⟩
  · rfl
  · exact he

end Orchestrator

namespace Machine

variable {net : Network} {m m' : Machine} {message : Message} {actions : List Action}

theorem execute_requests (h : (m.execute message).value = some actions) :
    ∀ a ∈ actions, a.request? = none := by
  unfold execute at h
  simp only at h
  split at h
  all_goals
    simp only [drop_value, Recorded.value_pure, Option.some.injEq] at h
    simp [← h, Action.request?]

theorem forward_requests {d : DeviceId} {o : Outbound}
    (h : (m.forward net message d).value = some (actions, o)) :
    ∀ a ∈ actions, a.request? = none := by
  unfold forward at h
  split at h
  · simp only [Recorded.value_bind, drop_value, Option.bind_some, Recorded.value_pure,
      Option.some.injEq, Prod.mk.injEq] at h
    simp [← h.1, Action.request?]
  · split at h
    · simp only [Recorded.value_bind, drop_value, Option.bind_some, Recorded.value_pure,
        Option.some.injEq, Prod.mk.injEq] at h
      simp [← h.1, Action.request?]
    · exact Outbound.send_requests h

theorem advance_requests {d : DeviceId} (h : (m.advance net message d).value = some (actions, m')) :
    ∀ a ∈ actions, a.request? = none := by
  unfold advance at h
  split at h
  · simp only [Recorded.value_bind, Recorded.value_pure, Option.bind_eq_some_iff,
      Option.some.injEq, Prod.mk.injEq] at h
    obtain ⟨_, he, rfl, _⟩ := h
    exact execute_requests he
  · simp only [Recorded.value_bind, Recorded.value_pure, Option.bind_eq_some_iff,
      Option.some.injEq, Prod.mk.injEq] at h
    obtain ⟨⟨_, _⟩, hf, rfl, _⟩ := h
    exact forward_requests hf

theorem travel_requests (h : (m.travel net message).value = some (actions, m')) :
    ∀ a ∈ actions, a.request? = none := by
  unfold travel at h
  split at h
  · exact advance_requests h
  · split at h
    · simp only [Recorded.value_bind, drop_value, Option.bind_some, Recorded.value_pure,
        Option.some.injEq, Prod.mk.injEq] at h
      simp [← h.1, Action.request?]
    · exact advance_requests h

theorem receive_requests (h : (m.receive net message).value = some (actions, m')) :
    ∀ a ∈ actions, a.request? = none := by
  unfold receive at h
  split at h
  · simp only [Recorded.value_bind, Recorded.value_pure, Option.bind_eq_some_iff,
      Option.some.injEq, Prod.mk.injEq] at h
    obtain ⟨_, ha, rfl, _⟩ := h
    unfold actuate at ha
    split at ha
    · simp only [drop_value, Option.some.injEq] at ha
      simp [← ha, Action.request?]
    · simp only [Recorded.value_pure, Option.some.injEq] at ha
      intro a hm
      rw [← ha] at hm
      obtain ⟨_, _, rfl⟩ := List.mem_map.mp hm
      rfl
  · simp only [Recorded.value_bind, Recorded.value_pure, Option.bind_eq_some_iff,
      Option.some.injEq, Prod.mk.injEq] at h
    obtain ⟨counted, hc, ⟨_, _⟩, ht, rfl, _⟩ := h
    intro a ha
    rcases List.mem_append.mp ha with ha | ha
    · unfold countTraffic at hc
      split at hc
      · simp only [Recorded.value_bind, Recorded.value_record, Option.bind_some,
          Recorded.value_pure, Option.some.injEq] at hc
        rw [← hc] at ha
        rw [List.mem_singleton.mp ha]
        rfl
      · simp only [Recorded.value_pure, Option.some.injEq] at hc
        rw [← hc] at ha
        exact absurd ha List.not_mem_nil
    · exact travel_requests ht a ha

/-- No device submits a request. -/
theorem handle_requests {e : Event} (h : (m.handle net e).value = some (actions, m')) :
    ∀ a ∈ actions, a.request? = none := by
  cases e with
  | placementTimer =>
    simp only [handle, cycle] at h
    split at h
    · simp only [Recorded.value_pure, Option.some.injEq, Prod.mk.injEq] at h
      simp [← h.1]
    · simp only [Recorded.value_bind, Recorded.value_pure, Option.bind_eq_some_iff,
        Option.some.injEq, Prod.mk.injEq] at h
      obtain ⟨⟨_, _⟩, ht, rfl, _⟩ := h
      exact Orchestrator.tick_requests ht
  | linkFreed link =>
    simp only [handle, Recorded.value_bind, Recorded.value_pure, Option.bind_eq_some_iff,
      Option.some.injEq, Prod.mk.injEq] at h
    obtain ⟨⟨_, _⟩, hf, rfl, _⟩ := h
    exact Outbound.freed_requests hf
  | messageArrived message => exact receive_requests h
  | placementRequestSubmitted _ | activateApplication _ | applicationReady _ =>
    simp only [handle, Recorded.value_pure, Option.some.injEq, Prod.mk.injEq] at h
    simp [← h.1]
  | serviceDiscoveryUpdate _ _ | launchMicroservice _ _ =>
    simp only [handle, Recorded.value_bind, Recorded.value_pure, Option.bind_eq_some_iff,
      Option.some.injEq, Prod.mk.injEq] at h
    obtain ⟨_, _, rfl, _⟩ := h
    exact fun a ha => absurd ha List.not_mem_nil

/-- What an event does to the orchestrator of a device: a cycle, a submission or nothing. -/
theorem handle_orchestrator {e : Event} (h : (m.handle net e).value = some (actions, m')) :
    (∃ o o' actions', e = .placementTimer ∧ m.orchestrator = some o
        ∧ (o.tick net m.id).value = some (actions', o') ∧ m'.orchestrator = some o')
      ∨ (∃ r, e.request? = some r ∧ m'.orchestrator = m.orchestrator.map fun o => o.submit r)
      ∨ (e.request? = none ∧ m'.orchestrator = m.orchestrator
          ∧ (e = .placementTimer → m.orchestrator = none)) := by
  cases e with
  | placementTimer =>
    simp only [handle, cycle] at h
    split at h
    · next ho =>
      simp only [Recorded.value_pure, Option.some.injEq, Prod.mk.injEq] at h
      exact Or.inr (Or.inr ⟨rfl, by rw [← h.2], fun _ => ho⟩)
    · next o ho =>
      simp only [Recorded.value_bind, Recorded.value_pure, Option.bind_eq_some_iff,
        Option.some.injEq, Prod.mk.injEq] at h
      obtain ⟨⟨actions', o'⟩, ht, _, rfl⟩ := h
      exact Or.inl ⟨o, o', actions', rfl, ho, ht, rfl⟩
  | placementRequestSubmitted r =>
    simp only [handle, Recorded.value_pure, Option.some.injEq, Prod.mk.injEq] at h
    exact Or.inr (Or.inl ⟨r, rfl, by rw [← h.2]; rfl⟩)
  | linkFreed link =>
    simp only [handle, Recorded.value_bind, Recorded.value_pure, Option.bind_eq_some_iff,
      Option.some.injEq, Prod.mk.injEq] at h
    obtain ⟨_, _, _, rfl⟩ := h
    exact Or.inr (Or.inr ⟨rfl, rfl, by simp⟩)
  | messageArrived message => exact Or.inr (Or.inr ⟨rfl, receive_orchestrator h, by simp⟩)
  | activateApplication _ | applicationReady _ =>
    simp only [handle, Recorded.value_pure, Option.some.injEq, Prod.mk.injEq] at h
    exact Or.inr (Or.inr ⟨rfl, by rw [← h.2], by simp⟩)
  | serviceDiscoveryUpdate _ _ =>
    simp only [handle, learn, Recorded.value_bind, Recorded.value_pure, Option.bind_eq_some_iff,
      Option.some.injEq, Prod.mk.injEq] at h
    obtain ⟨_, ⟨_, _, rfl⟩, _, rfl⟩ := h
    exact Or.inr (Or.inr ⟨rfl, rfl, by simp⟩)
  | launchMicroservice _ _ =>
    simp only [handle, launch, Recorded.value_bind, Recorded.value_pure, Option.bind_eq_some_iff,
      Option.some.injEq, Prod.mk.injEq] at h
    obtain ⟨m₁, hl, _, rfl⟩ := h
    refine Or.inr (Or.inr ⟨rfl, ?_, by simp⟩)
    split at hl
    · simp only [Recorded.value_bind, Recorded.value_pure, Option.bind_eq_some_iff,
        Option.some.injEq] at hl
      obtain ⟨_, _, rfl⟩ := hl
      rfl
    · simp only [Recorded.value_pure, Option.some.injEq] at hl
      rw [← hl]

theorem start_requests {a : Action} (h : a ∈ m.start) : a.request? = none := by
  unfold start at h
  rcases List.mem_append.mp h with h | h
  · split at h
    · rw [List.mem_singleton.mp h]
      rfl
    · simp at h
  · split at h
    · obtain ⟨c, _, hc⟩ := List.mem_flatMap.mp h
      obtain ⟨e, he, rfl⟩ := List.mem_map.mp hc
      simp only [clientEvents, List.mem_cons, List.not_mem_nil, or_false] at he
      rcases he with rfl | rfl | rfl <;> rfl
    · simp at h

end Machine

end FogNet
