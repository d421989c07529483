import FogNet.Proofs.Machine.Submissions

/-!
# What devices give notice of

A device gives notice of a dropped message, of a transmission and of traffic to the cloud twice: it
measures them itself when it decides on them, and its action has them counted when it is carried
out. Network usage, executions and closed loops are not for a device to measure. So whatever event a
device handles, the notices in its measurements are those of its actions, in the same order.

## Main statements

* `Matches.append` — the notices of two steps one after the other
* `handle_matches` — a device measures what its actions give notice of, and nothing else
* `start_notices` — the actions that a device starts with give no notice
-/

namespace FogNet

/-! ## Notices and charges -/

/-- What a device both measures and has counted. -/
inductive Notice where
  | dropped (reason : String)
  | sent (bytes : Nat)
  | reachedCloud
  deriving DecidableEq

/-- What is measured where it is counted, while an action is carried out. -/
inductive Charge where
  | usage (bytes : Nat)
  | execution (tupleType : String)
  | loop (loop : LoopId)
  deriving DecidableEq

namespace Metric

/-- The notice that a measurement gives. -/
def notice? : Metric → Option Notice
  | messageDropped reason => some (.dropped reason)
  | messageTransmitted _ bytes => some (.sent bytes)
  | cloudTraffic => some .reachedCloud
  | _ => none

/-- What a measurement says that is counted at once. -/
def charge? : Metric → Option Charge
  | networkUsage _ bytes => some (.usage bytes)
  | execution tupleType _ => some (.execution tupleType)
  | loopLatency loop _ => some (.loop loop)
  | _ => none

end Metric

/-- The notice that an action gives. -/
def Action.notice? : Action → Option Notice
  | recordDrop _ reason => some (.dropped reason.name)
  | transmit _ _ message _ _ => some (.sent message.size)
  | recordCloudTraffic _ => some .reachedCloud
  | _ => none

/-- Measurements give the notices that actions give, and say nothing else that is counted. -/
structure Matches (metrics : List Metric) (actions : List Action) : Prop where
  notices : metrics.filterMap Metric.notice? = actions.filterMap Action.notice?
  charges : metrics.filterMap Metric.charge? = []

namespace Matches

variable {metrics metrics' : List Metric} {actions actions' : List Action}

/-- What gives no notice matches nothing. -/
theorem of_silent (hm : ∀ x ∈ metrics, x.notice? = none ∧ x.charge? = none)
    (ha : ∀ a ∈ actions, a.notice? = none) : Matches metrics actions := by
  constructor
  · rw [List.filterMap_eq_nil_iff.mpr fun x hx => (hm x hx).1, List.filterMap_eq_nil_iff.mpr ha]
  · exact List.filterMap_eq_nil_iff.mpr fun x hx => (hm x hx).2

theorem nil : Matches [] [] := ⟨rfl, rfl⟩

/-- The notices of two steps one after the other. -/
theorem append (h : Matches metrics actions) (h' : Matches metrics' actions') :
    Matches (metrics ++ metrics') (actions ++ actions') := by
  constructor
  · rw [List.filterMap_append, h.notices, h'.notices, List.filterMap_append]
  · rw [List.filterMap_append, h.charges, h'.charges, List.append_nil]

end Matches

/-! ## Links -/

namespace Outbound

variable {o o' : Outbound} {link : LinkKind} {w : Waiting} {actions : List Action}

theorem transmit_matches (h : (o.transmit link w).value = some actions) :
    Matches (o.transmit link w).metrics actions := by
  unfold transmit at h ⊢
  obtain ⟨transmission, _, h, hmetrics⟩ := Recorded.bind_some_cases h
  rw [hmetrics]
  obtain ⟨_, _, h, hmetrics⟩ := Recorded.bind_some_cases h
  rw [hmetrics, ← Option.some.inj h]
  exact ⟨rfl, rfl⟩

theorem send_matches (h : (o.send link w).value = some (actions, o')) :
    Matches (o.send link w).metrics actions := by
  unfold send at h ⊢
  simp only at h ⊢
  split at h
  · next hbusy =>
    rw [if_pos hbusy, ← (Prod.mk.inj (Option.some.inj h)).1]
    exact .nil
  · next hidle =>
    rw [if_neg hidle]
    obtain ⟨_, hsent, he, hmetrics⟩ := Recorded.bind_pure_cases h
    cases he
    rw [hmetrics]
    exact transmit_matches hsent

theorem freed_matches (h : (o.freed link).value = some (actions, o')) :
    Matches (o.freed link).metrics actions := by
  unfold freed at h ⊢
  simp only at h ⊢
  split at h
  · next hempty =>
    rw [← (Prod.mk.inj (Option.some.inj h)).1]
    exact .nil
  · next w rest hw =>
    obtain ⟨_, hsent, he, hmetrics⟩ := Recorded.bind_pure_cases h
    cases he
    rw [hmetrics]
    exact transmit_matches hsent

end Outbound

/-! ## Messages -/

namespace Machine

variable {net : Network} {m m' : Machine} {message : Message} {actions : List Action}

theorem drop_matches (message : Message) (reason : DropReason) :
    Matches (drop message reason).metrics [.recordDrop message.id reason] := ⟨rfl, rfl⟩

/-- A drop is all that happens to a message where there is no way on. -/
theorem drop_bind_matches {β : Type} {reason : DropReason} {b b' : β}
    (h : (do return (← drop message reason, b)).value = some (actions, b')) :
    Matches (do return (← drop message reason, b) : Recorded (List Action × β)).metrics
      actions := by
  obtain ⟨_, hdropped, he, hmetrics⟩ := Recorded.bind_pure_cases h
  cases he
  rw [hmetrics, ← Option.some.inj hdropped]
  exact drop_matches message reason

theorem actuate_matches (h : (m.actuate message).value = some actions) :
    Matches (m.actuate message).metrics actions := by
  unfold actuate at h ⊢
  split at h
  · rw [← Option.some.inj h]
    exact drop_matches message .noActuator
  · rw [← Option.some.inj h]
    refine .of_silent (fun _ hx => absurd hx List.not_mem_nil) ?_
    intro a ha
    obtain ⟨_, _, rfl⟩ := List.mem_map.mp ha
    rfl

theorem execute_matches (h : (m.execute message).value = some actions) :
    Matches (m.execute message).metrics actions := by
  unfold execute at h ⊢
  simp only at h ⊢
  split at h
  · next reason _ =>
    rw [← Option.some.inj h]
    exact drop_matches message reason
  · rw [← Option.some.inj h]
    exact ⟨rfl, rfl⟩

theorem forward_matches {d : DeviceId} {o : Outbound}
    (h : (m.forward net message d).value = some (actions, o)) :
    Matches (m.forward net message d).metrics actions := by
  unfold forward at h ⊢
  split at h
  · exact drop_bind_matches h
  · split at h
    · exact drop_bind_matches h
    · exact Outbound.send_matches h

theorem advance_matches {d : DeviceId}
    (h : (m.advance net message d).value = some (actions, m')) :
    Matches (m.advance net message d).metrics actions := by
  unfold advance at h ⊢
  split at h
  · next hhere =>
    rw [if_pos hhere]
    obtain ⟨_, hexecuted, he, hmetrics⟩ := Recorded.bind_pure_cases h
    cases he
    rw [hmetrics]
    exact execute_matches hexecuted
  · next hthere =>
    rw [if_neg hthere]
    obtain ⟨_, hforwarded, he, hmetrics⟩ := Recorded.bind_pure_cases h
    cases he
    rw [hmetrics]
    exact forward_matches hforwarded

theorem travel_matches (h : (m.travel net message).value = some (actions, m')) :
    Matches (m.travel net message).metrics actions := by
  unfold travel at h ⊢
  split at h
  · exact advance_matches h
  · split at h
    · exact drop_bind_matches h
    · exact advance_matches h

theorem countTraffic_matches (h : (m.countTraffic message).value = some actions) :
    Matches (m.countTraffic message).metrics actions := by
  unfold countTraffic at h ⊢
  split at h
  · next hcloud =>
    rw [if_pos hcloud, ← Option.some.inj h]
    exact ⟨rfl, rfl⟩
  · next hother =>
    rw [if_neg hother, ← Option.some.inj h]
    exact .nil

theorem receive_matches (h : (m.receive net message).value = some (actions, m')) :
    Matches (m.receive net message).metrics actions := by
  unfold receive at h ⊢
  split at h
  · next hactuator =>
    rw [if_pos hactuator]
    obtain ⟨_, hactuated, he, hmetrics⟩ := Recorded.bind_pure_cases h
    cases he
    rw [hmetrics]
    exact actuate_matches hactuated
  · next hother =>
    rw [if_neg hother]
    obtain ⟨counted, hcounted, h, hmetrics⟩ := Recorded.bind_some_cases h
    rw [hmetrics]
    obtain ⟨_, htravel, he, hmetrics⟩ := Recorded.bind_pure_cases h
    cases he
    rw [hmetrics]
    exact (countTraffic_matches hcounted).append (travel_matches htravel)

/-! ## Placement -/

theorem place_matches {root : DeviceId} {o o' : Orchestrator}
    (h : (o.place net root).value = some (actions, o')) :
    Matches (o.place net root).metrics actions := by
  rw [Orchestrator.place_value] at h
  rw [← (Prod.mk.inj (Option.some.inj h)).1]
  refine .of_silent ?_ ?_
  · intro x hx
    unfold Orchestrator.place at hx
    simp only [Recorded.metrics_bind, Recorded.metrics_recordAll, Recorded.value_recordAll,
      Option.elim_some, Recorded.metrics_record, Recorded.value_record, Recorded.metrics_pure,
      List.append_nil, List.mem_append, List.mem_singleton] at hx
    rcases hx with hx | rfl
    · rw [List.eq_of_mem_replicate hx]
      exact ⟨rfl, rfl⟩
    · exact ⟨rfl, rfl⟩
  · intro a ha
    obtain ⟨_, _, rfl, _⟩ := Orchestrator.deploy_actions ha
    rfl

theorem tick_matches {root : DeviceId} {o o' : Orchestrator}
    (h : (o.tick net root).value = some (actions, o')) :
    Matches (o.tick net root).metrics actions := by
  have hnext : Matches [] [Orchestrator.nextCycle net] := ⟨rfl, rfl⟩
  unfold Orchestrator.tick at h ⊢
  split at h
  · next hempty =>
    rw [if_pos hempty, ← (Prod.mk.inj (Option.some.inj h)).1]
    exact hnext
  · next hsome =>
    rw [if_neg hsome]
    obtain ⟨_, hplaced, h, hmetrics⟩ := Recorded.bind_some_cases h
    rw [hmetrics, ← (Prod.mk.inj (Option.some.inj h)).1]
    exact (place_matches hplaced).append hnext

theorem cycle_matches (h : (m.cycle net).value = some (actions, m')) :
    Matches (m.cycle net).metrics actions := by
  unfold cycle at h ⊢
  split at h
  · rw [← (Prod.mk.inj (Option.some.inj h)).1]
    exact .nil
  · obtain ⟨_, hticked, he, hmetrics⟩ := Recorded.bind_pure_cases h
    cases he
    rw [hmetrics]
    exact tick_matches hticked

/-! ## Events -/

/-- A device measures what its actions give notice of, and nothing that others measure. -/
theorem handle_matches {e : Event} (h : (m.handle net e).value = some (actions, m')) :
    Matches (m.handle net e).metrics actions := by
  cases e with
  | placementTimer => exact cycle_matches h
  | messageArrived message => exact receive_matches h
  | linkFreed link =>
    obtain ⟨_, hfreed, he, hmetrics⟩ := Recorded.bind_pure_cases h
    cases he
    rw [handle, hmetrics]
    exact Outbound.freed_matches hfreed
  | placementRequestSubmitted _ | activateApplication _ | applicationReady _ =>
    rw [← (Prod.mk.inj (Option.some.inj h)).1]
    exact .nil
  | serviceDiscoveryUpdate microservice host =>
    rw [← (Prod.mk.inj (Option.some.inj h)).1]
    exact ⟨rfl, rfl⟩
  | launchMicroservice app microservice =>
    obtain ⟨_, _, he, hmetrics⟩ := Recorded.bind_pure_cases h
    cases he
    rw [handle, hmetrics]
    unfold launch
    split <;> exact ⟨rfl, rfl⟩

/-- The actions that a device starts with give no notice. -/
theorem start_notices : ∀ a ∈ m.start, a.notice? = none := by
  intro a ha
  rcases start_actions ha with rfl | ⟨_, _, rfl⟩ <;> rfl

end Machine

end FogNet
