import FogNet.Machine.Dispatch

/-!
# Handling events

The step function of a device: an event leads to actions and to the next state. A device that does
not orchestrate has no use for requests and placement cycles and passes over them, and nothing is
launched for an application that is not registered.

## Main statements

* `handle_device` — a device stays what it is
-/

namespace FogNet

namespace Machine

/-- A placement cycle. -/
def cycle (net : Network) (m : Machine) : Recorded (List Action × Machine) :=
  match m.orchestrator with
  | none => pure ([], m)
  | some o => do
    let (actions, o) ← o.tick net m.id
    return (actions, { m with orchestrator := some o })

/-- Takes a request. -/
def submit (m : Machine) (request : Request) : Machine :=
  { m with orchestrator := m.orchestrator.map fun o => o.submit request }

/-- Learns of a host. -/
def learn (m : Machine) (microservice : Name) (host : DeviceId) : Recorded Machine := do
  Recorded.record .discoveryUpdate
  return { m with directory := m.directory.add microservice host }

/-- Launches an instance of a registered application. -/
def launch (net : Network) (m : Machine) (app : AppId) (microservice : Name) :
    Recorded Machine :=
  if net.applications.contains app then do
    Recorded.record (.instanceLaunched microservice)
    return { m with deployment := m.deployment.launch app microservice }
  else pure m

/-- Handles an event. -/
def handle (net : Network) (m : Machine) : Event → Recorded (List Action × Machine)
  | .placementTimer => m.cycle net
  | .linkFreed link => do
    let (actions, outbound) ← m.outbound.freed link
    return (actions, { m with outbound })
  | .messageArrived message => m.receive net message
  | .placementRequestSubmitted request => pure ([], m.submit request)
  | .serviceDiscoveryUpdate microservice host => do return ([], ← m.learn microservice host)
  | .activateApplication app => pure ([], { m with deployment := m.deployment.activate app })
  | .applicationReady app => pure ([], { m with deployment := m.deployment.markReady app })
  | .launchMicroservice app microservice => do return ([], ← m.launch net app microservice)

/-- A device stays what it is. -/
theorem handle_device {net : Network} {m m' : Machine} {e : Event} {actions : List Action}
    (h : (m.handle net e).value = some (actions, m')) : m'.device = m.device := by
  cases e with
  | placementTimer =>
    simp only [handle, cycle] at h
    split at h
    · simp only [Recorded.value_pure, Option.some.injEq, Prod.mk.injEq] at h
      rw [← h.2]
    · simp only [Recorded.value_bind, Recorded.value_pure, Option.bind_eq_some_iff,
        Option.some.injEq, Prod.mk.injEq] at h
      obtain ⟨_, _, _, rfl⟩ := h
      rfl
  | linkFreed link =>
    simp only [handle, Recorded.value_bind, Recorded.value_pure, Option.bind_eq_some_iff,
      Option.some.injEq, Prod.mk.injEq] at h
    obtain ⟨_, _, _, rfl⟩ := h
    rfl
  | messageArrived message => exact (receive_sameNode h).1
  | placementRequestSubmitted _ | activateApplication _ | applicationReady _ =>
    simp only [handle, Recorded.value_pure, Option.some.injEq, Prod.mk.injEq] at h
    exact h.2 ▸ rfl
  | serviceDiscoveryUpdate _ _ =>
    simp only [handle, learn, Recorded.value_bind, Recorded.value_pure, Option.bind_eq_some_iff,
      Option.some.injEq, Prod.mk.injEq] at h
    obtain ⟨_, ⟨_, _, rfl⟩, _, rfl⟩ := h
    rfl
  | launchMicroservice _ _ =>
    simp only [handle, launch, Recorded.value_bind, Recorded.value_pure, Option.bind_eq_some_iff,
      Option.some.injEq, Prod.mk.injEq] at h
    obtain ⟨_, hl, _, rfl⟩ := h
    split at hl
    · simp only [Recorded.value_bind, Recorded.value_pure, Option.bind_eq_some_iff,
        Option.some.injEq] at hl
      obtain ⟨_, _, rfl⟩ := hl
      rfl
    · simp only [Recorded.value_pure, Option.some.injEq] at hl
      rw [← hl]

end Machine

end FogNet
