import FogNet.Action
import FogNet.Metric
import FogNet.Network

/-!
# Orchestrators

An orchestrating device keeps the requests that are not placed yet and the resources its domain has
left. In every cycle it places what it can, tells the devices what to launch, and tells those that
send to a new instance where it runs.

## Main statements

* `mem_decisions` — a decision comes from a placed request of a registered application
* `tick_pending` — after a cycle exactly the requests that were not placed are pending
-/

namespace FogNet

/-- The state of the orchestrator of one device. -/
structure Orchestrator where
  /-- What the domain has left. -/
  resources : Snapshot
  /-- The requests that are not placed yet, in the order of their submission. -/
  pending : List Request := []

/-- A microservice of a request that was placed on a device. -/
structure Decision where
  request : Request
  app : Application
  /-- All that was decided for the request. -/
  assignment : Assignment
  microservice : Name
  device : DeviceId

namespace Decision

/-- The devices that send to the new instance: they host what feeds it, for the same request. -/
def clients (d : Decision) : List DeviceId :=
  (d.app.clientServices d.microservice).filterMap fun client =>
    (d.request.placed.get? client).or (d.assignment.get? client)

/-- Tells the devices that send to the new instance where it runs. -/
def announcements (d : Decision) : List Action :=
  d.clients.map fun client => .deliver client (.serviceDiscoveryUpdate d.microservice d.device)

end Decision

namespace Orchestrator

/-- The orchestrator of a device before its first cycle, with all its domain offers. -/
def start (net : Network) (root : DeviceId) : Orchestrator :=
  { resources := SortedMap.ofList ((net.topology.domain root).filterMap fun id =>
      (net.device? id).map fun d => (d.id, d.capacity)) }

def submit (o : Orchestrator) (request : Request) : Orchestrator :=
  { o with pending := o.pending ++ [request] }

/-! ## What a placement means for the devices -/

/-- The decisions of a placement, by request and microservice. -/
def decisions (net : Network) (pending : List Request) (placement : Placement) : List Decision :=
  placement.entries.flatMap fun (id, assignment) =>
    match pending.find? fun r => r.id == id with
    | none => []
    | some request =>
      match net.application? request.app with
      | none => []
      | some app =>
        assignment.entries.map fun (microservice, device) =>
          { request, app, assignment, microservice, device }

/-- What a device has to do to host some microservices of an application, if there are any. -/
def launches (device : DeviceId) (app : Application) (names : List Name) : List Action :=
  if names.isEmpty then []
  else
    let events : List Event := [.activateApplication app.id, .applicationReady app.id]
      ++ (app.names.filter names.contains).map (Event.launchMicroservice app.id)
    events.map (Action.deliver device)

/-- The names that decisions put on a device for an application. -/
def namesFor (decisions : List Decision) (device : DeviceId) (app : AppId) : List Name :=
  (decisions.filter fun d => d.device == device && d.app.id == app).map Decision.microservice

/-- The devices that decisions use, ascending. -/
def devicesOf (decisions : List Decision) : List DeviceId :=
  (SortedMap.ofList (decisions.map fun d => (d.device, ()))).keys

/-- All commands of a placement: announcements first, then launches by device and application. -/
def deploy (net : Network) (decisions : List Decision) : List Action :=
  decisions.flatMap Decision.announcements
    ++ (devicesOf decisions).flatMap fun device =>
      net.applications.values.flatMap fun app =>
        launches device app (namesFor decisions device app.id)

theorem mem_decisions {net : Network} {pending : List Request} {placement : Placement}
    {d : Decision} (h : d ∈ decisions net pending placement) :
    d.request ∈ pending ∧ net.application? d.request.app = some d.app
      ∧ placement.get? d.request.id = some d.assignment
      ∧ d.assignment.get? d.microservice = some d.device := by
  simp only [decisions, List.mem_flatMap] at h
  obtain ⟨⟨id, assignment⟩, he, h⟩ := h
  split at h
  · simp at h
  · next request hr =>
    split at h
    · simp at h
    · next app ha =>
      obtain ⟨⟨microservice, device⟩, hm, rfl⟩ := List.mem_map.mp h
      have hid : request.id = id := by simpa using List.find?_some hr
      refine ⟨List.mem_of_find?_eq_some hr, ha, ?_, ?_⟩
      · rw [← SortedMap.mem_entries_iff]
        simp only [hid]
        exact he
      · rw [← SortedMap.mem_entries_iff]
        exact hm

/-! ## Cycles -/

/-- What the orchestrator of `root` places from. -/
def setting (net : Network) (root : DeviceId) (o : Orchestrator) : PlacementSetting :=
  { layout := net.topology.toLayout
    root
    domain := net.topology.domain root
    applications := net.applications
    free := o.resources }

/-- What one attempt at all pending requests leads to. -/
def attempt (net : Network) (root : DeviceId) (o : Orchestrator) : PlacementResult :=
  net.policy.strategy.run (o.setting net root) o.pending

/-- Carries out one attempt at all pending requests. -/
def place (net : Network) (root : DeviceId) (o : Orchestrator) :
    Recorded (List Action × Orchestrator) := do
  let result := o.attempt net root
  Recorded.recordAll (List.replicate result.failures .shiftFailure)
  let pending := o.pending.filter fun r => !result.placement.contains r.id
  Recorded.record (.placementCycle result.placement.entries.length pending.length)
  return (deploy net (decisions net o.pending result.placement),
    { resources := result.ledger.commit o.resources, pending })

/-- The timer for the next cycle. -/
def nextCycle (net : Network) : Action := .setTimer .placementCycle net.policy.placementInterval

/-- One placement cycle. Without a pending request there is only the wait for the next one. -/
def tick (net : Network) (root : DeviceId) (o : Orchestrator) :
    Recorded (List Action × Orchestrator) :=
  if o.pending.isEmpty then pure ([nextCycle net], o)
  else do
    let (actions, o) ← o.place net root
    return (actions ++ [nextCycle net], o)

theorem place_value (net : Network) (root : DeviceId) (o : Orchestrator) :
    (o.place net root).value =
      let result := o.attempt net root
      some (deploy net (decisions net o.pending result.placement),
        { resources := result.ledger.commit o.resources
          pending := o.pending.filter fun r => !result.placement.contains r.id }) := by
  unfold place
  simp only [Recorded.value_bind, Recorded.value_recordAll, Option.bind_some, Recorded.value_record,
    Recorded.value_pure]

/-- After a cycle exactly the requests that were not placed are pending. -/
theorem tick_pending {net : Network} {root : DeviceId} {o o' : Orchestrator}
    {actions : List Action} (h : (o.tick net root).value = some (actions, o')) :
    o'.pending = o.pending.filter fun r => !(o.attempt net root).placement.contains r.id := by
  unfold tick at h
  split at h
  · next he =>
    rw [Recorded.value_pure, Option.some.injEq, Prod.mk.injEq] at h
    rw [← h.2, List.isEmpty_iff.mp he]
    rfl
  · rw [Recorded.value_bind, place_value] at h
    simp only [Option.bind_some, Recorded.value_pure, Option.some.injEq, Prod.mk.injEq] at h
    rw [← h.2]

end Orchestrator

end FogNet
