import FogNet.Drop
import FogNet.Identifier
import FogNet.SortedMap

/-!
# Deployments

What runs on one device. The launches are kept in their order, and an instance is known by the
number of its launch, so the instances of a microservice are the places where it stands in that
list. Instances belong to an application: applications that use the same name share none.

## Main statements

* `registerClient_ok` — what the registration of a client module changes
* `instancesOf_launch` — a launch adds one instance to its own microservice only
* `select_pin` — a message that is pinned goes to its instance or nowhere
-/

namespace FogNet

/-- What is wrong with the registration of a client module. -/
inductive NodeError where
  | duplicateClientModule (device : DeviceId) (app : AppId)
  | unknownApplication (app : AppId)
  deriving DecidableEq, Repr

namespace NodeError

def message : NodeError → String
  | duplicateClientModule device app =>
    "Device " ++ toString device ++ " already deploys a client module for application " ++ app
  | unknownApplication app => "Application " ++ app ++ " is not registered"

end NodeError

/-- What runs, and is about to run, on one device. -/
structure Deployment where
  device : DeviceId
  active : List AppId := []
  ready : List AppId := []
  /-- Every launch, oldest first. -/
  launches : List (AppId × Name) := []
  /-- The client modules that are registered and not launched yet. -/
  pendingClients : SortedMap AppId Name := SortedMap.empty
  /-- The applications whose client module was registered and launched. -/
  launchedClients : List AppId := []

namespace Deployment

/-! ## Life cycle -/

def activate (d : Deployment) (app : AppId) : Deployment := { d with active := d.active.insert app }

def markReady (d : Deployment) (app : AppId) : Deployment := { d with ready := d.ready.insert app }

def isActive (d : Deployment) (app : AppId) : Bool := d.active.contains app

def isReady (d : Deployment) (app : AppId) : Bool := d.ready.contains app

/-- Registers a client module, which a device does once for an application. -/
def registerClient (d : Deployment) (app : AppId) (module : Name) : Except NodeError Deployment :=
  if d.pendingClients.contains app || d.launchedClients.contains app then
    .error (.duplicateClientModule d.device app)
  else .ok { d with pendingClients := d.pendingClients.insert app module }

/-- A client module that is registered waits for its launch, and nothing else changes. -/
theorem registerClient_ok {d d' : Deployment} {app : AppId} {module : Name}
    (h : d.registerClient app module = .ok d') :
    d' = { d with pendingClients := d.pendingClients.insert app module } := by
  unfold registerClient at h
  split at h
  · cases h
  · exact (Except.ok.inj h).symm

/-! ## Launches -/

/-- The instance that the next launch makes. -/
def nextInstance (d : Deployment) : InstanceId := ⟨d.device, d.launches.length⟩

/-- Launches an instance. The launch of a pending client module ends its wait. -/
def launch (d : Deployment) (app : AppId) (microservice : Name) : Deployment :=
  let d := { d with launches := d.launches ++ [(app, microservice)] }
  if d.pendingClients.get? app = some microservice then
    { d with
      pendingClients := d.pendingClients.erase app
      launchedClients := d.launchedClients.insert app }
  else d

/-- The instances of a microservice in the order of their launches. -/
def instancesOf (d : Deployment) (app : AppId) (microservice : Name) : List InstanceId :=
  (d.launches.zipIdx.filter fun l => l.1 == (app, microservice)).map fun l => ⟨d.device, l.2⟩

def hosts (d : Deployment) (app : AppId) (microservice : Name) : Bool :=
  !(d.instancesOf app microservice).isEmpty

def instanceCount (d : Deployment) : Nat := d.launches.length

/-- How often each microservice runs here, by application and name. -/
def tally (d : Deployment) : SortedMap AppId (SortedMap Name Nat) :=
  d.launches.foldl
    (fun t l => t.upsert l.1 SortedMap.empty fun names => names.upsert l.2 0 fun n => n + 1)
    SortedMap.empty

/-- Application, microservice and number of instances, sorted. -/
def placements (d : Deployment) : List (AppId × Name × Nat) :=
  d.tally.entries.flatMap fun e => e.2.entries.map fun c => (e.1, c.1, c.2)

@[simp] theorem device_launch (d : Deployment) (app : AppId) (microservice : Name) :
    (d.launch app microservice).device = d.device := by
  unfold launch
  simp only
  split <;> rfl

@[simp] theorem launches_launch (d : Deployment) (app : AppId) (microservice : Name) :
    (d.launch app microservice).launches = d.launches ++ [(app, microservice)] := by
  unfold launch
  simp only
  split <;> rfl

/-- A launch adds one instance to its own microservice only. -/
theorem instancesOf_launch (d : Deployment) (app app' : AppId) (microservice name : Name) :
    (d.launch app microservice).instancesOf app' name
      = d.instancesOf app' name
        ++ if (app, microservice) = (app', name) then [d.nextInstance] else [] := by
  unfold instancesOf nextInstance
  rw [launches_launch, device_launch, List.zipIdx_append, List.filter_append, List.map_append]
  by_cases h : (app, microservice) = (app', name) <;> simp [h]

/-- An instance is known by the device where it was launched. -/
theorem device_of_mem_instancesOf {d : Deployment} {app : AppId} {microservice : Name}
    {p : InstanceId} (h : p ∈ d.instancesOf app microservice) : p.device = d.device := by
  obtain ⟨_, _, rfl⟩ := List.mem_map.mp h
  rfl

/-! ## Choosing an instance -/

/--
The instance for a message: the one it is pinned to, which must be here, or the first that was
launched.
-/
def select (d : Deployment) (app : AppId) (microservice : Name) (pin : Option InstanceId) :
    Except DropReason InstanceId :=
  match pin with
  | some pinned =>
    if (d.instancesOf app microservice).contains pinned then .ok pinned else .error .stalePin
  | none =>
    match d.instancesOf app microservice with
    | first :: _ => .ok first
    | [] => .error .noInstance

/-- A message that is pinned goes to its instance or nowhere. -/
theorem select_pin {d : Deployment} {app : AppId} {microservice : Name}
    {pinned chosen : InstanceId} :
    d.select app microservice (some pinned) = .ok chosen
      ↔ chosen = pinned ∧ pinned ∈ d.instancesOf app microservice := by
  unfold select
  by_cases h : pinned ∈ d.instancesOf app microservice
  · simp [h, eq_comm]
  · simp [h]

/-- If no instance is chosen, the microservice or the instance of the pin is not here. -/
theorem select_error {d : Deployment} {app : AppId} {microservice : Name} {pin : Option InstanceId}
    {reason : DropReason} (h : d.select app microservice pin = .error reason) :
    reason = .noInstance ∨ reason = .stalePin := by
  unfold select at h
  split at h
  · split at h
    · cases h
    · exact Or.inr (Except.error.inj h).symm
  · split at h
    · cases h
    · exact Or.inl (Except.error.inj h).symm

/-- A chosen instance runs the microservice. -/
theorem select_mem {d : Deployment} {app : AppId} {microservice : Name} {pin : Option InstanceId}
    {chosen : InstanceId} (h : d.select app microservice pin = .ok chosen) :
    chosen ∈ d.instancesOf app microservice := by
  cases pin with
  | some pinned =>
    obtain ⟨rfl, hmem⟩ := select_pin.mp h
    exact hmem
  | none =>
    unfold select at h
    cases hl : d.instancesOf app microservice with
    | nil => simp [hl] at h
    | cons first rest =>
      simp only [hl, Except.ok.injEq] at h
      exact h ▸ List.mem_cons_self

end Deployment

end FogNet
