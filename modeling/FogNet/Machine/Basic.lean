import FogNet.Deployment
import FogNet.Directory
import FogNet.Machine.Orchestrator
import FogNet.Outbound

/-!
# The state of a device

A machine is the state of one device while a simulation runs: what it learned about hosts, its
outbound links, its actuators and instances, and the orchestrator of an orchestrating device.

## Main statements

* `registerClient_ok_cases` — when a client module is registered, and that nothing else changes
* `start_actions` — what a machine starts with
-/

namespace FogNet

/-- An actuator that takes the messages of an application for its type. -/
structure AttachedActuator where
  id : ActuatorId
  app : AppId
  actuatorType : Name
  deriving DecidableEq, Repr

namespace AttachedActuator

/-- Whether a message is for the actuator: by number if it names one, else by its destination. -/
def takes (a : AttachedActuator) (message : Message) : Bool :=
  match message.actuator with
  | some id => a.id == id
  | none => a.app == message.app && a.actuatorType == message.destination

end AttachedActuator

structure Machine where
  device : Device
  directory : Directory := {}
  turns : Turns := {}
  outbound : Outbound
  actuators : List AttachedActuator := []
  deployment : Deployment
  /-- Devices that orchestrate have one. -/
  orchestrator : Option Orchestrator
  now : Duration := 0

namespace Machine

def id (m : Machine) : DeviceId := m.device.id

def role (m : Machine) : Role := m.device.role

/-- The machine of a device at the beginning. -/
def ofDevice (net : Network) (d : Device) : Machine :=
  { device := d
    outbound := { bandwidth := d.bandwidth }
    deployment := { device := d.id }
    orchestrator := if d.role.orchestrates then some (.start net d.id) else none }

/-- The machine of a device of the network at the beginning. -/
def create (net : Network) (id : DeviceId) : Except TopologyError Machine :=
  match net.device? id with
  | none => .error (.unknownDevice id)
  | some d => .ok (ofDevice net d)

/-! ## Setup -/

/-- Registers the client module of an application, to be launched at the start. -/
def registerClient (net : Network) (m : Machine) (app : AppId) : Except NodeError Machine :=
  match net.application? app with
  | none => .error (.unknownApplication app)
  | some a =>
    (m.deployment.registerClient app a.clientModule).map fun deployment => { m with deployment }

def attach (m : Machine) (a : AttachedActuator) : Machine :=
  { m with actuators := m.actuators ++ [a] }

theorem registerClient_ok_cases {net : Network} {m m' : Machine} {app : AppId}
    (h : m.registerClient net app = .ok m') :
    ∃ a deployment, net.application? app = some a
      ∧ m.deployment.registerClient app a.clientModule = .ok deployment
      ∧ m' = { m with deployment } := by
  unfold registerClient at h
  split at h
  · simp at h
  · next a ha =>
    cases hd : m.deployment.registerClient app a.clientModule with
    | error e => simp [hd, Except.map] at h
    | ok deployment =>
      simp only [hd, Except.map, Except.ok.injEq] at h
      exact ⟨a, deployment, ha, hd, h.symm⟩

/-! ## The start -/

/-- The events by which a client device deploys a client module. -/
def clientEvents (app : AppId) (module : Name) : List Event :=
  [.activateApplication app, .applicationReady app, .launchMicroservice app module]

/--
What a machine begins with: an orchestrator with its first cycle at once, a client device with the
client modules that are registered.
-/
def start (m : Machine) : List Action :=
  (if m.orchestrator.isSome then [.setTimer .placementCycle 0] else [])
    ++ (if m.role = .client then
          m.deployment.pendingClients.entries.flatMap fun c =>
            (clientEvents c.1 c.2).map Action.enqueueInternal
        else [])

theorem start_actions {m : Machine} {a : Action} (h : a ∈ m.start) :
    a = .setTimer .placementCycle 0
      ∨ ∃ e : Event, e.isInternal = true ∧ a = .enqueueInternal e := by
  rcases List.mem_append.mp h with h | h
  · split at h
    · exact Or.inl (List.mem_singleton.mp h)
    · simp at h
  · split at h
    · obtain ⟨c, _, hc⟩ := List.mem_flatMap.mp h
      obtain ⟨e, he, rfl⟩ := List.mem_map.mp hc
      refine Or.inr ⟨e, ?_, rfl⟩
      simp only [clientEvents, List.mem_cons, List.not_mem_nil, or_false] at he
      rcases he with rfl | rfl | rfl <;> rfl
    · simp at h

end Machine

end FogNet
