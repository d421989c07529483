import FogNet.Topology.Layout
import FogNet.Topology.Route

/-!
# Topologies

A topology is a valid layout with the routes of least latency between all its devices. `build`
refuses a layout whose devices are not distinct, whose links cannot carry data, or whose parents
are unknown or form a cycle.

## Main statements

* `build_ok_cases` — a built topology has no fault, and its routes are those of its layout
* `build_eq_ok` — when a layout has a topology
* `build_toLayout` — a built topology keeps the layout it was built from
-/

namespace FogNet

/-- What is wrong with a layout, or with a question to a topology. -/
inductive TopologyError where
  | duplicateDevice (device : DeviceId)
  | unknownParent (device parent : DeviceId)
  | parentCycle (device : DeviceId)
  | invalidBandwidth (device : DeviceId)
  | unknownDevice (device : DeviceId)
  | missingRoute (start goal : DeviceId)
  /-- The latencies along some route add up to more than a duration can hold. -/
  | latencyOverflow
  deriving DecidableEq, Repr

namespace TopologyError

def message : TopologyError → String
  | duplicateDevice device => "Device " ++ toString device ++ " declared more than once"
  | unknownParent device parent =>
    "Device " ++ toString device ++ " declares unknown parent " ++ toString parent
  | parentCycle device => "Parent chain of device " ++ toString device ++ " contains a cycle"
  | invalidBandwidth device =>
    "Device " ++ toString device ++ " has a non-positive or non-finite link bandwidth"
  | unknownDevice device => "Unknown device " ++ toString device
  | missingRoute start goal =>
    "Routing table of device " ++ toString start ++ " has no next hop for destination "
      ++ toString goal
  | latencyOverflow => "Link latencies add up to more than a duration can hold"

end TopologyError

namespace Layout

/-! ## Validity -/

/-- The first device that is declared again or has unusable links. -/
def declarationFault : (seen : List DeviceId) → List Device → Option TopologyError
  | _, [] => none
  | seen, d :: rest =>
    if seen.contains d.id then some (.duplicateDevice d.id)
    else if !d.hasUsableLinks then some (.invalidBandwidth d.id)
    else declarationFault (d.id :: seen) rest

/-- The first device with a parent that is not declared. -/
def parentFault (l : Layout) : Option TopologyError :=
  l.devices.findSome? fun d =>
    match d.parent with
    | none => none
    | some p => if l.contains p then none else some (.unknownParent d.id p)

/--
Whether the parents from `next` on come to an end. The search is given up when it comes back to
`self`, and when it meets more than so many parents.
-/
def endsAbove (l : Layout) (self : DeviceId) : (steps : Nat) → (next : Option DeviceId) → Bool
  | _, none => true
  | 0, some _ => false
  | steps + 1, some p => p != self && l.endsAbove self steps (l.parent? p)

/-- The first device whose chain of parents does not end. -/
def cycleFault (l : Layout) : Option TopologyError :=
  l.devices.findSome? fun d =>
    if l.endsAbove d.id l.devices.length d.parent then none else some (.parentCycle d.id)

/-- The fault that a layout is refused for. -/
def fault? (l : Layout) : Option TopologyError :=
  (declarationFault [] l.devices).or (l.parentFault.or l.cycleFault)

/-! ## Places -/

/-- The number of a device, by declaration order. -/
def place? (l : Layout) (id : DeviceId) : Option (Fin l.devices.length) :=
  l.devices.findFinIdx? fun d => d.id == id

def idAt (l : Layout) (place : Fin l.devices.length) : DeviceId := l.devices[place].id

/-- The neighbours below and beside a device, with the latencies of the links to them. -/
def branchLatencies (l : Layout) (d : Device) : List (DeviceId × Duration) :=
  ((l.childDevices d.id).map fun c => (c.id, c.uplinkLatency))
    ++ (l.siblingsOf d).map fun s => (s, l.clusterLatency)

/-- The latency of the direct link between two places: up to the parent, or down or sideways. -/
def linkLatency (l : Layout) (row column : Fin l.devices.length) : Option Duration :=
  let start := l.devices[row]
  let goal := l.devices[column]
  if start.parent = some goal.id then some start.uplinkLatency
  else ((l.branchLatencies start).find? fun n => n.1 == goal.id).map Prod.snd

end Layout

/-- A valid layout with its routes. -/
structure Topology extends Layout where
  routes : RouteTable devices.length

namespace Topology

/-- The first pair of devices in one tree without a route. -/
def unrouted? (t : Topology) : Option (DeviceId × DeviceId) :=
  let places := (List.finRange t.devices.length).map fun i =>
    (i, (t.top? (t.idAt i)).map Device.id)
  places.findSome? fun (i, top) =>
    places.findSome? fun (j, top') =>
      if top = top' ∧ (t.routes.get i j).isNone then some (t.idAt i, t.idAt j) else none

/-- The topology of a layout, or what is wrong with it. -/
def build (l : Layout) : Except TopologyError Topology :=
  match l.fault? with
  | some e => .error e
  | none =>
    let settled := Relaxation.routes l.linkLatency
    if Duration.limit ≤ settled.peak then .error .latencyOverflow
    else
      let t : Topology := { l with routes := settled.table }
      match t.unrouted? with
      | some (start, goal) => .error (.missingRoute start goal)
      | none => .ok t

theorem build_ok_cases {l : Layout} {t : Topology} (h : build l = .ok t) :
    l.fault? = none ∧ t = { l with routes := (Relaxation.routes l.linkLatency).table } := by
  unfold build at h
  split at h
  · simp at h
  · next hf =>
    simp only at h
    split at h
    · simp at h
    · split at h
      · simp at h
      · exact ⟨hf, (Except.ok.inj h).symm⟩

/-- A layout without a fault, with routes in range that join every tree, has its topology. -/
theorem build_eq_ok {l : Layout} {s : Relaxation l.devices.length} (hf : l.fault? = none)
    (hs : Relaxation.routes l.linkLatency = s) (hp : ¬ Duration.limit ≤ s.peak)
    (hu : unrouted? { l with routes := s.table } = none) :
    build l = .ok { l with routes := s.table } := by
  subst hs
  unfold build
  rw [hf]
  simp only
  rw [if_neg hp, hu]

/-- A built topology has the layout it was built from. -/
theorem build_toLayout {l : Layout} {t : Topology} (h : build l = .ok t) : t.toLayout = l := by
  obtain ⟨_, rfl⟩ := build_ok_cases h
  rfl

/-! ## Routes between devices -/

/-- The route between two devices. -/
def route? (t : Topology) (start goal : DeviceId) : Option (Route t.devices.length) :=
  (t.place? start).bind fun i => (t.place? goal).bind fun j => t.routes.get i j

/-- The least total latency between two devices. -/
def distance? (t : Topology) (start goal : DeviceId) : Option Duration :=
  (t.route? start goal).map Route.distance

/-- The device to go to next from one device towards another. -/
def nextHop (t : Topology) (start goal : DeviceId) : Except TopologyError DeviceId :=
  match t.route? start goal with
  | some r => .ok (t.idAt r.hop)
  | none => .error (.missingRoute start goal)

/-- All destinations with a route from a device: destination, next hop and distance. -/
def routesOf (t : Topology) (start : DeviceId) : List (DeviceId × DeviceId × Duration) :=
  match t.place? start with
  | none => []
  | some i =>
    ((List.finRange t.devices.length).filterMap fun j =>
      (t.routes.get i j).map fun r => (t.idAt j, t.idAt r.hop, r.distance)).mergeSort
        fun a b => a.1 ≤ b.1

/--
Follows next hops from `current`, at most `steps` of them. Without routes, or with too many steps,
there is no path.
-/
def follow (t : Topology) (start goal : DeviceId) :
    (steps : Nat) → (current : DeviceId) → Except TopologyError (List DeviceId)
  | steps, current =>
    if current = goal then .ok [current]
    else
      match t.nextHop current goal with
      | .error e => .error e
      | .ok next =>
        match steps with
        | 0 => .error (.missingRoute start goal)
        | steps + 1 => (t.follow start goal steps next).map (current :: ·)

/-- The devices on the way between two devices, both ends included. -/
def path (t : Topology) (start goal : DeviceId) : Except TopologyError (List DeviceId) :=
  t.follow start goal t.devices.length start

end Topology

end FogNet
