import FogNet.Identifier
import FogNet.Duration

/-!
# Devices

A device of the fog: its role, its place below a parent, what it can carry and how fast its three
classes of outbound links are. Capacities are counted in words of 64 bits.
-/

namespace FogNet

/-! ## Roles -/

/-- What a device does in the hierarchy. -/
inductive Role where
  /-- An ingress device; it hosts client modules and nothing that is shared. -/
  | client
  /-- A fog computation node; it hosts instances. -/
  | fcn
  /-- A fog orchestration node; it hosts instances and places those of its subtree. -/
  | fon
  /-- A data centre, which orchestrates like a fog orchestration node. -/
  | cloud
  deriving DecidableEq, Repr, Inhabited

namespace Role

/-- Whether a device of this role runs an orchestrator. -/
def orchestrates : Role → Bool
  | fon | cloud => true
  | client | fcn => false

/-- Whether placement may put shared microservices on a device of this role. -/
def hostsShared : Role → Bool
  | client => false
  | fcn | fon | cloud => true

def name : Role → String
  | client => "client"
  | fcn => "fcn"
  | fon => "fon"
  | cloud => "cloud"

def all : List Role := [client, fcn, fon, cloud]

/-- The role a word names; capitals do not matter. -/
def parse (word : String) : Except UnknownWord Role :=
  match asciiLowercase word with
  | "client" => .ok client
  | "fcn" => .ok fcn
  | "fon" => .ok fon
  | "cloud" => .ok cloud
  | _ => .error (.role word)

end Role

/-! ## Links -/

/-- The classes of outbound links. -/
inductive LinkKind where
  /-- Towards the parent. -/
  | uplink
  /-- Towards the children, which share it. -/
  | downlink
  /-- Towards the cluster siblings. -/
  | cluster
  deriving DecidableEq, Repr, Inhabited

namespace LinkKind

def name : LinkKind → String
  | uplink => "uplink"
  | downlink => "downlink"
  | cluster => "cluster"

def all : List LinkKind := [uplink, downlink, cluster]

end LinkKind

/-- One value for each class of links. -/
structure PerLink (α : Type) where
  uplink : α
  downlink : α
  cluster : α

namespace PerLink

variable {α : Type}

def get (p : PerLink α) : LinkKind → α
  | .uplink => p.uplink
  | .downlink => p.downlink
  | .cluster => p.cluster

def set (p : PerLink α) (kind : LinkKind) (a : α) : PerLink α :=
  match kind with
  | .uplink => { p with uplink := a }
  | .downlink => { p with downlink := a }
  | .cluster => { p with cluster := a }

/-- The same value for every class. -/
def const (a : α) : PerLink α := ⟨a, a, a⟩

@[simp] theorem get_set_self (p : PerLink α) (kind : LinkKind) (a : α) :
    (p.set kind a).get kind = a := by cases kind <;> rfl

theorem get_set_ne (p : PerLink α) {kind other : LinkKind} (a : α) (h : other ≠ kind) :
    (p.set kind a).get other = p.get other := by
  cases kind <;> cases other <;> first | rfl | exact absurd rfl h

end PerLink

/-! ## Devices -/

/-- What a device offers, or has left. -/
structure Resources where
  /-- Processing capacity, in million instructions per second; it is declared as a word. -/
  cpuMips : Nat
  ramMb : Nat := 0
  storageMb : Nat := 0
  deriving DecidableEq, Repr, Inhabited

/-- The bandwidth of a link that declares none, in bytes per second. -/
def defaultBandwidth : Float := 10000000.0

/-- A declared device. Its children and its cluster are not declared but derived. -/
structure Device where
  id : DeviceId
  name : String
  role : Role
  /-- The device above, none for the top of a tree. -/
  parent : Option DeviceId := none
  /-- A label that tells which cluster level the device belongs to. -/
  level : Option String := none
  capacity : Resources
  /-- Latency of the link to the parent. -/
  uplinkLatency : Duration := 0
  /-- In bytes per second. -/
  bandwidth : PerLink Float := PerLink.const defaultBandwidth

namespace Device

/--
A device belongs to the level it is labelled with, or without a label to those its name starts
with.
-/
def inLevel (d : Device) (identifier : String) : Bool :=
  match d.level with
  | some level => level == identifier
  | none => identifier.toList.isPrefixOf d.name.toList

/-- Whether data can be sent at all over every link: all bandwidths are finite and above zero. -/
def hasUsableLinks (d : Device) : Bool :=
  LinkKind.all.all fun kind => (d.bandwidth.get kind).isFinite && d.bandwidth.get kind > 0.0

end Device

end FogNet
