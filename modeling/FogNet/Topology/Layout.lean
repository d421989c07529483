import FogNet.Topology.Device

/-!
# Layouts: who is next to whom

A layout is what is declared of a network: its devices, the levels on which clusters form and the
latency of cluster links. Everything a device is adjacent to follows from it:

* the children of a device are those that declare it as their parent,
* the cluster siblings are the devices with the same parent that share a level with it.

## Main statements

* `link?_parent` — the link to the parent is the uplink
* `mem_children`, `mem_siblingsOf` — who the neighbours below and beside a device are
-/

namespace FogNet

/-- The declaration of a network. -/
structure Layout where
  devices : List Device
  /-- The levels on which devices with one parent form clusters. -/
  levels : List String := []
  /-- Latency of every cluster link. -/
  clusterLatency : Duration := 0

/-- How a device reaches an adjacent one. -/
structure Link where
  kind : LinkKind
  latency : Duration
  deriving DecidableEq, Repr

namespace Layout

/-! ## Devices -/

def ids (l : Layout) : List DeviceId := l.devices.map Device.id

def device? (l : Layout) (id : DeviceId) : Option Device := l.devices.find? fun d => d.id == id

def contains (l : Layout) (id : DeviceId) : Bool := (l.device? id).isSome

def parent? (l : Layout) (id : DeviceId) : Option DeviceId := (l.device? id).bind Device.parent

/-! ## Neighbours -/

/-- The devices that declare `id` as their parent, in declaration order. -/
def childDevices (l : Layout) (id : DeviceId) : List Device :=
  l.devices.filter fun d => d.parent == some id

def children (l : Layout) (id : DeviceId) : List DeviceId := (l.childDevices id).map Device.id

/-- The other devices of a level below the same parent as `d`. -/
def peers (l : Layout) (d : Device) (level : String) : List DeviceId :=
  (l.devices.filter fun o => o.inLevel level && o.parent == d.parent && o.id != d.id).map Device.id

/-- Adds the peers of one level that are not found yet. -/
def joinLevel (l : Layout) (d : Device) (found : List DeviceId) (level : String) : List DeviceId :=
  if d.inLevel level then found ++ (l.peers d level).filter fun o => !found.contains o else found

/-- The cluster siblings of a device, level by level, each at the first level that joins them. -/
def siblingsOf (l : Layout) (d : Device) : List DeviceId := l.levels.foldl (l.joinLevel d) []

def siblings (l : Layout) (id : DeviceId) : List DeviceId :=
  ((l.device? id).map l.siblingsOf).getD []

/-- The devices that `id` leads to downwards and sideways: children first, then siblings. -/
def branches (l : Layout) (id : DeviceId) : List DeviceId := l.children id ++ l.siblings id

theorem mem_children {l : Layout} {id c : DeviceId} :
    c ∈ l.children id ↔ ∃ d ∈ l.devices, d.parent = some id ∧ d.id = c := by
  simp [children, childDevices, and_assoc]

theorem mem_joinLevel {l : Layout} {d : Device} {found : List DeviceId} {level : String}
    {o : DeviceId} : o ∈ l.joinLevel d found level ↔
      o ∈ found ∨ (d.inLevel level = true ∧ o ∈ l.peers d level) := by
  unfold joinLevel
  split
  · next h =>
    simp only [List.mem_append, List.mem_filter, h, true_and]
    by_cases ho : o ∈ found <;> simp [ho]
  · next h => simp [h]

theorem mem_foldl_joinLevel {l : Layout} {d : Device} {o : DeviceId} :
    ∀ {levels : List String} {found : List DeviceId}, o ∈ levels.foldl (l.joinLevel d) found ↔
      o ∈ found ∨ ∃ level ∈ levels, d.inLevel level = true ∧ o ∈ l.peers d level
  | [], found => by simp
  | level :: levels, found => by
    rw [List.foldl_cons, mem_foldl_joinLevel, mem_joinLevel]
    simp [or_assoc]

/-- The siblings are the peers on some level that the device itself belongs to. -/
theorem mem_siblingsOf {l : Layout} {d : Device} {o : DeviceId} :
    o ∈ l.siblingsOf d ↔ ∃ level ∈ l.levels, d.inLevel level = true ∧ o ∈ l.peers d level := by
  rw [siblingsOf, mem_foldl_joinLevel]
  simp

/-- Children are listed in declaration order. -/
theorem children_sublist (l : Layout) (id : DeviceId) : (l.children id).Sublist l.ids :=
  List.filter_sublist.map _

theorem peers_sublist (l : Layout) (d : Device) (level : String) :
    (l.peers d level).Sublist l.ids :=
  List.filter_sublist.map _

theorem branches_subset_ids (l : Layout) (id : DeviceId) : l.branches id ⊆ l.ids := by
  intro o h
  rcases List.mem_append.mp h with h | h
  · exact (l.children_sublist id).subset h
  · unfold siblings at h
    cases hd : l.device? id with
    | none => simp [hd] at h
    | some d =>
      simp only [hd, Option.map_some, Option.getD_some] at h
      obtain ⟨level, _, _, ho⟩ := mem_siblingsOf.mp h
      exact (l.peers_sublist d level).subset ho

/-! ## Links -/

/-- The link between adjacent devices. A parent goes before a child, a child before a sibling. -/
def link? (l : Layout) (start goal : DeviceId) : Option Link :=
  (l.device? start).bind fun d =>
    if d.parent = some goal then some ⟨.uplink, d.uplinkLatency⟩
    else match (l.childDevices start).find? fun c => c.id == goal with
      | some c => some ⟨.downlink, c.uplinkLatency⟩
      | none =>
        if (l.siblingsOf d).contains goal then some ⟨.cluster, l.clusterLatency⟩ else none

theorem link?_parent {l : Layout} {id p : DeviceId} {d : Device} (h : l.device? id = some d)
    (hp : d.parent = some p) : l.link? id p = some ⟨.uplink, d.uplinkLatency⟩ := by
  simp [link?, h, hp]

/-! ## Chains of parents -/

/-- The device and its ancestors, at most `steps` of them. -/
def climb (l : Layout) : (steps : Nat) → DeviceId → List Device
  | 0, id => (l.device? id).toList
  | steps + 1, id =>
    match l.device? id with
    | none => []
    | some d =>
      d :: match d.parent with
        | none => []
        | some p => l.climb steps p

/-- The device and all its ancestors, lowest first; long enough wherever parents form no cycle. -/
def chain (l : Layout) (id : DeviceId) : List Device := l.climb l.devices.length id

/-- The top of the tree that a device stands in. -/
def top? (l : Layout) (id : DeviceId) : Option Device := (l.chain id).getLast?

end Layout

end FogNet
