import FogNet.Application
import FogNet.Placement.Request
import FogNet.Sum
import FogNet.Topology.Device
import FogNet.Word

/-!
# The books of placement

An orchestrator keeps a snapshot of what its devices have left. While one batch of requests is
placed, a ledger notes for each device the CPU that the batch has taken so far and the slots it was
taken for. Committing the ledger to the snapshot makes the decisions final.

All sums of CPU are kept in words, so whether something fits is decided by what a word keeps of
them. No carry is lost in a batch if applications agree and all that its requests need together fits
a word (`PlacementSetting.Accountable.cost_lt`).

## Main statements

* `get?_commit`, `freeCpu_commit` — what a device has left after a commit
* `slots_without`, `mem_taken` — taking microservices off a device splits its slots
* `load_without_le` — and it never adds to the load
-/

namespace FogNet

/-! ## Snapshots -/

/-- What the devices of a domain have left. -/
abbrev Snapshot := SortedMap DeviceId Resources

namespace Snapshot

/-- The free CPU of a device, zero for one that is not in the snapshot. -/
def freeCpu (s : Snapshot) (device : DeviceId) : Nat :=
  wrap (((s.get? device).map Resources.cpuMips).getD 0)

/-- Takes CPU from a device, at most what it has. -/
def consume (s : Snapshot) (device : DeviceId) (mips : Nat) : Snapshot :=
  s.modify device fun r => { r with cpuMips := r.cpuMips - mips }

theorem freeCpu_lt (s : Snapshot) (device : DeviceId) : s.freeCpu device < UInt64.size :=
  wrap_lt _

theorem get?_consume (s : Snapshot) (device other : DeviceId) (mips : Nat) :
    (s.consume device mips).get? other
      = if other = device then (s.get? other).map fun r => { r with cpuMips := r.cpuMips - mips }
        else s.get? other := by
  rw [consume, SortedMap.get?_modify]

end Snapshot

/-! ## Holdings -/

/-- What a batch has put on one device so far. -/
structure Holding where
  /-- The CPU taken, of which a word is kept. -/
  load : Nat := 0
  slots : List Slot := []
  deriving DecidableEq, Repr, Inhabited

namespace Holding

/-- Whether some slot is for the microservice. -/
def hosts (h : Holding) (name : Name) : Bool := h.slots.any fun s => s.microservice == name

/-- How many slots are for the microservice. -/
def count (h : Holding) (name : Name) : Nat := h.slots.countP fun s => s.microservice == name

def add (h : Holding) (slot : Slot) (mips : Nat) : Holding :=
  { load := wrap (h.load + mips), slots := h.slots ++ [slot] }

/-- The slots for any of these microservices. -/
def taken (h : Holding) (names : List Name) : List Slot :=
  h.slots.filter fun s => names.contains s.microservice

/-- The CPU that slots take, by an application's demand for each of their microservices. -/
def demand (app : Application) (slots : List Slot) : Nat :=
  wrap (sumOf (slots.map fun s => app.mipsOf s.microservice))

/-- The holding with some of its slots gone, and with their CPU, as far as it was taken. -/
def keep (app : Application) (p : Slot → Bool) (h : Holding) : Holding :=
  { load := h.load - demand app (h.slots.filter fun s => !p s), slots := h.slots.filter p }

/-- The holding without the slots for these microservices, which go one after the other. -/
def without (app : Application) (names : List Name) (h : Holding) : Holding :=
  names.foldl (fun h n => h.keep app fun s => s.microservice != n) h

/-- The holding without the slots of a request. -/
def withoutRequest (app : Application) (request : RequestId) (h : Holding) : Holding :=
  h.keep app fun s => s.request != request

theorem mem_taken {h : Holding} {names : List Name} {s : Slot} :
    s ∈ h.taken names ↔ s ∈ h.slots ∧ s.microservice ∈ names := by
  simp [taken, List.mem_filter]

theorem slots_without (app : Application) : ∀ (names : List Name) (h : Holding),
    (h.without app names).slots = h.slots.filter fun s => !names.contains s.microservice
  | [], h => (List.filter_eq_self.mpr fun _ _ => rfl).symm
  | n :: names, h => by
    rw [without, List.foldl_cons, ← without, slots_without app names, keep, List.filter_filter]
    refine List.filter_congr fun s _ => ?_
    rw [List.contains_cons, Bool.not_or, Bool.and_comm]
    rfl

theorem mem_without {app : Application} {h : Holding} {names : List Name} {s : Slot} :
    s ∈ (h.without app names).slots ↔ s ∈ h.slots ∧ s.microservice ∉ names := by
  simp [slots_without, List.mem_filter]

theorem load_without_le (app : Application) : ∀ (names : List Name) (h : Holding),
    (h.without app names).load ≤ h.load
  | [], _ => Nat.le_refl _
  | _ :: names, _ => Nat.le_trans (load_without_le app names _) (Nat.sub_le _ _)

end Holding

/-! ## Ledgers -/

/-- The holdings of the devices that a batch may be placed on. -/
abbrev Ledger := SortedMap DeviceId Holding

namespace Ledger

/-- The ledger of a domain before anything is placed. -/
def start (domain : List DeviceId) : Ledger := SortedMap.ofList (domain.map fun d => (d, {}))

def holding (l : Ledger) (device : DeviceId) : Holding := (l.get? device).getD {}

/-- The CPU that the batch has taken on a device. -/
def load (l : Ledger) (device : DeviceId) : Nat := (l.holding device).load

def hosts (l : Ledger) (device : DeviceId) (name : Name) : Bool := (l.holding device).hosts name

/-- How many slots of a device are for a microservice. -/
def count (l : Ledger) (device : DeviceId) (name : Name) : Nat := (l.holding device).count name

/-- The first device of a path that hosts a microservice. -/
def hostOn (l : Ledger) (path : List DeviceId) (name : Name) : Option DeviceId :=
  path.find? fun d => l.hosts d name

def add (l : Ledger) (device : DeviceId) (slot : Slot) (mips : Nat) : Ledger :=
  l.insert device ((l.holding device).add slot mips)

/-- Whether some device holds a slot of a request for a microservice. -/
def serves (l : Ledger) (request : RequestId) (name : Name) : Bool :=
  l.values.any fun h => h.slots.any fun s => s.microservice == name && s.request == request

/-- The ledger without the slots of a request. -/
def rollback (app : Application) (request : RequestId) (l : Ledger) : Ledger :=
  l.mapValues fun _ h => h.withoutRequest app request

/-- Every slot with its device, by device. -/
def placements (l : Ledger) : List (DeviceId × Slot) :=
  l.entries.flatMap fun e => e.2.slots.map fun s => (e.1, s)

/-- Notes a slot in the assignment of its request, if the request is among those assigned. -/
def assign (p : Placement) (e : DeviceId × Slot) : Placement :=
  p.modify e.2.request fun a => a.insert e.2.microservice e.1

/--
The assignments of the complete requests; of two slots on different devices the higher stands.
-/
def assemble (l : Ledger) (complete : List RequestId) : Placement :=
  l.placements.foldl assign (SortedMap.ofList (complete.map fun r => (r, SortedMap.empty)))

/-- Takes the CPU of every holding from the snapshot. -/
def commit (l : Ledger) (s : Snapshot) : Snapshot :=
  l.entries.foldl (fun s e => s.consume e.1 e.2.load) s

theorem get?_foldl_consume (device : DeviceId) :
    ∀ (entries : List (DeviceId × Holding)) (s : Snapshot), (entries.map Prod.fst).Nodup →
      (entries.foldl (fun s e => s.consume e.1 e.2.load) s).get? device
        = (s.get? device).map fun r =>
          { r with cpuMips := r.cpuMips - ((SortedMap.lookup device entries).getD {}).load }
  | [], s, _ => by simp [SortedMap.lookup]
  | e :: entries, s, hn => by
    rw [List.map_cons, List.nodup_cons] at hn
    rw [List.foldl_cons, get?_foldl_consume device entries _ hn.2, Snapshot.get?_consume]
    by_cases he : e.1 = device
    · -- No later entry is for this device.
      have hlast : SortedMap.lookup device entries = none := by
        refine Option.eq_none_iff_forall_not_mem.mpr fun v hv => hn.1 ?_
        exact List.mem_map.mpr ⟨(device, v), SortedMap.mem_of_lookup hv, he.symm⟩
      rw [if_pos he.symm, hlast]
      simp [SortedMap.lookup, he, Function.comp_def]
    · rw [if_neg (Ne.symm he)]
      simp [SortedMap.lookup, he]

/-- A commit takes from a device the CPU that the ledger notes for it, and nothing else. -/
theorem get?_commit (l : Ledger) (s : Snapshot) (device : DeviceId) :
    (l.commit s).get? device
      = (s.get? device).map fun r => { r with cpuMips := r.cpuMips - l.load device } :=
  get?_foldl_consume device l.entries s l.keys_nodup

/-- A ledger without any load takes nothing. -/
theorem commit_of_no_load {l : Ledger} {s : Snapshot} (h : ∀ d, l.load d = 0) :
    l.commit s = s := by
  refine SortedMap.ext_get? fun d => ?_
  rw [get?_commit, h d]
  simp

/-- What a device has left after a commit, if the batch has taken no more than there was. -/
theorem freeCpu_commit {l : Ledger} {s : Snapshot} {device : DeviceId}
    (h : l.load device ≤ s.freeCpu device) :
    (l.commit s).freeCpu device = s.freeCpu device - l.load device := by
  rw [Snapshot.freeCpu] at h
  rw [Snapshot.freeCpu, get?_commit, Snapshot.freeCpu, ← wrap_sub h]
  cases s.get? device <;> simp

end Ledger

end FogNet
