import FogNet.Topology.Layout
import FogNet.Remaining
import FogNet.Sum

/-!
# Orchestration: who places for whom

A device is orchestrated by the nearest orchestrating device on its chain of parents. An
orchestrating device may place on its domain, which is all it reaches over child and cluster links,
and works along the paths from the leaves below it up to itself.

## Termination

Both searches only go on to devices that they have not met, and `remaining` counts those. For a
domain, a device that is left adds as many to do as it takes from the remaining ones. For the paths,
devices count as met along one way down only, so a device that is expanded may add many, but each of
them has fewer to go to: `weight` outgrows their number.

## Main statements

* `mem_fresh`, `fresh_nodup` — what a search of a domain goes on to
* `expand_eq` — the children of a device come to lie on the stack in their order
* `weight_expand` — which makes the stack lighter
-/

namespace FogNet

namespace Layout

/-- The nearest orchestrating device at or above a device. -/
def orchestratorFor (l : Layout) (id : DeviceId) : Option DeviceId :=
  ((l.chain id).find? fun d => d.role.orchestrates).map Device.id

/-! ## Domains -/

/-- The branches of a device that are not met yet, each once. -/
def fresh (l : Layout) (met : List DeviceId) (id : DeviceId) : List DeviceId :=
  (l.branches id).eraseDups.filter fun d => !met.contains d

theorem mem_fresh {l : Layout} {met : List DeviceId} {id d : DeviceId} (h : d ∈ l.fresh met id) :
    d ∈ l.branches id ∧ d ∉ met := by
  simp only [fresh, List.mem_filter, List.mem_eraseDups] at h
  simpa using h

theorem fresh_nodup (l : Layout) (met : List DeviceId) (id : DeviceId) :
    (l.fresh met id).Nodup :=
  (nodup_eraseDups _).filter _

/-- Breadth-first search: the devices met, in order, when those in `todo` are still to be left. -/
def search (l : Layout) (met todo : List DeviceId) : List DeviceId :=
  match todo with
  | [] => met
  | id :: rest => l.search (met ++ l.fresh met id) (rest ++ l.fresh met id)
termination_by remaining l.ids met + todo.length
decreasing_by
  have hle := remaining_append_le (l.fresh_nodup met id) fun d hd =>
    ⟨l.branches_subset_ids id (mem_fresh hd).1, (mem_fresh hd).2⟩
  rw [List.length_append, List.length_cons]
  omega

/-- What a device reaches over child and cluster links, itself first. -/
def domain (l : Layout) (root : DeviceId) : List DeviceId :=
  if l.contains root then l.search [root] [root] else []

/-! ## Paths from the leaves -/

/-- The children of a device that are not on a path yet. -/
def childrenOff (l : Layout) (id : DeviceId) (path : List DeviceId) : List DeviceId :=
  (l.children id).filter fun c => !path.contains c

/-- A device that is still to be expanded, at the end of the way down to it. -/
structure Descent where
  device : DeviceId
  down : List DeviceId

/-- The path from the device up to the root. -/
def Descent.path (d : Descent) : List DeviceId := d.down.reverse

/-- Puts a child on the stack, unless the way down leads over it already. -/
def push (down : List DeviceId) (stack : List Descent) (c : DeviceId) : List Descent :=
  if down.contains c then stack else ⟨c, down ++ [c]⟩ :: stack

/-- Puts the children of a device on the stack, the last one first: the first one is on top. -/
def expand (l : Layout) (d : Descent) (stack : List Descent) : List Descent :=
  (l.children d.device).reverse.foldl (push d.down) stack

theorem expand_eq (l : Layout) (d : Descent) (stack : List Descent) :
    l.expand d stack =
      (l.childrenOff d.device d.down).map (fun c => ⟨c, d.down ++ [c]⟩) ++ stack := by
  unfold expand childrenOff
  rw [List.foldl_reverse]
  induction l.children d.device with
  | nil => rfl
  | cons c cs ih =>
    rw [List.foldr_cons, ih, push]
    by_cases hc : c ∈ d.down <;> simp [hc]

/-- More than all that can be on the stack in the place of one device after it is expanded. -/
def weight (l : Layout) (d : Descent) : Nat :=
  Nat.pow (l.devices.length + 1) (remaining l.ids d.down)

theorem weight_pos (l : Layout) (d : Descent) : 0 < l.weight d :=
  Nat.pow_pos (Nat.succ_pos _)

/-- A child that the way down does not lead over leaves fewer devices to go to. -/
theorem weight_child (l : Layout) {d : Descent} {c : DeviceId}
    (hc : c ∈ l.childrenOff d.device d.down) :
    (l.devices.length + 1) * l.weight ⟨c, d.down ++ [c]⟩ ≤ l.weight d := by
  simp only [childrenOff, List.mem_filter, Bool.not_eq_eq_eq_not, Bool.not_true,
    List.contains_eq_mem, decide_eq_false_iff_not] at hc
  have hlt : remaining l.ids (d.down ++ [c]) < remaining l.ids d.down :=
    remaining_lt (List.subset_append_left _ _) ((l.children_sublist _).subset hc.1) hc.2
      (List.mem_append_right _ List.mem_cons_self)
  have hpow : (l.devices.length + 1) * l.weight ⟨c, d.down ++ [c]⟩ =
      Nat.pow (l.devices.length + 1) (remaining l.ids (d.down ++ [c]) + 1) := Nat.mul_comm _ _
  rw [hpow]
  exact Nat.pow_le_pow_right (Nat.succ_pos _) hlt

/-- Expanding a device makes the stack lighter. -/
theorem weight_expand (l : Layout) (d : Descent) (stack : List Descent) :
    sumOf ((l.expand d stack).map l.weight) < l.weight d + sumOf (stack.map l.weight) := by
  have hfew : (l.childrenOff d.device d.down).length ≤ l.devices.length := by
    refine Nat.le_trans (List.length_filter_le _ _) ?_
    rw [children, List.length_map]
    exact List.length_filter_le _ _
  have hsum := mul_sumOf_map_le (f := fun c => l.weight ⟨c, d.down ++ [c]⟩) fun _ => l.weight_child
  have hlt : (l.devices.length + 1) * sumOf ((l.childrenOff d.device d.down).map
      fun c => l.weight ⟨c, d.down ++ [c]⟩) < (l.devices.length + 1) * l.weight d := by
    refine Nat.lt_of_le_of_lt (Nat.le_trans hsum (Nat.mul_le_mul_right _ hfew)) ?_
    rw [Nat.succ_mul]
    exact Nat.lt_add_of_pos_right (l.weight_pos d)
  rw [expand_eq, List.map_append, List.map_map, sumOf_append]
  exact Nat.add_lt_add_right (Nat.lt_of_mul_lt_mul_left hlt) _

/-- Depth-first search: the paths found so far, then those over what is on the stack. -/
def collect (l : Layout) (found : List (List DeviceId)) (stack : List Descent) :
    List (List DeviceId) :=
  match stack with
  | [] => found
  | d :: rest =>
    if (l.children d.device).isEmpty then l.collect (found ++ [d.path]) rest
    else l.collect found (l.expand d rest)
termination_by sumOf (stack.map l.weight)
decreasing_by
  · exact Nat.lt_add_of_pos_left (l.weight_pos d)
  · exact l.weight_expand d rest

/-- Every path from a leaf below a device up to it, leaf first, children in declaration order. -/
def leafPaths (l : Layout) (root : DeviceId) : List (List DeviceId) :=
  if l.contains root then l.collect [] [⟨root, [root]⟩] else []

end Layout

end FogNet
