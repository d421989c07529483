import FogNet.Deployment
import FogNet.Proofs.Entries
import FogNet.Proofs.Folds
import Mathlib.Data.List.Range

/-!
# Launches

A device registers client modules, activates applications, marks them as ready and launches
instances, in any order. No instance is ever given up or renumbered: instances are numbered in the
order of their launches, each stands in the list of its own microservice and in no other, and what
was chosen once is chosen ever after. The client module of an application is registered once; it
then waits for its launch, and stays launched.

The lists are read off the launches. They may as well be kept launch by launch, in a roster: as long
as 32 bits are enough to number the instances, these lists are the same.

## Main statements

* `launches_run`, `launched_eq` — what calls launch, and how it is numbered
* `mem_instancesOf_iff` — whose list an instance stands in
* `select_run` — a choice stands
* `Stands.step` — what a call does to the client module of an application
* `Roster.Keeps.run` — a roster that is kept launch by launch
* `launches_accounted` — what there is after any calls
-/

namespace FogNet

namespace Deployment

/-! ## Calls -/

/-- What a device is called for. -/
inductive Call where
  | register (app : AppId) (module : Name)
  | activate (app : AppId)
  | markReady (app : AppId)
  | launch (app : AppId) (microservice : Name)
  deriving DecidableEq

/-- The microservice that a call launches an instance of, if it launches one. -/
def Call.launch? : Call → Option (AppId × Name)
  | .launch app microservice => some (app, microservice)
  | _ => none

/-- What is deployed after a call. A registration that is refused changes nothing. -/
def step (d : Deployment) : Call → Deployment
  | .register app module => (d.registerClient app module).toOption.getD d
  | .activate app => d.activate app
  | .markReady app => d.markReady app
  | .launch app microservice => d.launch app microservice

def run (d : Deployment) (calls : List Call) : Deployment := calls.foldl step d

/-- The instances that calls launch, in order. -/
def launched : Deployment → List Call → List InstanceId
  | _, [] => []
  | d, c :: calls => (c.launch?.map fun _ => d.nextInstance).toList ++ launched (d.step c) calls

variable {d : Deployment} {app : AppId} {name : Name} {c : Call} {calls : List Call}

/-! ## Client modules -/

/-- Whether a client module of an application is registered here, or was launched as such. -/
def claims (d : Deployment) (app : AppId) : Bool :=
  d.pendingClients.contains app || d.launchedClients.contains app

theorem registerClient_eq (d : Deployment) (app : AppId) (module : Name) :
    d.registerClient app module = if d.claims app then .error (.duplicateClientModule d.device app)
      else .ok { d with pendingClients := d.pendingClients.insert app module } := rfl

theorem exists_registerClient_iff {module : Name} :
    (∃ d', d.registerClient app module = .ok d') ↔ d.claims app = false := by
  rw [registerClient_eq]
  cases d.claims app <;> simp

theorem step_register (d : Deployment) (app : AppId) (module : Name) :
    d.step (.register app module) = if d.claims app then d
      else { d with pendingClients := d.pendingClients.insert app module } := by
  rw [step, registerClient_eq]
  cases d.claims app <;> rfl

theorem claims_registerClient {d' : Deployment} {module : Name}
    (h : d.registerClient app module = .ok d') (app' : AppId) :
    d'.claims app' = true ↔ app' = app ∨ d.claims app' = true := by
  rw [registerClient_ok h]
  simp only [claims, SortedMap.contains_eq, SortedMap.get?_insert, Bool.or_eq_true]
  split
  · next happ => simp [happ]
  · next happ => simp [happ]

/-- The launch of a client module ends its wait. -/
theorem get?_pendingClients_launch (d : Deployment) (app : AppId) (name : Name) (app' : AppId) :
    (d.launch app name).pendingClients.get? app'
      = if app' = app ∧ d.pendingClients.get? app = some name then none
        else d.pendingClients.get? app' := by
  unfold launch
  by_cases hpending : d.pendingClients.get? app = some name
  · simp [hpending, SortedMap.get?_erase]
  · simp [hpending]

theorem mem_launchedClients_launch (d : Deployment) (app : AppId) (name : Name) (app' : AppId) :
    app' ∈ (d.launch app name).launchedClients
      ↔ app' ∈ d.launchedClients ∨ app' = app ∧ d.pendingClients.get? app = some name := by
  unfold launch
  by_cases hpending : d.pendingClients.get? app = some name
  · simp [hpending, or_comm]
  · simp [hpending]

/-- The launch of a client module is kept in mind. -/
theorem claims_launch (d : Deployment) (app : AppId) (name : Name) (app' : AppId) :
    (d.launch app name).claims app' = d.claims app' := by
  rw [Bool.eq_iff_iff]
  simp only [claims, SortedMap.contains_eq, get?_pendingClients_launch, Bool.or_eq_true,
    List.contains_iff_mem, mem_launchedClients_launch]
  by_cases hclient : app' = app ∧ d.pendingClients.get? app = some name
  · obtain ⟨rfl, hpending⟩ := hclient
    simp [hpending]
  · simp [hclient]

/--
How the client module of an application stands. An instance that was launched before the module was
registered is one of any microservice, and not the launch that the module waits for.
-/
inductive Standing where
  | absent
  | pending (module : Name)
  | launched
  deriving DecidableEq

/-- A module is registered once, it waits for its own launch, and nothing changes it afterwards. -/
def Standing.after (app : AppId) : Standing → Call → Standing
  | .absent, .register other module => if other = app then .pending module else .absent
  | .pending module, .launch other name =>
    if other = app ∧ name = module then .launched else .pending module
  | s, _ => s

/-- How the client module of an application stands after some calls. -/
def standing (app : AppId) (calls : List Call) : Standing :=
  calls.foldl (Standing.after app) .absent

/-- What a device knows of a client module that stands in a given way. -/
def Stands (d : Deployment) (app : AppId) : Standing → Prop
  | .absent => d.pendingClients.get? app = none ∧ app ∉ d.launchedClients
  | .pending module => d.pendingClients.get? app = some module ∧ app ∉ d.launchedClients
  | .launched => d.pendingClients.get? app = none ∧ app ∈ d.launchedClients

theorem Stands.claims_iff {s : Standing} (h : d.Stands app s) :
    d.claims app = false ↔ s = .absent := by
  cases s with
  | absent => simp [claims, SortedMap.contains_eq, h.1, h.2]
  | pending module => simp [claims, SortedMap.contains_eq, h.1]
  | launched => simp [claims, h.2]

theorem Stands.not_both {s : Standing} (h : d.Stands app s) :
    ¬ (d.pendingClients.contains app = true ∧ app ∈ d.launchedClients) := by
  rintro ⟨hpending, hlaunched⟩
  cases s with
  | absent => exact h.2 hlaunched
  | pending module => exact h.2 hlaunched
  | launched =>
    rw [SortedMap.contains_eq, h.1] at hpending
    cases hpending

theorem Stands.register {s : Standing} (h : d.Stands app s) (other : AppId) (module : Name) :
    (d.step (.register other module)).Stands app (s.after app (.register other module)) := by
  rw [step_register]
  by_cases happ : other = app
  · subst happ
    have hclaims := h.claims_iff
    cases s with
    | absent =>
      rw [if_neg (by simp [hclaims.mpr rfl]), Standing.after, if_pos rfl]
      exact ⟨SortedMap.get?_insert_self _ _ _, h.2⟩
    | pending module' =>
      rw [if_pos (by simpa using hclaims)]
      exact h
    | launched =>
      rw [if_pos (by simpa using hclaims)]
      exact h
  · have hafter : s.after app (.register other module) = s := by
      cases s <;> simp [Standing.after, happ]
    have hget : ∀ m : SortedMap AppId Name, (m.insert other module).get? app = m.get? app :=
      fun m => m.get?_insert_ne _ (Ne.symm happ)
    rw [hafter]
    split
    · exact h
    · cases s <;> exact ⟨(hget _).trans h.1, h.2⟩

theorem Stands.launch {s : Standing} (h : d.Stands app s) (other : AppId) (name : Name) :
    (d.step (.launch other name)).Stands app (s.after app (.launch other name)) := by
  have hget := d.get?_pendingClients_launch other name app
  have hmem := d.mem_launchedClients_launch other name app
  by_cases hclient : app = other ∧ d.pendingClients.get? other = some name
  · rw [if_pos hclient] at hget
    obtain ⟨rfl, hpending⟩ := hclient
    -- Only a module that is pending can be the one that this launch ends the wait of.
    cases s with
    | absent => cases h.1.symm.trans hpending
    | pending module =>
      obtain rfl := Option.some.inj (h.1.symm.trans hpending)
      rw [Standing.after, if_pos ⟨rfl, rfl⟩]
      exact ⟨hget, hmem.mpr (.inr ⟨rfl, hpending⟩)⟩
    | launched => cases h.1.symm.trans hpending
  · rw [if_neg hclient] at hget
    have hkept : app ∈ (d.launch other name).launchedClients ↔ app ∈ d.launchedClients :=
      hmem.trans (or_iff_left hclient)
    cases s with
    | absent => exact ⟨hget.trans h.1, mt hkept.mp h.2⟩
    | pending module =>
      have hother : ¬ (other = app ∧ name = module) := by
        rintro ⟨rfl, rfl⟩
        exact hclient ⟨rfl, h.1⟩
      rw [Standing.after, if_neg hother]
      exact ⟨hget.trans h.1, mt hkept.mp h.2⟩
    | launched => exact ⟨hget.trans h.1, hkept.mpr h.2⟩

/-- What a call does to the client module of an application. -/
theorem Stands.step {s : Standing} (h : d.Stands app s) (c : Call) :
    (d.step c).Stands app (s.after app c) := by
  cases c with
  | register other module => exact h.register other module
  | activate other => cases s <;> exact h
  | markReady other => cases s <;> exact h
  | launch other name => exact h.launch other name

theorem Stands.run {s : Standing} (h : d.Stands app s) (calls : List Call) :
    (d.run calls).Stands app (calls.foldl (Standing.after app) s) := by
  induction calls generalizing d s with
  | nil => exact h
  | cons c calls ih => exact ih (h.step c)

theorem Standing.after_eq_absent_iff {s : Standing} :
    s.after app c = .absent ↔ s = .absent ∧ ∀ module, c ≠ .register app module := by
  cases s with
  | absent =>
    cases c with
    | register other module => by_cases happ : other = app <;> simp [after, happ]
    | activate other => simp [after]
    | markReady other => simp [after]
    | launch other name => simp [after]
  | pending module =>
    have hafter : after app (.pending module) c ≠ .absent := by
      unfold after
      split
      · next h => cases h
      · split <;> simp
      · simp
    simp [hafter]
  | launched => simp [after]

/-- An application without a client module is one for which none was registered. -/
theorem foldl_after_eq_absent_iff {s : Standing} : calls.foldl (Standing.after app) s = .absent
    ↔ s = .absent ∧ ∀ module, .register app module ∉ calls := by
  induction calls generalizing s with
  | nil => simp
  | cons c calls ih =>
    rw [List.foldl_cons, ih, Standing.after_eq_absent_iff, and_assoc]
    simp only [List.mem_cons, not_or, forall_and, ne_comm]

theorem standing_eq_absent_iff :
    standing app calls = .absent ↔ ∀ module, .register app module ∉ calls :=
  foldl_after_eq_absent_iff.trans (and_iff_right rfl)

/-! ## Instances -/

theorem step_launches (d : Deployment) (c : Call) :
    (d.step c).launches = d.launches ++ c.launch?.toList := by
  cases c with
  | register app module =>
    rw [step_register]
    split <;> exact (List.append_nil _).symm
  | activate app => exact (List.append_nil _).symm
  | markReady app => exact (List.append_nil _).symm
  | launch app name => exact d.launches_launch app name

theorem step_device (d : Deployment) (c : Call) : (d.step c).device = d.device := by
  cases c with
  | register app module =>
    rw [step_register]
    split <;> rfl
  | activate app => rfl
  | markReady app => rfl
  | launch app name => exact d.device_launch app name

/-- What was launched by any calls. -/
theorem launches_run (d : Deployment) (calls : List Call) :
    (d.run calls).launches = d.launches ++ calls.filterMap Call.launch? := by
  induction calls generalizing d with
  | nil => exact (List.append_nil _).symm
  | cons c calls ih =>
    calc ((d.step c).run calls).launches
        = d.launches ++ (c.launch?.toList ++ calls.filterMap Call.launch?) := by
          rw [ih, step_launches, List.append_assoc]
      _ = d.launches ++ (c :: calls).filterMap Call.launch? := by
          rw [List.filterMap_cons]
          cases c.launch? <;> rfl

theorem device_run (d : Deployment) (calls : List Call) : (d.run calls).device = d.device := by
  induction calls generalizing d with
  | nil => rfl
  | cons c calls ih => exact (ih _).trans (d.step_device c)

/-- Instances are numbered in the order of their launches. -/
theorem launched_eq (d : Deployment) (calls : List Call) : launched d calls
    = (List.range' d.launches.length (calls.filterMap Call.launch?).length).map fun i =>
        ⟨d.device, i⟩ := by
  induction calls generalizing d with
  | nil => rfl
  | cons c calls ih =>
    rw [launched, ih, step_device, step_launches, List.filterMap_cons]
    cases c.launch? with
    | none => simp
    | some l => simp [nextInstance, List.range'_succ]

/-- An instance stands in the list of the microservice that was launched under its number. -/
theorem mem_instancesOf_iff {p : InstanceId} : p ∈ d.instancesOf app name
    ↔ p.device = d.device ∧ d.launches[p.serial]? = some (app, name) := by
  simp only [instancesOf, List.mem_map, List.mem_filter, beq_iff_eq, List.mem_zipIdx_iff_getElem?]
  constructor
  · rintro ⟨⟨l, i⟩, ⟨hl, rfl⟩, rfl⟩
    exact ⟨rfl, hl⟩
  · rintro ⟨hdevice, hl⟩
    exact ⟨((app, name), p.serial), ⟨hl, rfl⟩, by rw [← hdevice]⟩

theorem instancesOf_pairwise (d : Deployment) (app : AppId) (name : Name) :
    (d.instancesOf app name).Pairwise fun p q => p.serial < q.serial := by
  have hserials : d.launches.zipIdx.Pairwise fun l l' => l.2 < l'.2 := by
    rw [← List.pairwise_map (f := Prod.snd), List.zipIdx_map_snd]
    exact List.pairwise_lt_range'
  rw [instancesOf, List.pairwise_map]
  exact hserials.filter _

theorem length_instancesOf (d : Deployment) (app : AppId) (name : Name) :
    (d.instancesOf app name).length = d.launches.count (app, name) := by
  rw [instancesOf, List.length_map, ← List.countP_eq_length_filter, List.count]
  conv_rhs => rw [← List.zipIdx_map_fst 0 d.launches, List.countP_map]
  rfl

/-- No instance leaves its list, and later ones come behind it. -/
theorem instancesOf_run_prefix (d : Deployment) (calls : List Call) (app : AppId) (name : Name) :
    d.instancesOf app name <+: (d.run calls).instancesOf app name := by
  rw [instancesOf, instancesOf, launches_run, device_run, List.zipIdx_append, List.filter_append,
    List.map_append]
  exact List.prefix_append _ _

/-! ## Choices -/

/-- A choice stands, whether it is made again or asked for by name. -/
theorem select_run {pin : Option InstanceId} {chosen : InstanceId}
    (h : d.select app name pin = .ok chosen) (calls : List Call) :
    (d.run calls).select app name pin = .ok chosen
      ∧ (d.run calls).select app name (some chosen) = .ok chosen := by
  have hprefix := d.instancesOf_run_prefix calls app name
  have hpinned : (d.run calls).select app name (some chosen) = .ok chosen :=
    select_pin.mpr ⟨rfl, hprefix.subset (select_mem h)⟩
  refine ⟨?_, hpinned⟩
  cases pin with
  | some pinned =>
    obtain ⟨rfl, _⟩ := select_pin.mp h
    exact hpinned
  | none =>
    -- Without a pin the first of the list is chosen, and what comes later comes behind it.
    obtain ⟨more, hmore⟩ := hprefix
    unfold select at h ⊢
    cases hl : d.instancesOf app name with
    | nil => simp [hl] at h
    | cons first rest =>
      rw [hl] at hmore h
      rw [← hmore]
      exact h

/-! ## Numbers of instances -/

theorem tally_eq (d : Deployment) : d.tally = d.launches.foldl
    (fun t l => Table.change t l 0 fun n => n + 1) SortedMap.empty := rfl

theorem cell?_tally (d : Deployment) (l : AppId × Name) : Table.cell? d.tally l
    = if d.launches.count l = 0 then none else some (d.launches.count l) := by
  rw [tally_eq]
  refine foldl_rule (I := fun before t => ∀ l, Table.cell? t l
    = if before.count l = 0 then none else some (before.count l)) (fun _ => rfl) ?_ l
  intro before a _ t _ ih l
  rw [Table.cell?_change, ih, ih, List.count_append, List.count_singleton]
  by_cases hl : l = a
  · subst hl
    by_cases hzero : before.count l = 0 <;> simp [hzero]
  · simp [hl, Ne.symm hl]

theorem total_tally (d : Deployment) : Table.total id d.tally = d.launches.length := by
  rw [tally_eq]
  refine foldl_rule (I := fun before t => Table.total id t = before.length) rfl ?_
  intro before a _ t _ ih
  rw [Table.total_change (g := id) (f := fun n => n + 1) rfl (fun _ => rfl), ih,
    List.length_append, List.length_singleton]

theorem mem_placements_iff_cell? {n : Nat} :
    (app, name, n) ∈ d.placements ↔ Table.cell? d.tally (app, name) = some n := by
  simp only [placements, List.mem_flatMap, List.mem_map, Table.cell?, Option.bind_eq_some_iff]
  constructor
  · rintro ⟨⟨app', names⟩, hrow, ⟨name', n'⟩, hcell, h⟩
    obtain ⟨rfl, rfl, rfl⟩ : app' = app ∧ name' = name ∧ n' = n := by simpa using h
    exact ⟨names, (SortedMap.mem_entries_iff _ _ _).mp hrow,
      (SortedMap.mem_entries_iff _ _ _).mp hcell⟩
  · rintro ⟨names, hrow, hcell⟩
    exact ⟨(app, names), (SortedMap.mem_entries_iff _ _ _).mpr hrow, (name, n),
      (SortedMap.mem_entries_iff _ _ _).mpr hcell, rfl⟩

/-- A microservice is listed with the length of its list, unless that is empty. -/
theorem mem_placements_iff {n : Nat} :
    (app, name, n) ∈ d.placements ↔ 0 < n ∧ n = (d.instancesOf app name).length := by
  rw [mem_placements_iff_cell?, cell?_tally, length_instancesOf]
  split <;> simp <;> omega

theorem sumOf_placements (d : Deployment) :
    sumOf (d.placements.map fun p => p.2.2) = d.launches.length := by
  rw [← total_tally, placements, List.map_flatMap, sumOf_flatMap, Table.total]
  simp only [List.map_map]
  rfl

end Deployment

/-! ## Rosters -/

/-- Who runs on a device, with a list for each microservice and a number for the next instance. -/
structure Roster where
  device : DeviceId
  lists : Table (List InstanceId) := SortedMap.empty
  next : UInt32 := 0

namespace Roster

open Deployment (Call)

def nextInstance (r : Roster) : InstanceId := ⟨r.device, r.next.toNat⟩

/-- Puts the next instance at the end of the list of its microservice. -/
def enter (r : Roster) (l : AppId × Name) : Roster :=
  { r with lists := r.lists.change l [] fun list => list ++ [r.nextInstance], next := r.next + 1 }

def instancesOf (r : Roster) (app : AppId) (name : Name) : List InstanceId :=
  (r.lists.cell? (app, name)).getD []

/-- The number of instances on all lists. -/
def instanceCount (r : Roster) : Nat := r.lists.total List.length

/-- Only a launch changes a roster. -/
def step (r : Roster) (c : Call) : Roster := c.launch?.elim r r.enter

def run (r : Roster) (calls : List Call) : Roster := calls.foldl step r

/-- The instances that calls launch, as the roster numbers them. -/
def launched : Roster → List Call → List InstanceId
  | _, [] => []
  | r, c :: calls => (c.launch?.map fun _ => r.nextInstance).toList ++ launched (r.step c) calls

/-- A roster of what is deployed. -/
structure Keeps (r : Roster) (d : Deployment) : Prop where
  device : r.device = d.device
  next : r.next.toNat = d.launches.length
  lists : ∀ app name, r.instancesOf app name = d.instancesOf app name
  count : r.instanceCount = d.launches.length

variable {r : Roster} {d : Deployment}

theorem Keeps.nextInstance_eq (h : r.Keeps d) : r.nextInstance = d.nextInstance := by
  rw [nextInstance, Deployment.nextInstance, h.device, h.next]

/-- As long as there are numbers left, a launch is entered as it happens. -/
theorem Keeps.enter (h : r.Keeps d) (hfew : d.launches.length + 1 < UInt32.size) (app : AppId)
    (name : Name) : (r.enter (app, name)).Keeps (d.launch app name) where
  device := h.device.trans (d.device_launch app name).symm
  next := by
    rw [Deployment.launches_launch, List.length_append, List.length_singleton, ← h.next]
    rw [← h.next] at hfew
    exact (UInt32.toNat_add _ _).trans (Nat.mod_eq_of_lt hfew)
  lists app' name' := by
    rw [Deployment.instancesOf_launch, ← h.lists, ← h.nextInstance_eq]
    simp only [instancesOf, Roster.enter, Table.cell?_change]
    by_cases hl : (app, name) = (app', name')
    · rw [hl]
      simp
    · rw [if_neg hl, if_neg (Ne.symm hl), List.append_nil]
  count := by
    rw [Deployment.launches_launch, List.length_append, List.length_singleton, ← h.count]
    exact Table.total_change (g := List.length) rfl (fun _ => List.length_append) _ _

/-- A roster knows of nothing but launches. -/
theorem Keeps.congr (h : r.Keeps d) {d' : Deployment} (hdevice : d'.device = d.device)
    (hlaunches : d'.launches = d.launches) : r.Keeps d' where
  device := h.device.trans hdevice.symm
  next := by rw [h.next, hlaunches]
  lists app name := by
    rw [h.lists, Deployment.instancesOf, Deployment.instancesOf, hdevice, hlaunches]
  count := by rw [h.count, hlaunches]

theorem Keeps.step (h : r.Keeps d) (c : Call) (hfew : (d.step c).launches.length < UInt32.size) :
    (r.step c).Keeps (d.step c) := by
  have hdevice := d.step_device c
  have hlaunches := d.step_launches c
  cases c with
  | register app module => exact h.congr hdevice (hlaunches.trans (List.append_nil _))
  | activate app => exact h.congr hdevice (hlaunches.trans (List.append_nil _))
  | markReady app => exact h.congr hdevice (hlaunches.trans (List.append_nil _))
  | launch app name =>
    rw [hlaunches, List.length_append] at hfew
    exact h.enter hfew app name

theorem Keeps.run (h : r.Keeps d) {calls : List Call}
    (hfew : (d.run calls).launches.length < UInt32.size) :
    (r.run calls).Keeps (d.run calls) ∧ r.launched calls = d.launched calls := by
  induction calls generalizing r d with
  | nil => exact ⟨h, rfl⟩
  | cons c calls ih =>
    have hstep : (d.step c).launches.length < UInt32.size := by
      refine Nat.lt_of_le_of_lt ?_ hfew
      rw [Deployment.run, List.foldl_cons, ← Deployment.run, Deployment.launches_run,
        List.length_append]
      exact Nat.le_add_right _ _
    obtain ⟨hkeeps, hlaunched⟩ := ih (h.step c hstep) hfew
    refine ⟨hkeeps, ?_⟩
    rw [launched, Deployment.launched, hlaunched, h.nextInstance_eq]

end Roster

/-! ## Any calls -/

namespace Deployment

theorem stands_start (device : DeviceId) (app : AppId) : Stands { device } app .absent :=
  ⟨rfl, List.not_mem_nil⟩

/--
After any calls from the start, the instances that were launched have the numbers from zero on, in
order. An instance stands in the list of the microservice that was launched under its number and in
no other list, lists are in the order of the launches, and the lengths of the lists that are not
empty sum up to the number of launches. While 32 bits are enough to number the launches, lists that
are kept launch by launch are the same. A choice stands whatever is called afterwards, whether it is
made again or asked for by name. A client module of an application is absent until one is
registered, pending until this one is launched and launched from then on, so that none is both
pending and launched; and only the first registration for an application is accepted.
-/
theorem launches_accounted (device : DeviceId) (calls : List Call)
    (hfew : (calls.filterMap Call.launch?).length < UInt32.size) :
    let launches := calls.filterMap Call.launch?
    let d := run { device } calls
    let roster := Roster.run { device } calls
    launched { device } calls = (List.range launches.length).map (fun i => ⟨device, i⟩) ∧
    (∀ p app name, p ∈ d.instancesOf app name ↔
      p.device = device ∧ launches[p.serial]? = some (app, name)) ∧
    (∀ app name, (d.instancesOf app name).Pairwise fun p q => p.serial < q.serial) ∧
    d.instanceCount = launches.length ∧
    (∀ app name n, (app, name, n) ∈ d.placements ↔
      0 < n ∧ n = (d.instancesOf app name).length) ∧
    sumOf (d.placements.map fun p => p.2.2) = launches.length ∧
    (Roster.launched { device } calls = launched { device } calls ∧
      (∀ app name, roster.instancesOf app name = d.instancesOf app name) ∧
      roster.instanceCount = d.instanceCount) ∧
    (∀ app name pin chosen, d.select app name pin = .ok chosen → ∀ more,
      (d.run more).select app name pin = .ok chosen ∧
      (d.run more).select app name (some chosen) = .ok chosen) ∧
    ∀ app, d.Stands app (standing app calls) ∧
      ¬ (d.pendingClients.contains app = true ∧ app ∈ d.launchedClients) ∧
      ∀ module, (∃ d', d.registerClient app module = .ok d') ↔
        ∀ other, .register app other ∉ calls := by
  intro launches d roster
  have hlaunches : d.launches = launches := launches_run { device } calls
  have hdevice : d.device = device := device_run { device } calls
  have hstart : Roster.Keeps { device } { device } := ⟨rfl, rfl, fun _ _ => rfl, rfl⟩
  have hcount : d.launches.length < UInt32.size := by
    rw [hlaunches]
    exact hfew
  obtain ⟨hroster, hlaunched⟩ := hstart.run hcount
  refine ⟨?_, fun p app name => ?_, d.instancesOf_pairwise, congrArg List.length hlaunches,
    fun app name n => mem_placements_iff, d.sumOf_placements.trans (congrArg List.length hlaunches),
    ⟨hlaunched, hroster.lists, hroster.count⟩, fun _ _ _ _ h more => select_run h more,
    fun app => ?_⟩
  · rw [launched_eq, List.range_eq_range']
    rfl
  · rw [mem_instancesOf_iff, hlaunches, hdevice]
  · have hstands : d.Stands app (standing app calls) := (stands_start device app).run calls
    refine ⟨hstands, hstands.not_both, fun module => ?_⟩
    rw [exists_registerClient_iff, hstands.claims_iff, standing_eq_absent_iff]

/-- A namesake of the client module and another registration come in between. -/
theorem launches_accounted_namesakes :
    let calls : List Call := [.register "cam" "client", .launch "lamp" "client",
      .launch "cam" "svc", .register "cam" "svc"]
    let more : List Call := [.launch "cam" "client", .activate "cam", .launch "cam" "svc"]
    let d := run { device := 4 } calls
    (calls.filterMap Call.launch?).length < UInt32.size ∧
      launched { device := 4 } calls = [⟨4, 0⟩, ⟨4, 1⟩] ∧
      d.select "cam" "svc" none = .ok ⟨4, 1⟩ ∧
      (d.run more).select "cam" "svc" none = .ok ⟨4, 1⟩ ∧
      d.Stands "cam" (.pending "client") ∧ ¬ ∃ d', d.registerClient "cam" "svc" = .ok d' := by
  intro calls more d
  have hfew : (calls.filterMap Call.launch?).length < UInt32.size := by decide
  obtain ⟨hlaunched, _, _, _, _, _, _, hselect, hclients⟩ := launches_accounted 4 calls hfew
  have hchosen : d.select "cam" "svc" none = .ok ⟨4, 1⟩ := by decide +kernel
  obtain ⟨hstands, _, haccepted⟩ := hclients "cam"
  refine ⟨hfew, hlaunched, hchosen, (hselect _ _ _ _ hchosen more).1, ?_, fun hok => ?_⟩
  · exact hstands
  · exact (haccepted "svc").mp hok "client" List.mem_cons_self

end Deployment

end FogNet
