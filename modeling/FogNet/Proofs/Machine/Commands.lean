import FogNet.Proofs.Machine.Announcements
import FogNet.Proofs.Placement.Needs

/-!
# What a cycle commands

A cycle commands two kinds of things. A device that some request is given is told to activate the
application and that it is ready, and then to launch what the requests were given there, each
microservice as often as the application declares it and however many requests share it. And for
every edge going up into what a request was given, the device where the sender is learns of the
receiver. Such a device always exists, since placement waits for what feeds a microservice.

## Main statements

* `hostingEvents_deploy` — what a device is to do for an application
* `updates_deploy_perm` — who is told of what
* `exists_host?` — who is to be told exists
* `commands_of_tick` — what a cycle commands, and the timer after it
-/

namespace FogNet

open List (Perm)

/-! ## Lists -/

/-- Two searches through one another find the same. -/
theorem flatMap_comm_perm {α β γ : Type} (h : α → β → List γ) (l' : List β) : ∀ l : List α,
    (l.flatMap fun a => l'.flatMap fun b => h a b).Perm
      (l'.flatMap fun b => l.flatMap fun a => h a b)
  | [] => by simp
  | a :: l => by
    simp only [List.flatMap_cons]
    exact ((flatMap_comm_perm h l' l).append_left _).trans (List.flatMap_append_perm l' _ _)

/-- Of elements with keys of their own only the one with a given key counts. -/
theorem flatMap_ite_of_mem {α κ γ : Type} [DecidableEq κ] (key : α → κ) (g : α → List γ) :
    ∀ {l : List α} {a : α}, (l.map key).Nodup → a ∈ l →
      (l.flatMap fun x => if key x = key a then g x else []) = g a
  | x :: l, a, hn, ha => by
    rw [List.map_cons, List.nodup_cons] at hn
    rw [List.flatMap_cons]
    rcases List.mem_cons.mp ha with rfl | ha
    · have hrest : (l.flatMap fun x => if key x = key a then g x else []) = [] := by
        refine List.flatMap_eq_nil_iff.mpr fun y hy => if_neg fun he => hn.1 ?_
        exact List.mem_map.mpr ⟨y, hy, he⟩
      rw [if_pos rfl, hrest, List.append_nil]
    · have hne : key x ≠ key a := fun he => hn.1 (List.mem_map.mpr ⟨a, ha, he.symm⟩)
      rw [if_neg hne, List.nil_append]
      exact flatMap_ite_of_mem key g hn.2 ha

/-- Of the entries of a map only the one of a given key counts. -/
theorem SortedMap.flatMap_entries {κ ν γ : Type} [Ord κ] [Std.TransOrd κ] [Std.LawfulEqOrd κ]
    [DecidableEq κ] (m : SortedMap κ ν) (k : κ) (g : ν → List γ) :
    (m.entries.flatMap fun e => if e.1 = k then g e.2 else []) = (m.get? k).elim [] g := by
  cases hget : m.get? k with
  | none =>
    refine List.flatMap_eq_nil_iff.mpr fun e he => if_neg fun hk => ?_
    rw [← hk, (m.mem_entries_iff e.1 e.2).mp he] at hget
    cases hget
  | some v =>
    exact flatMap_ite_of_mem Prod.fst (fun e => g e.2) m.keys_nodup
      ((m.mem_entries_iff k v).mpr hget)

/-- Sorting by keys keeps all that has one of them. -/
theorem flatMap_filter_perm {α κ : Type} [DecidableEq κ] (key : α → κ) (l : List α) :
    ∀ {keys : List κ}, keys.Nodup →
      (keys.flatMap fun k => l.filter fun a => key a = k).Perm (l.filter fun a => key a ∈ keys)
  | [], _ => by simp
  | k :: keys, hn => by
    rw [List.nodup_cons] at hn
    have hsplit := List.filter_append_perm (fun a => decide (key a = k))
      (l.filter fun a => key a ∈ k :: keys)
    rw [List.filter_filter, List.filter_filter] at hsplit
    have hfirst : (l.filter fun a => decide (key a = k) && decide (key a ∈ k :: keys))
        = l.filter fun a => key a = k := by
      refine List.filter_congr fun a _ => ?_
      by_cases ha : key a = k <;> simp [ha]
    have hrest : (l.filter fun a => !decide (key a = k) && decide (key a ∈ k :: keys))
        = l.filter fun a => key a ∈ keys := by
      refine List.filter_congr fun a _ => ?_
      by_cases ha : key a = k
      · simp [ha, hn.1]
      · simp [ha]
    rw [hfirst, hrest] at hsplit
    exact ((flatMap_filter_perm key l hn.2).append_left _).trans hsplit

/-! ## Kinds of commands -/

/-- The application that an event prepares a device for, or launches an instance of. -/
def Event.hosted? : Event → Option AppId
  | .activateApplication app | .applicationReady app | .launchMicroservice app _ => some app
  | _ => none

namespace Action

/-- What a device is to do to host an application. -/
def hosting? (device : DeviceId) (app : AppId) : Action → Option Event
  | .deliver target event => if target = device ∧ event.hosted? = some app then some event else none
  | _ => none

/-- Who is told of an instance, the microservice that it runs and the device where it is. -/
def update? : Action → Option (DeviceId × Name × DeviceId)
  | .deliver target (.serviceDiscoveryUpdate microservice host) => some (target, microservice, host)
  | _ => none

end Action

namespace Orchestrator

variable {l : Layout} {net : Network} {apps : List Application} {root : DeviceId}
  {o o' : Orchestrator} {actions : List Action} {ds : List Decision} {pending : List Request}
  {p : Placement} {device : DeviceId} {app : Application} {r : Request} {n : Name}

/-- What a device is to do to host an application, in this order. -/
def hostingEvents (actions : List Action) (device : DeviceId) (app : AppId) : List Event :=
  actions.filterMap (Action.hosting? device app)

/-- Some request of an application is given a device for a microservice. -/
def Gives (pending : List Request) (p : Placement) (device : DeviceId) (app : AppId) (n : Name) :
    Prop :=
  ∃ r ∈ pending, r.app = app ∧ p.device? r.id n = some device

instance (pending : List Request) (p : Placement) (device : DeviceId) (app : AppId) (n : Name) :
    Decidable (Gives pending p device app n) :=
  inferInstanceAs (Decidable (∃ r ∈ pending, r.app = app ∧ p.device? r.id n = some device))

/-- Where a request has a microservice: brought along, or else given. -/
def host? (p : Placement) (r : Request) (n : Name) : Option DeviceId :=
  (r.placed.get? n).or (p.device? r.id n)

/-- The update that an edge calls for: the device of the sender learns where the receiver is. -/
def updateAlong? (p : Placement) (r : Request) (e : Edge) : Option (DeviceId × Name × DeviceId) :=
  (p.device? r.id e.destination).bind fun host =>
    (host? p r e.source).map fun target => (target, e.destination, host)

/-- The updates that a request calls for: those of the edges going up into what it was given. -/
def updatesFor (net : Network) (p : Placement) (r : Request) :
    List (DeviceId × Name × DeviceId) :=
  (net.application? r.app).elim [] fun app =>
    (app.moduleEdges.filter fun e => e.direction == .up).filterMap (updateAlong? p r)

/-- What a device is to do for an application of which it is given something. -/
def group (app : AppId) (given : List Name) : List Event :=
  if given = [] then []
  else [.activateApplication app, .applicationReady app] ++ given.map (.launchMicroservice app)

/-! ## Launches -/

theorem hosting?_announcements (d : Decision) (device : DeviceId) (app : AppId) :
    d.announcements.filterMap (Action.hosting? device app) = [] := by
  refine List.filterMap_eq_nil_iff.mpr fun a ha => ?_
  obtain ⟨c, _, rfl⟩ := List.mem_map.mp ha
  simp [Action.hosting?, Event.hosted?]

/-- What a device is told when it is to host some microservices of an application. -/
def hostingOf (app : Application) (names : List Name) : List Event :=
  if names = [] then []
  else [.activateApplication app.id, .applicationReady app.id]
    ++ (app.names.filter names.contains).map (Event.launchMicroservice app.id)

/-- Of all launches a device looks only at its own, and for one application only at its launches. -/
theorem hosting?_launches (device' : DeviceId) (app : Application) (names : List Name)
    (device : DeviceId) (a : AppId) :
    (launches device' app names).filterMap (Action.hosting? device a)
      = if device' = device then if app.id = a then hostingOf app names else [] else [] := by
  have hlaunches : launches device' app names
      = (hostingOf app names).map (Action.deliver device') := by
    unfold launches hostingOf
    cases names <;> rfl
  have hosted : ∀ e ∈ hostingOf app names, e.hosted? = some app.id := by
    intro e he
    unfold hostingOf at he
    split at he
    · cases he
    · rcases List.mem_append.mp he with he | he
      · rcases List.mem_pair.mp he with rfl | rfl <;> rfl
      · obtain ⟨_, _, rfl⟩ := List.mem_map.mp he
        rfl
  rw [hlaunches, List.filterMap_map, ← ite_and]
  split
  · next h =>
    refine (List.filterMap_congr fun e he => ?_).trans (List.filterMap_some ..)
    exact if_pos ⟨h.1, h.2 ▸ hosted e he⟩
  · next h =>
    refine List.filterMap_eq_nil_iff.mpr fun e he => if_neg fun hboth => h ⟨hboth.1, ?_⟩
    exact Option.some.inj ((hosted e he).symm.trans hboth.2)

/-- Of all applications one is asked for. -/
theorem flatMap_values (ha : net.applications = .ofList apps) {α : Type} (a : AppId)
    (g : Application → List α) :
    (net.applications.values.flatMap fun app => if app.id = a then g app else [])
      = (net.application? a).elim [] g := by
  rw [Network.application?, ← SortedMap.flatMap_entries, SortedMap.values, List.flatMap_map]
  refine List.flatMap_congr fun e he => ?_
  rw [Network.id_of_application? ha ((net.applications.mem_entries_iff _ _).mp he)]

/-- What a device is to do for an application, by what decisions put there. -/
theorem hostingEvents_deploy (ha : net.applications = .ofList apps) (ds : List Decision)
    (device : DeviceId) (a : AppId) : hostingEvents (deploy net ds) device a
      = (net.application? a).elim [] fun app => hostingOf app (namesFor ds device a) := by
  have hannounced : (ds.flatMap Decision.announcements).filterMap (Action.hosting? device a)
      = [] := by
    rw [List.filterMap_flatMap]
    exact List.flatMap_eq_nil_iff.mpr fun d _ => hosting?_announcements d device a
  have hown : ∀ device', (net.applications.values.flatMap fun app =>
        (launches device' app (namesFor ds device' app.id)).filterMap (Action.hosting? device a))
      = if device' = device then
          (net.application? a).elim [] fun app => hostingOf app (namesFor ds device' a)
        else [] := by
    intro device'
    simp only [hosting?_launches]
    split
    · rw [← flatMap_values ha]
      refine List.flatMap_congr fun app _ => ?_
      by_cases hid : app.id = a <;> simp [hid]
    · exact List.flatMap_eq_nil_iff.mpr fun _ _ => rfl
  rw [hostingEvents, deploy, List.filterMap_append, hannounced, List.nil_append,
    List.filterMap_flatMap]
  simp only [List.filterMap_flatMap, hown]
  -- A device that no decision names is given nothing.
  by_cases hmem : device ∈ devicesOf ds
  · exact flatMap_ite_of_mem id (fun device' => (net.application? a).elim [] fun app =>
      hostingOf app (namesFor ds device' a)) ((List.map_id _).symm ▸ SortedMap.keys_nodup _) hmem
  · have hnone : namesFor ds device a = [] := by
      refine List.eq_nil_iff_forall_not_mem.mpr fun n hn => hmem ?_
      obtain ⟨d, hd, hdevice, _⟩ := mem_namesFor.mp hn
      exact mem_devicesOf.mpr ⟨d, hd, hdevice⟩
    have hnothing : (net.application? a).elim [] (fun app => hostingOf app []) = [] := by
      cases net.application? a <;> rfl
    rw [hnone, hnothing]
    refine List.flatMap_eq_nil_iff.mpr fun device' hdevice' => if_neg fun he => hmem ?_
    exact he ▸ hdevice'

theorem mem_hostingEvents {a : AppId} {e : Event} (he : e.hosted? = some a) :
    e ∈ hostingEvents actions device a ↔ .deliver device e ∈ actions := by
  rw [hostingEvents, List.mem_filterMap]
  constructor
  · rintro ⟨x, hx, hsome⟩
    cases x with
    | deliver target event =>
      obtain ⟨⟨rfl, _⟩, he⟩ := Option.ite_none_right_eq_some.mp hsome
      exact Option.some.inj he ▸ hx
    | _ => cases hsome
  · exact fun h => ⟨_, h, if_pos ⟨rfl, he⟩⟩

/-- Decisions put on a device just what requests are given there. -/
theorem mem_namesFor_decisions (ha : net.applications = .ofList apps)
    (hn : (pending.map Request.id).Nodup) {a : AppId} (happ : net.application? a = some app) :
    n ∈ namesFor (decisions net pending p) device a ↔ Gives pending p device a n := by
  rw [mem_namesFor]
  constructor
  · rintro ⟨d, hd, hdevice, hid, rfl⟩
    obtain ⟨hpending, hregistered, hassignment, hget⟩ := mem_decisions hd
    refine ⟨d.request, hpending, ?_, ?_⟩
    · rw [← Network.id_of_application? ha hregistered, hid]
    · rw [Placement.device?, hassignment, Option.bind_some, hget, hdevice]
  · rintro ⟨r, hr, rfl, hdevice⟩
    obtain ⟨assignment, hget, hname⟩ := Option.bind_eq_some_iff.mp hdevice
    refine ⟨⟨r, app, assignment, n, device⟩, ?_, rfl, Network.id_of_application? ha happ, rfl⟩
    refine List.mem_flatMap.mpr ⟨(r.id, assignment), (p.mem_entries_iff _ _).mpr hget, ?_⟩
    simp only [find?_request hn hr, happ]
    exact List.mem_map.mpr ⟨(n, device), (assignment.mem_entries_iff _ _).mpr hname, rfl⟩

/-! ## Updates -/

theorem update?_launches (device : DeviceId) (app : Application) (names : List Name) :
    (launches device app names).filterMap Action.update? = [] := by
  refine List.filterMap_eq_nil_iff.mpr fun x hx => ?_
  unfold launches at hx
  split at hx
  · cases hx
  · obtain ⟨e, he, rfl⟩ := List.mem_map.mp hx
    rcases List.mem_append.mp he with he | he
    · rcases List.mem_pair.mp he with rfl | rfl <;> rfl
    · obtain ⟨_, _, rfl⟩ := List.mem_map.mp he
      rfl

/-- What is told of a request with its assignment. -/
def told (net : Network) (r : Request) (assignment : Assignment) :
    List (DeviceId × Name × DeviceId) :=
  (net.application? r.app).elim [] fun app =>
    assignment.entries.flatMap fun e =>
      (Decision.clients ⟨r, app, assignment, e.1, e.2⟩).map fun target => (target, e.1, e.2)

/-- The updates of a cycle, by request. -/
theorem updates_deploy_eq (net : Network) (pending : List Request) (p : Placement) :
    (deploy net (decisions net pending p)).filterMap Action.update?
      = p.entries.flatMap fun e =>
          (pending.find? fun r => r.id == e.1).elim [] fun r => told net r e.2 := by
  have hlaunched : (((devicesOf (decisions net pending p)).flatMap fun device =>
      net.applications.values.flatMap fun app => launches device app
        (namesFor (decisions net pending p) device app.id)).filterMap Action.update?) = [] := by
    simp only [List.filterMap_flatMap, update?_launches]
    simp
  rw [deploy, List.filterMap_append, hlaunched, List.append_nil, List.filterMap_flatMap, decisions,
    List.flatMap_assoc]
  refine List.flatMap_congr fun e _ => ?_
  obtain ⟨id, assignment⟩ := e
  simp only
  cases pending.find? fun r => r.id == id with
  | none => rfl
  | some r =>
    simp only [told, Option.elim_some]
    cases net.application? r.app with
    | none => rfl
    | some app =>
      rw [List.flatMap_map]
      refine List.flatMap_congr fun e _ => ?_
      rw [Decision.announcements, List.filterMap_map]
      exact congrFun List.filterMap_eq_map _

theorem updateAlong?_eq_none {e : Edge} (h : p.device? r.id e.destination = none) :
    updateAlong? p r e = none := by
  rw [updateAlong?, h, Option.bind_none]

/-- Those that are told of a microservice are the senders of the edges going up into it. -/
theorem clients_eq {assignment : Assignment} (h : p.get? r.id = some assignment)
    (hdevice : assignment.get? n = some device) :
    ((Decision.clients ⟨r, app, assignment, n, device⟩).map fun target => (target, n, device))
      = ((app.moduleEdges.filter fun e => e.direction == .up).filter fun e =>
          e.destination = n).filterMap (updateAlong? p r) := by
  have hassigned : ∀ m, p.device? r.id m = assignment.get? m := fun m => by
    rw [Placement.device?, h, Option.bind_some]
  rw [Decision.clients, Application.clientServices, List.filterMap_map, List.map_filterMap,
    List.filter_filter]
  simp only [beq_eq_decide]
  refine List.filterMap_congr fun e he => ?_
  have hdest : e.destination = n := by simp_all
  simp only [updateAlong?, host?, hassigned, hdest, hdevice, Option.bind_some, Function.comp_apply]

/-- What is told of a request is what it calls for, edge by edge. -/
theorem told_perm {assignment : Assignment} (h : p.get? r.id = some assignment) :
    (told net r assignment).Perm (updatesFor net p r) := by
  unfold told updatesFor
  cases net.application? r.app with
  | none => exact .refl _
  | some app =>
    let up := app.moduleEdges.filter fun e => e.direction == .up
    have hclients : assignment.entries.flatMap (fun a =>
          (Decision.clients ⟨r, app, assignment, a.1, a.2⟩).map fun target => (target, a.1, a.2))
        = (assignment.keys.flatMap fun n => up.filter fun e => e.destination = n).filterMap
            (updateAlong? p r) := by
      rw [List.filterMap_flatMap, SortedMap.keys, List.flatMap_map]
      exact List.flatMap_congr fun a ha => clients_eq h ((assignment.mem_entries_iff _ _).mp ha)
    have hrest : (up.filter fun e => e.destination ∈ assignment.keys).filterMap (updateAlong? p r)
        = up.filterMap (updateAlong? p r) := by
      rw [List.filterMap_filter]
      refine List.filterMap_congr fun e _ => ?_
      split
      · rfl
      · next hout =>
        rw [decide_eq_true_eq, SortedMap.mem_keys_iff, SortedMap.contains_eq,
          Option.not_isSome_iff_eq_none] at hout
        rw [updateAlong?_eq_none]
        rw [Placement.device?, h, Option.bind_some, hout]
    -- Every edge into something that was given is counted at its destination, and only there.
    simp only [Option.elim_some]
    rw [hclients]
    exact ((flatMap_filter_perm Edge.destination up assignment.keys_nodup).filterMap _).trans
      (.of_eq hrest)

/-- Who is told of what: the updates that the requests call for. -/
theorem updates_deploy_perm (net : Network) (hn : (pending.map Request.id).Nodup) (p : Placement) :
    ((deploy net (decisions net pending p)).filterMap Action.update?).Perm
      (pending.flatMap (updatesFor net p)) := by
  have hfind : ∀ e ∈ p.entries, ((pending.find? fun r => r.id == e.1).elim [] fun r =>
        told net r e.2) = pending.flatMap fun r => if r.id = e.1 then told net r e.2 else [] := by
    intro e _
    cases hfind : pending.find? fun r => r.id == e.1 with
    | none =>
      refine (List.flatMap_eq_nil_iff.mpr fun r hr => if_neg fun hid => ?_).symm
      exact absurd (List.find?_eq_none.mp hfind r hr) (by simp [hid])
    | some r =>
      have hid : r.id = e.1 := by simpa using List.find?_some hfind
      rw [Option.elim_some, ← hid]
      exact (flatMap_ite_of_mem Request.id (fun r => told net r e.2) hn
        (List.mem_of_find?_eq_some hfind)).symm
  -- The cycle goes through the answers and looks for the request of each. Here it is the other way.
  rw [updates_deploy_eq, List.flatMap_congr hfind]
  refine (flatMap_comm_perm _ pending p.entries).trans (List.Perm.flatMap_left _ fun r _ => ?_)
  simp only [eq_comm (a := r.id)]
  rw [p.flatMap_entries r.id]
  cases hget : p.get? r.id with
  | none =>
    unfold updatesFor
    cases net.application? r.app with
    | none => exact .refl _
    | some app =>
      refine .of_eq (List.filterMap_eq_nil_iff.mpr fun e _ => updateAlong?_eq_none ?_).symm
      rw [Placement.device?, hget, Option.bind_none]
  | some assignment => exact told_perm hget

section Cycle

variable (hb : Topology.build l = .ok net.topology) (hn : (o.pending.map Request.id).Nodup)
include hb hn

/-- What is given to a request is declared by its application. -/
theorem Gives.declared {a : AppId}
    (h : Gives o.pending (o.attempt net root).placement device a n) :
    ∃ app, net.application? a = some app ∧ n ∈ app.names := by
  obtain ⟨r, hr, rfl, hdevice⟩ := h
  rw [attempt_eq] at hdevice
  obtain ⟨r', hr', hid, _, app, happ, hname⟩ := PlacementSetting.run_device?
    (s := o.setting net root) (Layout.forest_of_build hb) hn hdevice
  obtain rfl : r' = r := List.inj_on_of_nodup_map hn hr' hr hid
  exact ⟨app, happ, hname⟩

/-- What feeds a microservice that was given has a device, since placement waits for it. -/
theorem exists_host? (hr : r ∈ o.pending) (happ : net.application? r.app = some app) {e : Edge}
    (he : e ∈ app.moduleEdges) (hup : e.direction = .up)
    (hdevice : (o.attempt net root).placement.device? r.id e.destination = some device) :
    ∃ target, host? (o.attempt net root).placement r e.source = some target := by
  have hf := Layout.forest_of_build hb
  obtain ⟨assignment, hget, hname⟩ := Option.bind_eq_some_iff.mp hdevice
  have hcontains : (o.attempt net root).placement.contains r.id = true := by
    rw [SortedMap.contains_eq, hget]
    rfl
  rw [attempt_eq] at hget hcontains ⊢
  have horder := PlacementSetting.orderable_of_contains_run (s := o.setting net root) hf hn hr happ
    hcontains
  obtain ⟨r', hr', hid, app', happ', hkeys⟩ :=
    PlacementSetting.run_keys (s := o.setting net root) hf hn hget
  obtain rfl : r' = r := List.inj_on_of_nodup_map hn hr' hr hid
  obtain rfl := Option.some.inj (happ'.symm.trans happ)
  have hdestination : e.destination ∈ assignment.keys := by
    rw [SortedMap.mem_keys_iff, SortedMap.contains_eq, hname]
    rfl
  have hrequired : e.source ∈ app'.requirements e.destination :=
    List.mem_flatMap.mpr ⟨e, he, List.mem_append_right _ (by simp [hup])⟩
  rw [← Option.isSome_iff_exists, host?, Option.isSome_or, Bool.or_eq_true]
  -- What the receiver waits for was brought along, or it was left to place and so was given.
  rcases horder.required (Application.mem_outstanding.mpr ((hkeys _).mp hdestination)) hrequired
    with hout | hplaced
  · have hgiven := (hkeys _).mpr (Application.mem_outstanding.mp hout)
    rw [SortedMap.mem_keys_iff, SortedMap.contains_eq] at hgiven
    rw [Placement.device?, hget, Option.bind_some]
    exact Or.inr hgiven
  · rw [SortedMap.mem_keys_iff, SortedMap.contains_eq] at hplaced
    exact Or.inl hplaced

end Cycle

/-! ## Cycles -/

/--
What a cycle commands, by what its requests are given. Everything is delivered to some device. A
launch is delivered for just what some request is given, in the order of the declarations and as
often as there are, after the application was activated and said to be ready, once each. For every
edge going up into what a request is given there is a sender, which is told once, and nobody else is
told of anything.
-/
structure Commands (net : Network) (pending : List Request) (p : Placement)
    (commands : List Action) : Prop where
  delivered : ∀ a ∈ commands, ∃ target event, a = .deliver target event
  launched : ∀ device app n,
    .deliver device (.launchMicroservice app n) ∈ commands ↔ Gives pending p device app n
  hosting : ∀ device id, hostingEvents commands device id
    = (net.application? id).elim [] fun app =>
        group id (app.names.filter fun n => Gives pending p device id n)
  sender : ∀ r ∈ pending, ∀ app, net.application? r.app = some app → ∀ e ∈ app.moduleEdges,
    e.direction = .up → ∀ device, p.device? r.id e.destination = some device →
      ∃ target, host? p r e.source = some target
  updates : (commands.filterMap Action.update?).Perm (pending.flatMap (updatesFor net p))

theorem exists_deliver_of_mem_deploy {a : Action} (h : a ∈ deploy net ds) :
    ∃ target event, a = .deliver target event := by
  rcases List.mem_append.mp h with h | h
  · obtain ⟨d, _, h⟩ := List.mem_flatMap.mp h
    obtain ⟨c, _, rfl⟩ := List.mem_map.mp h
    exact ⟨_, _, rfl⟩
  · obtain ⟨_, _, h⟩ := List.mem_flatMap.mp h
    obtain ⟨_, _, h⟩ := List.mem_flatMap.mp h
    unfold launches at h
    split at h
    · cases h
    · obtain ⟨_, _, rfl⟩ := List.mem_map.mp h
      exact ⟨_, _, rfl⟩

/-- The group of an application at a device, if what is given there is declared. -/
theorem hostingEvents_decisions (ha : net.applications = .ofList apps)
    (hn : (pending.map Request.id).Nodup)
    (hdeclared : ∀ {device a n}, Gives pending p device a n →
      ∃ app, net.application? a = some app ∧ n ∈ app.names) (device : DeviceId) (id : AppId) :
    hostingEvents (deploy net (decisions net pending p)) device id
      = (net.application? id).elim [] fun app =>
          group id (app.names.filter fun n => Gives pending p device id n) := by
  rw [hostingEvents_deploy ha]
  cases happ : net.application? id with
  | none => rfl
  | some app =>
    have hmem : ∀ n, n ∈ namesFor (decisions net pending p) device id
        ↔ Gives pending p device id n := fun _ => mem_namesFor_decisions ha hn happ
    have hgiven : (app.names.filter (namesFor (decisions net pending p) device id).contains)
        = app.names.filter fun n => Gives pending p device id n :=
      List.filter_congr fun n _ => by simp [← hmem]
    have hempty : namesFor (decisions net pending p) device id = []
        ↔ (app.names.filter fun n => decide (Gives pending p device id n)) = [] := by
      rw [List.filter_eq_nil_iff, List.eq_nil_iff_forall_not_mem]
      simp only [hmem, decide_eq_true_eq]
      refine ⟨fun h n _ => h n, fun h n hg => ?_⟩
      obtain ⟨app', happ', hname⟩ := hdeclared hg
      obtain rfl := Option.some.inj (happ'.symm.trans happ)
      exact h n hname hg
    simp only [Option.elim_some, hostingOf, group, hempty, hgiven,
      Network.id_of_application? ha happ]

theorem launched_iff (ha : net.applications = .ofList apps) (hn : (pending.map Request.id).Nodup)
    (hdeclared : ∀ {device a n}, Gives pending p device a n →
      ∃ app, net.application? a = some app ∧ n ∈ app.names) (device : DeviceId) (id : AppId)
    (n : Name) :
    .deliver device (.launchMicroservice id n) ∈ deploy net (decisions net pending p)
      ↔ Gives pending p device id n := by
  rw [← mem_hostingEvents rfl, hostingEvents_decisions ha hn hdeclared]
  constructor
  · intro h
    cases happ : net.application? id with
    | none => simp [happ] at h
    | some app =>
      rw [happ, Option.elim_some, group] at h
      split at h
      · cases h
      · rcases List.mem_append.mp h with h | h
        · simp at h
        · obtain ⟨n', hgiven, he⟩ := List.mem_map.mp h
          obtain ⟨_, rfl⟩ := Event.launchMicroservice.inj he
          exact of_decide_eq_true (List.mem_filter.mp hgiven).2
  · intro h
    obtain ⟨app, happ, hname⟩ := hdeclared h
    have hgiven : n ∈ app.names.filter fun n => Gives pending p device id n :=
      List.mem_filter.mpr ⟨hname, decide_eq_true h⟩
    rw [happ, Option.elim_some, group, if_neg (List.ne_nil_of_mem hgiven)]
    exact List.mem_append_right _ (List.mem_map.mpr ⟨n, hgiven, rfl⟩)

theorem deploy_nothing (net : Network) (p : Placement) : deploy net (decisions net [] p) = [] := by
  have hnone : decisions net [] p = [] := List.flatMap_eq_nil_iff.mpr fun _ _ => rfl
  rw [hnone]
  rfl

/--
A cycle always comes to an end, with its commands and then the timer for the next cycle. The
commands follow from what the pending requests are given in this cycle.
-/
theorem commands_of_tick (hb : Topology.build l = .ok net.topology)
    (ha : net.applications = .ofList apps) (hn : (o.pending.map Request.id).Nodup) :
    ∃ commands o', (o.tick net root).value = some (commands ++ [nextCycle net], o')
      ∧ Commands net o.pending (o.attempt net root).placement commands := by
  obtain ⟨actions, o', h⟩ := exists_tick net root o
  have hactions : actions
      = deploy net (decisions net o.pending (o.attempt net root).placement) ++ [nextCycle net] := by
    rcases actions_of_tick h with ⟨hidle, hactions⟩ | hactions
    · rw [hactions, hidle, deploy_nothing, List.nil_append]
    · exact hactions
  refine ⟨_, o', hactions ▸ h, fun a hmem => exists_deliver_of_mem_deploy hmem, ?_,
    hostingEvents_decisions ha hn (Gives.declared hb hn), ?_, updates_deploy_perm net hn _⟩
  · exact fun device id n => launched_iff ha hn (Gives.declared hb hn) device id n
  · exact fun r hr app happ e he hup device hdevice => exists_host? hb hn hr happ he hup hdevice

/-- The requests of `sharers` before their first cycle. -/
def sharing : Orchestrator :=
  sharedRequests.foldl submit (.start (twoTierNetwork sharers) 1)

/-- Both requests are given `x` on the cloud, which launches it for each application. -/
theorem commands_of_tick_sharers : ∃ commands o',
    (sharing.tick (twoTierNetwork sharers) 1).value
        = some (commands ++ [nextCycle (twoTierNetwork sharers)], o')
      ∧ hostingEvents commands 1 "a"
        = [.activateApplication "a", .applicationReady "a", .launchMicroservice "a" "x"]
      ∧ (commands.filterMap Action.update?).Perm [(2, "x", 1)] := by
  have happs : (twoTierNetwork sharers).applications = .ofList sharers := rfl
  have hn : (sharing.pending.map Request.id).Nodup := by decide +kernel
  obtain ⟨commands, o', h, hall⟩ := commands_of_tick build_twoTier happs hn
  refine ⟨commands, o', h, ?_, ?_⟩
  · have happ : (twoTierNetwork sharers).application? "a" = some sharers[0] := by decide +kernel
    have hgiven : (sharers[0].names.filter fun n => Gives sharing.pending
        (sharing.attempt (twoTierNetwork sharers) 1).placement 1 "a" n) = ["x"] := by
      decide +kernel
    rw [hall.hosting, happ, Option.elim_some]
    simp only [hgiven]
    rfl
  · have hdue : sharing.pending.flatMap (updatesFor (twoTierNetwork sharers)
        (sharing.attempt (twoTierNetwork sharers) 1).placement) = [(2, "x", 1)] := by
      decide +kernel
    exact hdue ▸ hall.updates

end Orchestrator

end FogNet
