import FogNet.Proofs.Placement.Shifts
import FogNet.Proofs.Topology.Leaves
import FogNet.Proofs.Topology.Validity

/-!
# At every moment of a run

After a run a microservice may well be on several devices of one path: on a leaf for the requests
from there, and further up for those of another leaf. While a path is walked this cannot be seen
from it. Slots are on paths that were begun, so what a device has of them, and a path still to come
goes through that device, is on the path that is walked as well, and so is all that is above it. But
on the path that is walked every microservice is on one device at most.

All this is kept by what holds only some of the slots. So it also holds while a shift has slots in
its hands, when they are off one device and not yet on the other.

## Main statements

* `Tidy.placeRequest`, `Tidy.next` — requests keep it, and so does going on to the next path
* `Tidy.orderly` — what can be seen from the path then
* `Climbs.lift_eq` — a shift that has gone on has the same still to do
* `Moment.run_ledger` — a run ends at its last moment
* `Moment.OccursIn.orderly` — every ledger that is seen while a path is walked
* `Topology.moments_orderly` — the same for the orchestrators of a topology
-/

namespace FogNet

open Relation

namespace PlacementSetting

variable {s : PlacementSetting} {requests : List Request} {app : Application}
  {walked coming : List (List DeviceId)} {path following : List DeviceId} {d e : DeviceId}
  {l l' : Ledger} {w : Walk} {b : Batch} {name : Name}

/-! ## Ledgers while a path is walked -/

/-- A ledger while a path is walked, which has slots only there and on the paths before. -/
structure Tidy (s : PlacementSetting) (walked : List (List DeviceId)) (path : List DeviceId)
    (l : Ledger) : Prop extends s.Clear path l where
  met : ∀ {d x}, l.Has d x → (∃ p ∈ walked, d ∈ p) ∨ d ∈ path

namespace Tidy

/-- New slots come to the path only. -/
theorem of_within (h : s.Tidy walked path l) (hc : s.Clear path l')
    (hwithin : ∀ e x, l'.Has e x → l.Has e x ∨ e ∈ path) : s.Tidy walked path l' where
  toClear := hc
  met hx := (hwithin _ _ hx).elim h.met Or.inr

section

variable (hf : s.layout.Forest) (hpath : s.layout.Ascends s.root path)
include hf hpath

theorem attempt (h : s.Tidy walked path w.ledger) (hd : d ∈ path) (id : RequestId) (name : Name) :
    s.Tidy walked path (s.attempt app path id d w name).ledger :=
  h.of_within (h.toClear.attempt hf hpath hd id name)
    (attempt_within path id (h.mem hd) (fun c p hs _ hc => hpath.closed c hc p hs) hd name)

theorem attempts (h : s.Tidy walked path w.ledger) (hd : d ∈ path) (id : RequestId)
    (names : List Name) : s.Tidy walked path (names.foldl (s.attempt app path id d) w).ledger := by
  induction names generalizing w with
  | nil => exact h
  | cons name names ih => exact ih (h.attempt hf hpath hd id name)

theorem walkPast (h : s.Tidy walked path w.ledger) (id : RequestId) {devices : List DeviceId}
    (hsub : devices ⊆ path) : s.Tidy walked path (s.walkPast app path id devices w).ledger := by
  induction devices generalizing w with
  | nil => exact h
  | cons d devices ih =>
    have hrest : devices ⊆ path := fun e he => hsub (List.mem_cons_of_mem d he)
    rw [PlacementSetting.walkPast, List.foldl_cons]
    split
    · rw [fill_eq]
      exact ih (h.attempts hf hpath (hsub List.mem_cons_self) id _) hrest
    · exact ih h hrest

theorem placeRequest (h : s.Tidy walked path b.ledger) (r : Request) :
    s.Tidy walked path (s.placeRequest path b r).ledger := by
  refine h.of_within ⟨fun e => ?_, h.listed, h.toClear.placeRequest hf hpath r⟩
    fun _ _ => placeRequest_within hpath.closed b r
  exact (placeRequest_contains s path b r e).trans (h.contains e)

theorem placeRequests (h : s.Tidy walked path b.ledger) (served : List Request) :
    s.Tidy walked path (served.foldl (s.placeRequest path) b).ledger := by
  induction served generalizing b with
  | nil => exact h
  | cons r served ih => exact ih (h.placeRequest hf hpath r)

end

theorem start (hlisted : path ⊆ s.domain) : s.Tidy [] path (.start s.domain) where
  contains _ := rfl
  listed := hlisted
  lone _ _ _ _ hx := by
    rw [Ledger.Has, Ledger.holding_start] at hx
    exact absurd hx List.not_mem_nil
  met hx := by
    rw [Ledger.Has, Ledger.holding_start] at hx
    exact absurd hx List.not_mem_nil

/-- What is on a path that was begun and on one still to come is on the path that is walked. -/
theorem mem_path (h : s.Tidy walked path l) (hf : s.layout.Forest)
    (hpaths : walked ++ path :: coming = s.layout.leafPaths s.root) {x : Slot} (hx : l.Has d x)
    {q : List DeviceId} (hq : q ∈ coming) (hd : d ∈ q) : d ∈ path := by
  rcases h.met hx with ⟨p, hp, hdp⟩ | hdp
  · have htriple := hf.leafPaths_triplewise s.root
    rw [← hpaths, List.triplewise_append] at htriple
    exact List.rel_of_pairwise_cons (htriple.2.2.1 p hp) hq d hdp hd
  · exact hdp

/-- On the next path a microservice is on one device as well. -/
theorem next (h : s.Tidy walked path l) (hf : s.layout.Forest)
    (hpaths : walked ++ path :: following :: coming = s.layout.leafPaths s.root)
    (hlisted : following ⊆ s.domain) : s.Tidy (walked ++ [path]) following l where
  contains := h.contains
  listed := hlisted
  lone d e x y hx hy hd he hsame :=
    h.lone hx hy (h.mem_path hf hpaths hx List.mem_cons_self hd)
      (h.mem_path hf hpaths hy List.mem_cons_self he) hsame
  met hx := by
    rcases h.met hx with ⟨p, hp, hd⟩ | hd
    · exact Or.inl ⟨p, List.mem_append_left _ hp, hd⟩
    · exact Or.inl ⟨path, List.mem_append_right _ List.mem_cons_self, hd⟩

/-- Slots are at the root or below it. -/
theorem below_root (h : s.Tidy walked path l) (hf : s.layout.Forest)
    (hpaths : walked ++ path :: coming = s.layout.leafPaths s.root) {x : Slot} (hx : l.Has d x) :
    ReflTransGen s.layout.Under d s.root := by
  have hbelow : ∀ {p}, p ∈ s.layout.leafPaths s.root → d ∈ p →
      ReflTransGen s.layout.Under d s.root := fun hp hd =>
    Layout.onWay_iff_above.mp ((hf.leafPaths_ascends hp).onWay_root hd)
  rw [← hpaths] at hbelow
  rcases h.met hx with ⟨p, hp, hd⟩ | hd
  · exact hbelow (List.mem_append_left _ hp) hd
  · exact hbelow (List.mem_append_right _ List.mem_cons_self) hd

end Tidy

end PlacementSetting

/-- The way up to a device at or below the root does not pass the root. -/
theorem Layout.Forest.onWay_of_above {l : Layout} (h : l.Forest) {root d a : DeviceId}
    (hup : ReflTransGen l.Under d a) (hroot : ReflTransGen l.Under a root) : l.OnWay root d a := by
  induction hup using ReflTransGen.head_induction_on with
  | refl => exact .refl
  | @head d p hp hrest ih =>
    refine ih.head ⟨?_, hp⟩
    rintro rfl
    exact h.acyclic d (TransGen.head' hp (hrest.trans hroot))

namespace PlacementSetting

variable {s : PlacementSetting} {requests : List Request} {app : Application}
  {walked coming : List (List DeviceId)} {path : List DeviceId} {d e a : DeviceId}
  {l l' : Ledger} {name : Name}

/-! ## What can be seen from a path -/

/--
No microservice is on two devices of the path that is walked, so the host that a search of the path
finds is the only one. Where a host has another one above it, no path goes that is still to be
walked.
-/
structure Orderly (s : PlacementSetting) (path : List DeviceId) (coming : List (List DeviceId))
    (l : Ledger) : Prop where
  single : ∀ d ∈ path, ∀ e ∈ path, ∀ n, l.hosts d n = true → l.hosts e n = true → d = e
  first : ∀ d ∈ path, ∀ n, l.hosts d n = true → l.hostOn path n = some d
  left : ∀ d a n, l.hosts d n = true → l.hosts a n = true → TransGen s.layout.Under d a →
    ∀ q ∈ path :: coming, d ∉ q

/-- The first host of a path is the only one. -/
theorem hostOn_of_single (hsingle : ∀ d ∈ path, ∀ e ∈ path, ∀ n, l.hosts d n = true →
    l.hosts e n = true → d = e) (hd : d ∈ path) (hhosts : l.hosts d name = true) :
    l.hostOn path name = some d := by
  cases hfirst : l.hostOn path name with
  | none =>
    have hnone := List.find?_eq_none.mp hfirst d hd
    rw [hhosts] at hnone
    exact absurd rfl hnone
  | some e =>
    have he : e ∈ path := List.mem_of_find?_eq_some hfirst
    rw [hsingle d hd e he name hhosts (Ledger.hosts_of_hostOn hfirst)]

theorem Tidy.orderly (h : s.Tidy walked path l) (hf : s.layout.Forest)
    (hpaths : walked ++ path :: coming = s.layout.leafPaths s.root) :
    s.Orderly path coming l := by
  have hsingle : ∀ d ∈ path, ∀ e ∈ path, ∀ n, l.hosts d n = true → l.hosts e n = true → d = e := by
    intro d hd e he n hdn hen
    obtain ⟨x, hx, hxn⟩ := Ledger.hosts_iff.mp hdn
    obtain ⟨y, hy, hyn⟩ := Ledger.hosts_iff.mp hen
    exact h.lone hx hy hd he (hxn.trans hyn.symm)
  refine ⟨hsingle, fun d hd n => hostOn_of_single hsingle hd, fun d a n hdn han hup q hq hdq => ?_⟩
  obtain ⟨x, hx, _⟩ := Ledger.hosts_iff.mp hdn
  obtain ⟨y, hy, _⟩ := Ledger.hosts_iff.mp han
  have hd : d ∈ path := by
    rcases List.mem_cons.mp hq with rfl | hq
    · exact hdq
    · exact h.mem_path hf hpaths hx hq hdq
  -- The path goes on from the device up to the root, past the other host.
  have hpath : path ∈ s.layout.leafPaths s.root :=
    hpaths ▸ List.mem_append_right _ List.mem_cons_self
  have hway := hf.onWay_of_above hup.to_reflTransGen (h.below_root hf hpaths hy)
  have ha : a ∈ path := (hf.leafPaths_ascends hpath).mem_of_onWay hd hway
  obtain rfl := hsingle d hd a ha n hdn han
  exact hf.acyclic d hup

/-- A ledger with only some of the slots is orderly, too. -/
theorem Orderly.part (h : s.Orderly path coming l) (hsub : ∀ d x, l'.Has d x → l.Has d x) :
    s.Orderly path coming l' := by
  have hhosts : ∀ {d n}, l'.hosts d n = true → l.hosts d n = true := by
    intro d n hd
    obtain ⟨x, hx, hxn⟩ := Ledger.hosts_iff.mp hd
    exact Ledger.hosts_iff.mpr ⟨x, hsub d x hx, hxn⟩
  have hsingle : ∀ d ∈ path, ∀ e ∈ path, ∀ n, l'.hosts d n = true → l'.hosts e n = true →
      d = e := fun d hd e he n hdn hen => h.single d hd e he n (hhosts hdn) (hhosts hen)
  exact ⟨hsingle, fun d hd n => hostOn_of_single hsingle hd,
    fun d a n hdn han => h.left d a n (hhosts hdn) (hhosts han)⟩

/-! ## Moments -/

/-- How far a shift has come: the device, and what is left of the ledger and what moves. -/
structure Ascent where
  current : DeviceId
  ledger : Ledger
  moving : Moving

/-- A shift goes on: the device above is full, and what is fed there moves along. -/
structure Climbs (s : PlacementSetting) (app : Application) (a a' : Ascent) : Prop where
  way : s.layout.StepUp s.root a.current a'.current
  contained : a.ledger.contains a'.current = true
  full : s.free.freeCpu a'.current < wrap (a.ledger.load a'.current + a.moving.load)
  taken : a.moving.collect app a.ledger a'.current
    (app.closeUp (a.ledger.hosts a'.current) a.moving.names) = (a'.ledger, a'.moving)

theorem Climbs.lift_eq {a a' : Ascent} (h : s.Climbs app a a') (steps : Nat) :
    s.lift app (steps + 1) a.current a.ledger a.moving
      = s.lift app steps a'.current a'.ledger a'.moving := by
  have hfull := Nat.not_le_of_lt h.full
  rw [lift, if_neg h.way.1]
  simp only [h.way.2, h.contained, Bool.not_true, Bool.false_eq_true, if_false, hfull, h.taken]

theorem Climbs.has {a a' : Ascent} (h : s.Climbs app a a') {d : DeviceId} {x : Slot}
    (hx : a'.ledger.Has d x) : a.ledger.Has d x := by
  have htaken := congrArg Prod.fst h.taken
  simp only at htaken
  rw [← htaken] at hx
  exact ((Moving.mem_holding_collect h.contained).mp hx).1

theorem has_of_climbs {a a' : Ascent} (h : ReflTransGen (s.Climbs app) a a') {d : DeviceId}
    {x : Slot} (hx : a'.ledger.Has d x) : a.ledger.Has d x := by
  induction h with
  | refl => exact hx
  | tail _ hclimb ih => exact ih (hclimb.has hx)

/-- A moment in a run, between two requests or while one of them is placed. -/
structure Moment where
  /-- The paths that were walked for all requests from their leaves. -/
  walked : List (List DeviceId)
  path : List DeviceId
  /-- The paths that are still to be walked. -/
  coming : List (List DeviceId)
  /-- The requests that the path was walked for. -/
  served : List Request

namespace Moment

variable {m : Moment} {c : Trial}

/-- The run comes to it. -/
structure OccursIn (m : Moment) (s : PlacementSetting) (requests : List Request) : Prop where
  paths : m.walked ++ m.path :: m.coming = s.layout.leafPaths s.root
  requests : m.served <+: requests.filter fun r => m.path.head? == some r.gateway

/-- The batch when the path was walked for the last of these requests. -/
def batch (m : Moment) (s : PlacementSetting) (requests : List Request) : Batch :=
  m.served.foldl (s.placeRequest m.path)
    (m.walked.foldl (s.placePath requests) { ledger := .start s.domain })

/-- The walks so far. -/
def visited (m : Moment) (requests : List Request) : List (List DeviceId × Request) :=
  (m.walked.flatMap fun p =>
    (requests.filter fun r => p.head? == some r.gateway).map fun r => (p, r))
    ++ m.served.map fun r => (m.path, r)

/-- After these walks, on the way up the path, a microservice is tried. -/
structure Tries (m : Moment) (s : PlacementSetting) (requests : List Request) (c : Trial) : Prop
    extends c.OccursIn s requests where
  visited : c.visited = m.visited requests
  path : c.path = m.path

/--
The ledgers that a run has while it walks a path: between two requests, before and after an attempt,
and while a shift is on its way up.
-/
inductive Shows (m : Moment) (s : PlacementSetting) (requests : List Request) : Ledger → Prop where
  | between : Shows m s requests (m.batch s requests).ledger
  | before {c : Trial} (hc : m.Tries s requests c) : Shows m s requests (c.before s).ledger
  | after {c : Trial} (hc : m.Tries s requests c) : Shows m s requests (c.after s).ledger
  | shifting {c : Trial} {a : Ascent} (hc : m.Tries s requests c) (hs : c.ShiftsIn s requests)
    (ha : ReflTransGen (s.Climbs c.app) ⟨c.device,
      (departing c.app (c.before s).ledger (c.haul s).slot c.device).1,
      (departing c.app (c.before s).ledger (c.haul s).slot c.device).2⟩ a) :
    Shows m s requests a.ledger

/-- What a run ends with is what it has after the last request. -/
theorem run_ledger (hm : m.OccursIn s requests) (hlast : m.coming = [])
    (hserved : m.served = requests.filter fun r => m.path.head? == some r.gateway) :
    (s.run requests).ledger = (m.batch s requests).ledger := by
  have hpaths := hm.paths
  rw [hlast] at hpaths
  rw [run, batch, ← hpaths, List.foldl_append, hserved]
  rfl

theorem batch_eq (m : Moment) (s : PlacementSetting) (requests : List Request) :
    m.batch s requests = (m.visited requests).foldl (fun b v => s.placeRequest v.1 b v.2)
      { ledger := .start s.domain } := by
  rw [batch, visited, List.foldl_append, List.foldl_flatMap, List.foldl_map]
  congr 2
  funext b p
  rw [placePath, List.foldl_map]

theorem Tries.batch_eq (h : m.Tries s requests c) : c.batch s = m.batch s requests := by
  rw [Moment.batch_eq, Trial.batch, h.visited]

/-! ### What holds at a moment -/

section

variable (hf : s.layout.Forest) (hdomain : ∀ p ∈ s.layout.leafPaths s.root, p ⊆ s.domain)
include hf hdomain

theorem tidy_walked : ∀ {walked coming : List (List DeviceId)} {path : List DeviceId},
    walked ++ path :: coming = s.layout.leafPaths s.root → s.Tidy walked path
      (walked.foldl (s.placePath requests) { ledger := .start s.domain }).ledger := by
  intro walked
  induction walked using List.reverseRecOn with
  | nil =>
    intro coming path hpaths
    exact .start (hdomain path (hpaths ▸ List.mem_append_right _ List.mem_cons_self))
  | append_singleton walked p ih =>
    intro coming path hpaths
    rw [List.append_assoc, List.singleton_append] at hpaths
    have hp : p ∈ s.layout.leafPaths s.root :=
      hpaths ▸ List.mem_append_right _ List.mem_cons_self
    have hpath : path ∈ s.layout.leafPaths s.root :=
      hpaths ▸ List.mem_append_right _ (List.mem_cons_of_mem p List.mem_cons_self)
    rw [List.foldl_append]
    exact ((ih hpaths).placeRequests hf (hf.leafPaths_ascends hp) _).next hf hpaths
      (hdomain path hpath)

namespace OccursIn

omit hf hdomain in
theorem mem_leafPaths (hm : m.OccursIn s requests) : m.path ∈ s.layout.leafPaths s.root :=
  hm.paths ▸ List.mem_append_right _ List.mem_cons_self

theorem tidy_batch (hm : m.OccursIn s requests) :
    s.Tidy m.walked m.path (m.batch s requests).ledger :=
  (tidy_walked hf hdomain hm.paths).placeRequests hf (hf.leafPaths_ascends hm.mem_leafPaths)
    m.served

theorem tidy_before (hm : m.OccursIn s requests) (hc : m.Tries s requests c) :
    s.Tidy m.walked m.path (c.before s).ledger := by
  have hpath := hf.leafPaths_ascends hm.mem_leafPaths
  have hbatch : s.Tidy m.walked m.path (c.batch s).ledger :=
    hc.batch_eq ▸ hm.tidy_batch hf hdomain
  have harrival : s.Tidy m.walked m.path (c.arrival s).ledger := by
    rw [Trial.arrival, hc.path]
    exact Tidy.walkPast hf hpath hbatch c.request.id
      fun e he => hc.path ▸ hc.way.subset (List.mem_append_left _ he)
  rw [Trial.before, hc.path]
  exact harrival.attempts hf hpath (hc.path ▸ hc.toOccursIn.mem_path) c.request.id c.tried

theorem tidy_after (hm : m.OccursIn s requests) (hc : m.Tries s requests c) :
    s.Tidy m.walked m.path (c.after s).ledger := by
  rw [Trial.after, hc.path]
  exact (hm.tidy_before hf hdomain hc).attempt hf (hf.leafPaths_ascends hm.mem_leafPaths)
    (hc.path ▸ hc.toOccursIn.mem_path) c.request.id c.name

theorem orderly (hm : m.OccursIn s requests) (hl : m.Shows s requests l) :
    s.Orderly m.path m.coming l := by
  cases hl with
  | between => exact (hm.tidy_batch hf hdomain).orderly hf hm.paths
  | before hc => exact (hm.tidy_before hf hdomain hc).orderly hf hm.paths
  | after hc => exact (hm.tidy_after hf hdomain hc).orderly hf hm.paths
  | @shifting c a hc hs ha =>
    have hbefore := hm.tidy_before hf hdomain hc
    have hdevice : (c.before s).ledger.contains c.device = true :=
      hbefore.mem (hc.path ▸ hc.toOccursIn.mem_path)
    -- A shift only takes slots off devices until it comes to its end.
    exact (hbefore.orderly hf hm.paths).part fun _ _ hx =>
      ((Moving.mem_holding_collect hdevice).mp (has_of_climbs ha hx)).1

end OccursIn

end

end Moment

end PlacementSetting

/-! ## On a topology -/

namespace Topology

open PlacementSetting

/--
At every moment while a run walks a path, each microservice has one host on the path at most, which
is the one that a search of the path finds. Where one is hosted below another host, the paths that
are still to be walked do not go.
-/
theorem moments_orderly {l : Layout} {t : Topology} (hb : build l = .ok t) {root : DeviceId}
    {applications : Applications} {free : Snapshot} {requests : List Request} {m : Moment}
    (hm : m.OccursIn (t.setting root applications free) requests) {ledger : Ledger}
    (hl : m.Shows (t.setting root applications free) requests ledger) :
    (t.setting root applications free).Orderly m.path m.coming ledger := by
  have hf := Layout.forest_of_build hb
  exact hm.orderly hf (fun _ hpath => hf.leafPaths_subset_domain hpath) hl

/-- An application with a single microservice. -/
def single : Application :=
  { id := "single", user := 1, microservices := [⟨"m", 8, 0, 0, []⟩] }

/-- `orchard` with room on one gateway of the eastern branch, and above both. -/
def orchardSetting : PlacementSetting :=
  orchardTopology.setting 1 (.ofList [single])
    (.ofList [(1, { cpuMips := 100 }), (2, { cpuMips := 10 }), (4, { cpuMips := 10 })])

/-- The path of the second gateway was walked for its request. -/
def secondGateway : Moment where
  walked := [[4, 2, 1]]
  path := [6, 2, 1]
  coming := [[5, 3, 1]]
  served := [⟨2, "single", 6, .empty⟩]

/-- Now `m` is on the first gateway and above it, and no path goes through that gateway any more. -/
theorem moments_orderly_orchard :
    let l := (secondGateway.batch orchardSetting
      [⟨1, "single", 4, .empty⟩, ⟨2, "single", 6, .empty⟩]).ledger
    l.hosts 4 "m" = true ∧ l.hosts 2 "m" = true ∧ orchardSetting.layout.Under 4 2
      ∧ l.hostOn [6, 2, 1] "m" = some 2 ∧ ∀ q ∈ [[6, 2, 1], [5, 3, 1]], 4 ∉ q := by
  intro l
  have hm : secondGateway.OccursIn orchardSetting
      [⟨1, "single", 4, .empty⟩, ⟨2, "single", 6, .empty⟩] :=
    { paths := by decide +kernel
      requests := ⟨[], rfl⟩ }
  have horderly : orchardSetting.Orderly secondGateway.path secondGateway.coming l :=
    moments_orderly build_orchard hm .between
  have hleaf : l.hosts 4 "m" = true := by decide +kernel
  have habove : l.hosts 2 "m" = true := by decide +kernel
  exact ⟨hleaf, habove, rfl, horderly.first 2 (by decide) "m" habove,
    horderly.left 4 2 "m" hleaf habove (.single rfl)⟩

end Topology

end FogNet
