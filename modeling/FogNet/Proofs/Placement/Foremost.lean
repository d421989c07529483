import FogNet.Proofs.Placement.Alone

/-!
# The first request of a batch

The request that a batch begins with is placed as if it were alone. If the orchestrating device has
room for all that it needs, and that can be ordered, it is placed completely. Later requests, for
which something may be hosted on a device that their walk has passed, cannot undo that.

## Main statements

* `placeRequest_start` — the first request is complete
* `exists_contains_run` — so a batch answers at least one request
-/

namespace FogNet

namespace PlacementSetting

variable {s : PlacementSetting} {requests : List Request} {r : Request} {path : List DeviceId}

/-! ## The request -/

/--
What placement can serve: a request from a leaf below the root, for a registered application of
which all that it does not bring along can be ordered.
-/
structure Placeable (s : PlacementSetting) (r : Request) : Prop where
  leaf : s.layout.children r.gateway = []
  below : s.layout.OnWay s.root r.gateway s.root
  registered : ∃ app, s.applications.get? r.app = some app ∧ app.Orderable r.placed.keys

/-- The first request is complete. -/
theorem placeRequest_start (h : s.Placeable r) (hp : path ∈ s.layout.leafPaths s.root)
    (hroom : s.applications.need r ≤ s.free.freeCpu s.root)
    (hu : s.usable (.start s.domain) s.root = true) :
    r.id ∈ (s.placeRequest path { ledger := .start s.domain } r).complete := by
  obtain ⟨app, happ, horder⟩ := h.registered
  rw [Applications.need_of_get? happ] at hroom
  have hcomplete := isComplete_walk hp hu horder hroom 0
  unfold placeRequest
  simp only [happ, hcomplete, if_true]
  exact List.mem_append_right _ List.mem_cons_self

/-! ## The batch -/

/-- What is complete stays complete. -/
theorem complete_subset (s : PlacementSetting) (path : List DeviceId) (b : Batch) (r : Request) :
    b.complete ⊆ (s.placeRequest path b r).complete := by
  unfold placeRequest
  split
  · exact fun _ h => h
  · simp only
    split
    · exact fun _ h => List.mem_append_left _ h
    · exact fun _ h => h

theorem complete_subset_foldl (s : PlacementSetting) :
    ∀ (visits : List (List DeviceId × Request)) (b : Batch),
      b.complete ⊆ (visits.foldl (fun b v => s.placeRequest v.1 b v.2) b).complete
  | [], _ => fun _ h => h
  | v :: visits, b => fun _ h =>
    complete_subset_foldl s visits _ (s.complete_subset v.1 b v.2 h)

/-- A batch answers a request, if the orchestrating device has what each of them needs. -/
theorem exists_contains_run (hf : s.layout.Forest)
    (hu : s.usable (.start s.domain) s.root = true) (hplaceable : ∀ r ∈ requests, s.Placeable r)
    (hroom : ∀ r ∈ requests, s.applications.need r ≤ s.free.freeCpu s.root)
    (hne : requests ≠ []) :
    ∃ r ∈ requests, (s.run requests).placement.contains r.id = true := by
  have hvisit : ∃ v, v ∈ s.visits requests := by
    obtain ⟨r, hr⟩ := List.exists_mem_of_ne_nil _ hne
    have hroot : s.layout.contains s.root = true := by
      unfold usable at hu
      split at hu
      · exact absurd hu Bool.false_ne_true
      · next dev hdev => exact Option.isSome_of_mem hdev
    obtain ⟨path, hpath, hhead⟩ :=
      hf.exists_leafPath hroot (hplaceable r hr).leaf (hplaceable r hr).below
    exact ⟨(path, r), mem_visits.mpr ⟨hpath, hr, hhead⟩⟩
  cases hvisits : s.visits requests with
  | nil =>
    obtain ⟨v, hv⟩ := hvisit
    rw [hvisits] at hv
    exact absurd hv List.not_mem_nil
  | cons v rest =>
    obtain ⟨path, r⟩ := v
    obtain ⟨hpath, hr, hhead⟩ :=
      mem_visits.mp (hvisits ▸ List.mem_cons_self : (path, r) ∈ s.visits requests)
    have hfirst := placeRequest_start (hplaceable r hr) hpath (hroom r hr) hu
    refine ⟨r, hr, ?_⟩
    rw [run, foldl_placePath, hvisits, List.foldl_cons]
    exact Ledger.contains_assemble.mpr (s.complete_subset_foldl rest _ hfirst)

end PlacementSetting

end FogNet
