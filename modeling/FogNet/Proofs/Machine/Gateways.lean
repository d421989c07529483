import FogNet.Proofs.Machine.Accounts
import FogNet.Proofs.Placement.Whereabouts
import FogNet.Proofs.Topology.Nearest
import Mathlib.Data.List.Chain

/-!
# The requests of one gateway

The requests of a gateway go to the nearest orchestrating device above it. When this device places
its pending requests, it works along the paths from the leaves of its subtree. If the gateway is a
leaf, one of these paths is its way up, so each of its requests is considered once. All devices of
the way belong to the domain, so the books of the batch have an entry for each of them at any time.

## Main statements

* `PlacementSetting.visits_filter` — the visits for some of the requests
* `PlacementSetting.visits_gateway` — the requests of a leaf are considered once each
* `PlacementSetting.batchAfter_contains` — the books have an entry for every device of the domain
* `Topology.orchestration_agrees` — who orchestrates, the domain and the paths agree
-/

namespace FogNet

open Relation

namespace PlacementSetting

variable {s : PlacementSetting} {requests : List Request} {d : DeviceId}

/-! ## Moments of a batch -/

/-- What has become of a batch after some of its visits. -/
def batchAfter (s : PlacementSetting) (visits : List (List DeviceId × Request)) : Batch :=
  visits.foldl (fun b v => s.placeRequest v.1 b v.2) { ledger := .start s.domain }

/-- A run is its visits, one after the other. -/
theorem run_eq_batchAfter (s : PlacementSetting) (requests : List Request) :
    s.run requests =
      { placement := (s.batchAfter (s.visits requests)).ledger.assemble
          (s.batchAfter (s.visits requests)).complete
        ledger := (s.batchAfter (s.visits requests)).ledger
        failures := (s.batchAfter (s.visits requests)).failures } := by
  rw [run, foldl_placePath]
  rfl

/-- The books of a batch have an entry for every device of the domain. -/
theorem batchAfter_contains (hd : d ∈ s.domain) (visits : List (List DeviceId × Request)) :
    (s.batchAfter visits).ledger.contains d = true := by
  have hstart : (Ledger.start s.domain).contains d = true := Ledger.contains_start.mpr hd
  refine foldl_rule (I := fun _ (b : Batch) => b.ledger.contains d = true) hstart ?_
  intro _ v _ b _ h
  exact (s.placeRequest_contains v.1 b v.2 d).trans h

/-! ## The visits for a gateway -/

/-- Some of the requests are visited as they would be without the others. -/
theorem visits_filter (s : PlacementSetting) (requests : List Request) (p : Request → Bool) :
    ((s.visits requests).filter fun v => p v.2) = s.visits (requests.filter p) := by
  rw [visits, visits, List.filter_flatMap]
  refine List.flatMap_congr fun path _ => ?_
  rw [List.filter_map, List.filter_filter, List.filter_filter]
  exact congrArg _ (List.filter_congr fun r _ => Bool.and_comm _ _)

/-- The requests of a leaf are considered once each, in their order, along its path. -/
theorem visits_gateway (hf : s.layout.Forest) {way : List DeviceId} {g : DeviceId}
    (hway : way ∈ s.layout.leafPaths s.root) (hhead : way.head? = some g)
    (requests : List Request) : ((s.visits requests).filter fun v => v.2.gateway == g) =
      (requests.filter fun r => r.gateway == g).map fun r => (way, r) := by
  rw [visits_filter s requests fun r => r.gateway == g]
  refine visits_of_head hf hway _ fun r hr => ?_
  rw [hhead, beq_iff_eq.mp (List.mem_filter.mp hr).2]

end PlacementSetting

/-! ## Agreement -/

namespace Topology

open Layout

variable {l : Layout} {t : Topology} {g : DeviceId}

/--
A device is orchestrated by the lowest orchestrating device above it, if there is one. The way up
to it lies in its domain, and no other device on the way orchestrates. If the device is a leaf, this
way is the only one of its paths from there. So in a cycle the orchestrating device considers the
pending requests of the leaf once each, in their order and along this way, and at any moment of this
the books have an entry for every device of it.
-/
theorem orchestration_agrees (h : build l = .ok t) (hg : t.contains g = true) :
    (∀ root, t.orchestratorFor g = some root ↔ t.LowestOrchestrator g root) ∧
    (t.orchestratorFor g = none ↔ ∀ d, ReflTransGen t.Under g d → ¬ t.IsOrchestrator d) ∧
    ∀ root, t.orchestratorFor g = some root → ∃ way : List DeviceId,
      way.IsChain t.Under ∧ way.head? = some g ∧ way.getLast? = some root ∧
      (∀ d ∈ way, d ∈ t.domain root ∧ (t.IsOrchestrator d ↔ d = root)) ∧
      (t.children g = [] →
        ((t.leafPaths root).filter fun p => p.head? == some g) = [way] ∧
        ∀ (net : Network) (o : Orchestrator), net.topology = t →
          let s := o.setting net root
          let visits := s.visits o.pending
          (∃ actions o', (o.tick net root).value = some (actions, o') ∧
            o'.pending = o.pending.filter fun r =>
              !(o.attempt net root).placement.contains r.id) ∧
            o.attempt net root =
              { placement := (s.batchAfter visits).ledger.assemble (s.batchAfter visits).complete
                ledger := (s.batchAfter visits).ledger
                failures := (s.batchAfter visits).failures } ∧
            (visits.filter fun v => v.2.gateway == g) =
              (o.pending.filter fun r => r.gateway == g).map (fun r => (way, r)) ∧
            ∀ before r app met, before ++ [(way, r)] <+: visits → met <+: way → ∀ d ∈ way,
              (s.walkPast app way r.id met
                { ledger := (s.batchAfter before).ledger
                  placed := r.placed.keys
                  failures := (s.batchAfter before).failures }).ledger.contains d = true) := by
  have hf := forest_of_build h
  have hid := contains_iff.mp hg
  refine ⟨fun root => hf.orchestratorFor_eq_some_iff hid, hf.orchestratorFor_eq_none_iff hid,
    fun root hroot => ?_⟩
  obtain ⟨way, hway, hlast, horch⟩ := hf.exists_way hroot
  have hdomain : way ⊆ t.domain root := hf.way_subset_domain hid hway hlast
  obtain ⟨rest, hsplit⟩ := id hway
  have hchain : way.IsChain t.Under := by
    have hall := hf.chain_isChain hid
    rw [← hsplit] at hall
    exact hall.left_of_append
  have hhead : way.head? = some g := by
    have hne : way ≠ [] := List.ne_nil_of_mem (List.mem_of_getLast? hlast)
    rw [← hf.chain_head? hid, ← hsplit, List.head?_append_of_ne_nil _ hne]
  refine ⟨way, hchain, hhead, hlast, fun d hd => ⟨hdomain hd, horch d hd⟩, fun hleaf => ?_⟩
  obtain ⟨hmem, hfilter⟩ := hf.leafPaths_filter_head hleaf hid hway hlast
  refine ⟨hfilter, ?_⟩
  rintro net o rfl
  refine ⟨?_, ?_,
    PlacementSetting.visits_gateway (s := o.setting net root) hf hmem hhead o.pending,
    fun before r app met _ _ d hd => ?_⟩
  · obtain ⟨actions, o', htick⟩ := Orchestrator.exists_tick net root o
    exact ⟨actions, o', htick, Orchestrator.tick_pending htick⟩
  · rw [Orchestrator.attempt_eq, PlacementSetting.run_eq_batchAfter]
  · rw [PlacementSetting.walkPast_contains]
    exact PlacementSetting.batchAfter_contains (s := o.setting net root) (hdomain hd) before

/-- The requests of three gateways below one data centre. -/
def orchardRequests : List Request :=
  [⟨1, "a", 6, .empty⟩, ⟨2, "a", 4, .empty⟩, ⟨3, "a", 5, .empty⟩, ⟨4, "a", 6, .empty⟩]

def orchardNetwork : Network :=
  { topology := orchardTopology, applications := .ofList [], policy := {} }

/-- The fog node that a gateway is below orchestrates it, and considers both of its requests. -/
theorem orchestration_agrees_orchard :
    orchardTopology.contains 6 = true ∧ orchardTopology.LowestOrchestrator 6 2 ∧
      (((Orchestrator.mk .empty orchardRequests).setting orchardNetwork 2).visits
          orchardRequests).filter (fun v => v.2.gateway == 6) =
        [([6, 2], ⟨1, "a", 6, .empty⟩), ([6, 2], ⟨4, "a", 6, .empty⟩)] := by
  have hg : orchardTopology.contains 6 = true := by decide +kernel
  have hroot : orchardTopology.orchestratorFor 6 = some 2 := by decide +kernel
  have hleaf : orchardTopology.children 6 = [] := by decide +kernel
  have hpaths : ((orchardTopology.leafPaths 2).filter fun p => p.head? == some 6) = [[6, 2]] := by
    decide +kernel
  obtain ⟨hlowest, _, hall⟩ := orchestration_agrees build_orchard hg
  obtain ⟨way, _, _, _, _, hway⟩ := hall 2 hroot
  obtain ⟨honly, hrequests⟩ := hway hleaf
  rw [hpaths] at honly
  obtain rfl : [6, 2] = way := List.singleton_inj.mp honly
  exact ⟨hg, (hlowest 2).mp hroot, (hrequests orchardNetwork ⟨.empty, orchardRequests⟩ rfl).2.2.1⟩

end Topology

end FogNet
