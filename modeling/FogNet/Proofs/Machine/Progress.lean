import FogNet.Proofs.Machine.Requests
import FogNet.Proofs.Placement.Foremost

/-!
# Working off the pending requests

If an orchestrating device has room for all that the pending requests still need, every cycle places
one of them at least, the one that it begins with. What a cycle takes from the device is needed by
the requests that it places, so there is still room for the others, and without new requests none is
pending after as many cycles as there were requests. A single cycle need not place them all, even
then: a request fails if its walk has passed a device that hosts what it asks for later.

## Main statements

* `Feasible.exists_returned` — a cycle places a request
* `Feasible.tick` — the others can be worked off as well
* `pending_worked_off` — after as many cycles as there are pending requests none is left
-/

namespace FogNet

namespace Orchestrator

variable {l : Layout} {net : Network} {root : DeviceId} {dev : Device} {o o' : Orchestrator}
  {actions : List Action}

/--
The pending requests can be worked off: each has a number of its own and can be served, and the
orchestrating device has free what all of them need together.
-/
structure Feasible (net : Network) (root : DeviceId) (o : Orchestrator) : Prop where
  distinct : (o.pending.map Request.id).Nodup
  placeable : ∀ r ∈ o.pending, (o.setting net root).Placeable r
  room : sumOf (o.pending.map net.applications.need) ≤ o.resources.freeCpu root

/-- The orchestrator after a number of cycles without a submission. -/
def after (net : Network) (root : DeviceId) : Nat → Orchestrator → Option Orchestrator
  | 0, o => some o
  | n + 1, o => (o.tick net root).value.bind fun r => after net root n r.2

/-- An orchestrating device may be placed on when a batch begins. -/
theorem usable_start (hroot : net.device? root = some dev) (hrole : dev.role.orchestrates = true)
    (o : Orchestrator) : (o.setting net root).usable (.start (net.topology.domain root)) root
      = true :=
  PlacementSetting.usable_start (s := o.setting net root) hroot
    (Role.ne_client_of_orchestrates hrole) (Layout.mem_domain_self (Option.isSome_of_mem hroot))

namespace Feasible

variable (hb : Topology.build l = .ok net.topology)
include hb

/-- A cycle places one of the pending requests, and it is not pending any longer. -/
theorem exists_returned (h : o.Feasible net root) (hroot : net.device? root = some dev)
    (hrole : dev.role.orchestrates = true) (hne : o.pending ≠ []) :
    ∃ r ∈ o.pending, ∃ a, (o.attempt net root).placement.get? r.id = some a
      ∧ Serves net root r a := by
  have hroom : ∀ r ∈ o.pending, net.applications.need r ≤ o.resources.freeCpu root := by
    intro r hr
    have hle := sumOf_sublist ((List.singleton_sublist.mpr hr).map net.applications.need)
    exact Nat.le_trans hle h.room
  obtain ⟨r, hr, hcontains⟩ := PlacementSetting.exists_contains_run (s := o.setting net root)
    (Layout.forest_of_build hb) (usable_start hroot hrole o) h.placeable hroom hne
  rw [← attempt_eq] at hcontains
  obtain ⟨a, hget⟩ := Option.isSome_iff_exists.mp hcontains
  obtain ⟨r', hr', hid, hserves⟩ := returned_of_get? hb h.distinct hget
  obtain rfl : r' = r := List.inj_on_of_nodup_map h.distinct hr' hr hid
  exact ⟨r', hr, a, hget, hserves⟩

/-- A cycle answers a pending request, which is not pending any longer. -/
theorem tick_returns (h : o.Feasible net root) (hroot : net.device? root = some dev)
    (hrole : dev.role.orchestrates = true) (ht : (o.tick net root).value = some (actions, o'))
    (hne : o.pending ≠ []) : ∃ r ∈ o.pending, r ∉ o'.pending
      ∧ ∃ a, (o.attempt net root).placement.get? r.id = some a ∧ Serves net root r a := by
  obtain ⟨r, hr, a, hget, hserves⟩ := h.exists_returned hb hroot hrole hne
  refine ⟨r, hr, fun hr' => ?_, a, hget, hserves⟩
  rw [tick_pending ht] at hr'
  simp [SortedMap.contains_eq, hget] at hr'

variable (ha : net.applications.Alike)
include ha

/-- What a cycle leaves pending can be worked off again. -/
theorem tick (h : o.Feasible net root) (ht : (o.tick net root).value = some (actions, o')) :
    o'.Feasible net root := by
  have hpending := tick_pending ht
  have hsub : o'.pending.Sublist o.pending := hpending ▸ List.filter_sublist
  refine ⟨h.distinct.sublist (hsub.map _), fun r hr => ?_, ?_⟩
  · have hplaceable := h.placeable r (hsub.subset hr)
    exact ⟨hplaceable.leaf, hplaceable.below, hplaceable.registered⟩
  · -- The room of the device is a word, so all that is pending fits one.
    have hrange : net.applications.WithinWord o.pending :=
      Nat.lt_of_le_of_lt h.room (o.resources.freeCpu_lt root)
    have hload : (o.attempt net root).ledger.load root
        ≤ sumOf ((o.pending.filter fun r => (o.attempt net root).placement.contains r.id).map
          net.applications.need) := by
      rw [attempt_eq]
      exact PlacementSetting.root_load_le (s := o.setting net root)
        (Layout.forest_of_build hb) h.distinct ha hrange
    have hsplit := sumOf_map_filter (fun r => (o.attempt net root).placement.contains r.id)
      net.applications.need o.pending
    have hfree := freeCpu_tick hb h.distinct ht root
    have hroom := h.room
    rw [hpending]
    omega

theorem after_eq_nil (hroot : net.device? root = some dev) (hrole : dev.role.orchestrates = true) :
    ∀ (n : Nat) {o : Orchestrator}, o.Feasible net root → o.pending.length ≤ n →
      ∃ o', o.after net root n = some o' ∧ o'.pending = []
  | 0, o, _, hlen => ⟨o, rfl, List.length_eq_zero_iff.mp (Nat.le_zero.mp hlen)⟩
  | n + 1, o, h, hlen => by
    obtain ⟨actions, o₁, ht⟩ := exists_tick net root o
    have hshorter : o₁.pending.length ≤ n := by
      by_cases hne : o.pending = []
      · rw [tick_pending ht, hne]
        exact Nat.zero_le n
      · obtain ⟨r, hr, hgone, _⟩ := h.tick_returns hb hroot hrole ht hne
        rw [tick_pending ht] at hgone ⊢
        have hlt := List.length_filter_lt_length_iff_exists
          (p := fun r => !(o.attempt net root).placement.contains r.id).mpr
            ⟨r, hr, fun hp => hgone (List.mem_filter.mpr ⟨hr, hp⟩)⟩
        omega
    obtain ⟨o', hafter, hnone⟩ := after_eq_nil hroot hrole n (h.tick hb ha ht) hshorter
    exact ⟨o', by rw [after, ht, Option.bind_some, hafter], hnone⟩

end Feasible

/--
Take an orchestrating device whose pending requests can be worked off. A cycle then comes to an end,
leaves requests that can be worked off, and answers at least one if any is pending. Without further
submissions none is pending after as many cycles as there were requests.
-/
theorem pending_worked_off (hb : Topology.build l = .ok net.topology)
    (hroot : net.device? root = some dev) (hrole : dev.role.orchestrates = true)
    (ha : net.applications.Alike) (h : o.Feasible net root) :
    (∃ actions o', (o.tick net root).value = some (actions, o') ∧ o'.Feasible net root
        ∧ (o.pending ≠ [] → ∃ r ∈ o.pending, r ∉ o'.pending
          ∧ ∃ a, (o.attempt net root).placement.get? r.id = some a ∧ Serves net root r a))
      ∧ ∀ n, o.pending.length ≤ n → ∃ o', o.after net root n = some o' ∧ o'.pending = [] := by
  obtain ⟨actions, o', ht⟩ := exists_tick net root o
  refine ⟨⟨actions, o', ht, h.tick hb ha ht, ?_⟩, ?_⟩
  · exact h.tick_returns hb hroot hrole ht
  · exact fun n hlen => Feasible.after_eq_nil hb ha hroot hrole n h hlen

/-- An application with one microservice, and one in which another one feeds the same. -/
def relayed : List Application :=
  [{ id := "a", user := 1, microservices := [⟨"m", 20, 0, 0, []⟩, ⟨"x", 5, 0, 0, []⟩],
      edges := [.ofSensor "t" "client" 1 1, feeding] },
    { id := "b", user := 1, microservices := [⟨"x", 5, 0, 0, []⟩],
      edges := [.ofSensor "t" "client" 1 1] }]

/-- The gateway has room for `x` but not for `m`, the cloud has room for everything. -/
def crowded : Orchestrator :=
  { resources := .ofList [(1, { cpuMips := 100 }), (2, { cpuMips := 10 })]
    pending := [⟨1, "b", 2, .empty⟩, ⟨2, "a", 2, .empty⟩] }

theorem feasible_crowded : crowded.Feasible (twoTierNetwork relayed) 1 := by
  have hbelow : twoTierTopology.OnWay 1 2 1 :=
    Relation.ReflTransGen.single ⟨by decide, by decide +kernel⟩
  refine ⟨by decide +kernel, ?_, by decide +kernel⟩
  refine List.forall_mem_cons.mpr ⟨⟨by decide +kernel, hbelow, ?_⟩,
    List.forall_mem_singleton.mpr ⟨by decide +kernel, hbelow, ?_⟩⟩
  · exact ⟨relayed[1], by decide +kernel, .of_ready (n := "x") (by decide +kernel)
      (Application.orderable_of_placed (by decide +kernel))⟩
  · exact ⟨relayed[0], by decide +kernel, .of_ready (n := "m") (by decide +kernel)
      (.of_ready (n := "x") (by decide +kernel)
        (Application.orderable_of_placed (by decide +kernel)))⟩

/--
The first cycle does not place the second request, since its walk has passed the gateway with `x`
when `m` is placed on the cloud. After two cycles none is pending.
-/
theorem pending_worked_off_crowded : crowded.Feasible (twoTierNetwork relayed) 1
    ∧ (crowded.attempt (twoTierNetwork relayed) 1).placement.contains 2 = false
    ∧ ∃ o', crowded.after (twoTierNetwork relayed) 1 2 = some o' ∧ o'.pending = [] := by
  refine ⟨feasible_crowded, by decide +kernel, ?_⟩
  have hcloud : ∃ dev, (twoTierNetwork relayed).device? 1 = some dev
      ∧ dev.role.orchestrates = true := ⟨_, rfl, rfl⟩
  obtain ⟨dev, hdev, hrole⟩ := hcloud
  exact (pending_worked_off build_twoTier hdev hrole (by decide +kernel) feasible_crowded).2 2
    (Nat.le_refl _)

end Orchestrator

end FogNet
