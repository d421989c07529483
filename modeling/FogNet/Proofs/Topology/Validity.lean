import FogNet.Proofs.Topology.Distance
import Mathlib.Data.List.Perm.Subperm

/-!
# Which layouts have a topology

A layout is refused for a device that is declared twice or cannot send, for an unknown parent, and
for parents that form a cycle; nothing else is wrong with one. The search for a cycle meets a new
device with every step as long as no device is above itself, so it never runs out of steps, however
deep the tree is. And since links lead both ways, all devices below one root are joined: routes are
found between them, unless their latencies add up to more than a duration can hold.

## Main statements

* `Valid.endsAbove` — without a cycle the search for an end of the parents finds one
* `fault?_eq_none_iff` — the layouts that are not refused
* `Forest.unrouted?_eq_none` — no pair of devices in one tree is left without a route
* `Topology.build_ok_iff` — which layouts have a topology
-/

namespace FogNet

open Relation

theorem Device.hasUsableLinks_iff {d : Device} : d.hasUsableLinks = true ↔
    ∀ kind : LinkKind, (d.bandwidth.get kind).isFinite = true ∧ d.bandwidth.get kind > 0.0 := by
  simp only [hasUsableLinks, List.all_eq_true, Bool.and_eq_true, decide_eq_true_eq]
  exact ⟨fun h kind => h kind (by cases kind <;> decide), fun h kind _ => h kind⟩

namespace Layout

variable {l : Layout} {id self : DeviceId} {met : List DeviceId} {next : Option DeviceId}

/-- Different devices that can send over all links, below known parents, none above itself. -/
structure Valid (l : Layout) : Prop where
  nodup : l.ids.Nodup
  usable : ∀ d ∈ l.devices, ∀ kind : LinkKind,
    (d.bandwidth.get kind).isFinite = true ∧ d.bandwidth.get kind > 0.0
  parent_known : ∀ d ∈ l.devices, ∀ p, d.parent = some p → p ∈ l.ids
  acyclic : ∀ id ∈ l.ids, ¬ TransGen l.Under id id

/-! ## The end of the parents -/

/-- What a search for the end of the parents has met, and the parent that it comes to next. -/
structure Climbing (l : Layout) (met : List DeviceId) (next : Option DeviceId) : Prop where
  nodup : met.Nodup
  known : met ⊆ l.ids
  next_known : ∀ p ∈ next, p ∈ l.ids
  above : ∀ p ∈ next, ∀ m ∈ met, TransGen l.Under m p

theorem Valid.parent?_known (h : l.Valid) {p : DeviceId} (hp : l.parent? id = some p) :
    p ∈ l.ids := by
  obtain ⟨d, hd, hdp⟩ := parent?_eq_some.mp hp
  exact h.parent_known d (device?_some hd).1 p hdp

theorem Valid.climbing_start (h : l.Valid) (hid : id ∈ l.ids) :
    l.Climbing [id] (l.parent? id) where
  nodup := List.nodup_singleton id
  known := List.cons_subset.mpr ⟨hid, List.nil_subset _⟩
  next_known _ hp := h.parent?_known hp
  above _ hp _ hm := List.mem_singleton.mp hm ▸ .single hp

namespace Climbing

/-- A parent that is come to was not met before. -/
theorem not_met {p : DeviceId} (hc : l.Climbing met (some p)) (h : l.Valid) : p ∉ met :=
  fun hp => h.acyclic p (hc.next_known p rfl) (hc.above p rfl p hp)

theorem step {p : DeviceId} (hc : l.Climbing met (some p)) (h : l.Valid) :
    l.Climbing (p :: met) (l.parent? p) where
  nodup := List.nodup_cons.mpr ⟨hc.not_met h, hc.nodup⟩
  known := List.cons_subset.mpr ⟨hc.next_known p rfl, hc.known⟩
  next_known q hq := h.parent?_known hq
  above q hq m hm := by
    rcases List.mem_cons.mp hm with rfl | hm
    · exact .single hq
    · exact (hc.above p rfl m hm).tail hq

/-- No more devices are met than there are. -/
theorem length_le (hc : l.Climbing met next) : met.length ≤ l.devices.length := by
  have hle := (List.subperm_of_subset hc.nodup hc.known).length_le
  rwa [ids, List.length_map] at hle

end Climbing

/-- Without a cycle the search comes to an end before it runs out of steps. -/
theorem Valid.endsAbove (h : l.Valid) : ∀ {steps : Nat} {met : List DeviceId}
    {next : Option DeviceId}, l.Climbing met next → self ∈ met →
      l.devices.length ≤ met.length + steps → l.endsAbove self steps next = true
  | 0, _, none, _, _, _ => rfl
  | _ + 1, _, none, _, _, _ => rfl
  | 0, met, some p, hc, _, hlen => by
    -- With the next parent there would be more devices met than there are.
    have hle := (hc.step h).length_le
    rw [List.length_cons] at hle
    omega
  | steps + 1, met, some p, hc, hself, hlen => by
    have hp : p ≠ self := fun hp => hc.not_met h (hp ▸ hself)
    have hrest : l.endsAbove self steps (l.parent? p) = true :=
      h.endsAbove (hc.step h) (List.mem_cons_of_mem p hself) (by rw [List.length_cons]; omega)
    simp [Layout.endsAbove, hp, hrest]

/-! ## What is refused -/

theorem Forest.acyclic (h : l.Forest) (id : DeviceId) : ¬ TransGen l.Under id id := by
  have hlower : ∀ {a b}, TransGen l.Under a b → (l.chain b).length < (l.chain a).length := by
    intro a b hab
    induction hab with
    | single hp => exact h.depth_parent?_lt hp
    | tail _ hp ih => exact Nat.lt_trans (h.depth_parent?_lt hp) ih
  exact fun hid => Nat.lt_irrefl _ (hlower hid)

theorem fault?_eq_none_iff : l.fault? = none ↔ l.Valid := by
  constructor
  · intro h
    have hf := forest_of_fault? h
    simp only [fault?, Option.or_eq_none_iff] at h
    have husable := (declarationFault_eq_none.mp h.1).2.2
    exact ⟨hf.nodup, fun d hd => Device.hasUsableLinks_iff.mp (husable d hd), hf.parent_known,
      fun id _ => hf.acyclic id⟩
  · intro h
    simp only [fault?, Option.or_eq_none_iff]
    refine ⟨declarationFault_eq_none.mpr ⟨h.nodup, fun _ _ => List.not_mem_nil,
      fun d hd => Device.hasUsableLinks_iff.mpr (h.usable d hd)⟩,
      parentFault_eq_none.mpr h.parent_known, cycleFault_eq_none.mpr fun d hd => ?_⟩
    have hstart := h.climbing_start (mem_ids.mpr ⟨d, hd, rfl⟩)
    rw [parent?, device?_of_mem h.nodup hd] at hstart
    exact h.endsAbove hstart List.mem_cons_self (Nat.le_add_left _ _)

theorem declarationFault_ne_missingRoute (start goal : DeviceId) :
    ∀ (devices : List Device) (seen : List DeviceId),
      declarationFault seen devices ≠ some (.missingRoute start goal)
  | [], _ => by simp [declarationFault]
  | d :: rest, seen => by
    have ih := declarationFault_ne_missingRoute start goal rest (d.id :: seen)
    rw [declarationFault]
    split
    · simp
    · split
      · simp
      · exact ih

/-- No fault of a layout is a missing route. -/
theorem fault?_ne_missingRoute (l : Layout) (start goal : DeviceId) :
    l.fault? ≠ some (.missingRoute start goal) := by
  intro h
  rw [fault?, Option.or_eq_some_iff] at h
  rcases h with h | ⟨_, h⟩
  · exact declarationFault_ne_missingRoute start goal _ _ h
  · rcases Option.or_eq_some_iff.mp h with h | ⟨_, h⟩
    · obtain ⟨d, _, hd⟩ := List.exists_of_findSome?_eq_some h
      cases hp : d.parent <;> simp [hp] at hd
    · obtain ⟨d, _, hd⟩ := List.exists_of_findSome?_eq_some h
      simp at hd

/-! ## Trees -/

namespace Forest

/-- The parents above a device come to an end, which is the top of its tree. -/
theorem exists_top (h : l.Forest) (hid : id ∈ l.ids) :
    ∃ top, l.top? id = some top ∧ top.parent = none ∧ ReflTransGen l.Under id top.id := by
  induction hdepth : (l.chain id).length using Nat.strongRecOn generalizing id with
  | ind depth ih =>
    obtain ⟨d, hd, hmem, rfl⟩ := exists_device hid
    cases hp : d.parent with
    | none =>
      refine ⟨d, ?_, hp, .refl⟩
      rw [top?, h.chain_eq hd, hp]
      rfl
    | some p =>
      have hlt := h.depth_parent_lt hd hp
      obtain ⟨top, htop, hnone, habove⟩ := ih _ (hdepth ▸ hlt) (h.parent_known d hmem p hp) rfl
      refine ⟨top, ?_, hnone, habove.head (parent?_eq_some.mpr ⟨d, hd, hp⟩)⟩
      rw [top?, h.chain_parent hd hp, List.getLast?_cons, ← top?, htop, Option.getD_some]

/-- Devices below one root are joined. -/
theorem joined_of_above (h : l.Forest) {a b root : DeviceId} (ha : ReflTransGen l.Under a root)
    (hb : ReflTransGen l.Under b root) : l.Joined a b :=
  (Joined.of_onWay (onWay_iff_above.mpr ha)).trans
    ((Joined.of_onWay (onWay_iff_above.mpr hb)).symm h)

/-- Between joined places the settled table has a route. -/
theorem routed_of_joined (h : l.Forest) {i j : Fin l.devices.length}
    (hj : l.Joined (l.idAt i) (l.idAt j)) :
    ∃ r, (Relaxation.routes l.linkLatency).table.get i j = some r := by
  obtain ⟨w, hw⟩ := hj
  obtain ⟨j', hj', hwalk⟩ := h.linkWalk_of_walk hw i rfl
  obtain rfl := h.idAt_inj hj'
  obtain ⟨r, hr, _⟩ := (Relaxation.routes_optimal h.linkLatency_symm).least hwalk
  exact ⟨r, hr⟩

/-- No pair of devices in one tree is left without a route. -/
theorem unrouted?_eq_none (h : l.Forest) :
    Topology.unrouted? { l with routes := (Relaxation.routes l.linkLatency).table } = none := by
  simp only [Topology.unrouted?, List.findSome?_eq_none_iff, List.mem_map, List.mem_finRange,
    true_and, forall_exists_index, forall_apply_eq_imp_iff, ite_eq_right_iff, reduceCtorEq,
    imp_false, not_and]
  intro i j htops
  obtain ⟨top, htop, _, habove⟩ := h.exists_top (idAt_mem i)
  obtain ⟨top', htop', _, habove'⟩ := h.exists_top (idAt_mem j)
  have hsame : top.id = top'.id := by
    have := htops
    rw [htop, htop'] at this
    exact Option.some.inj this
  obtain ⟨r, hr⟩ := h.routed_of_joined (h.joined_of_above habove (hsame ▸ habove'))
  simp [hr]

end Forest

end Layout

namespace Topology

variable {l : Layout}

open Layout

/-- A valid layout is built, unless some sum of latencies leaves the range of durations. -/
theorem build_of_valid (h : l.Valid) : build l =
    if Duration.limit ≤ (Relaxation.routes l.linkLatency).peak then .error .latencyOverflow
    else .ok { l with routes := (Relaxation.routes l.linkLatency).table } := by
  have hfault := fault?_eq_none_iff.mpr h
  split
  · next hpeak => simp [build, hfault, hpeak]
  · next hpeak => exact build_eq_ok hfault rfl hpeak (forest_of_fault? hfault).unrouted?_eq_none

theorem valid_of_build {t : Topology} (h : build l = .ok t) : l.Valid :=
  fault?_eq_none_iff.mp (build_ok_cases h).1

/-- No layout is refused for a missing route. -/
theorem build_ne_missingRoute (l : Layout) (start goal : DeviceId) :
    build l ≠ .error (.missingRoute start goal) := by
  cases hfault : l.fault? with
  | some e =>
    have he := hfault ▸ l.fault?_ne_missingRoute start goal
    simpa [build, hfault] using he
  | none =>
    rw [build_of_valid (fault?_eq_none_iff.mp hfault)]
    split <;> simp

/-- All devices below one root have next hops to one another. -/
theorem nextHop_of_above {t : Topology} (h : build l = .ok t) {a b root : DeviceId}
    (hmem : a ∈ t.ids) (ha : ReflTransGen t.Under a root) (hb : ReflTransGen t.Under b root) :
    ∃ hop, t.nextHop a b = .ok hop :=
  exists_nextHop h hmem ((forest_of_build h).joined_of_above ha hb)

/--
Of the layouts whose latencies stay in range, those are built whose devices are different, can send
over all their links and have known parents, none being its own ancestor. Where the checks find no
fault, the parents above every device come to an end; in a topology what is below one root is
routed.
-/
theorem build_ok_iff (l : Layout)
    (hsums : l.fault? = none → (Relaxation.routes l.linkLatency).peak < Duration.limit) :
    ((∃ t, build l = .ok t) ↔ l.Valid) ∧
      (∀ start goal, build l ≠ .error (.missingRoute start goal)) ∧
      (l.fault? = none → ∀ id ∈ l.ids, ∃ top, l.top? id = some top ∧ top.parent = none ∧
        ReflTransGen l.Under id top.id) ∧
      ∀ t, build l = .ok t → ∀ a ∈ t.ids, ∀ b ∈ t.ids, ∀ root, ReflTransGen t.Under a root →
        ReflTransGen t.Under b root → ∃ hop, t.nextHop a b = .ok hop := by
  refine ⟨⟨fun ⟨t, ht⟩ => valid_of_build ht, fun h => ?_⟩, build_ne_missingRoute l, ?_, ?_⟩
  · have hpeak := hsums (fault?_eq_none_iff.mpr h)
    exact ⟨_, (build_of_valid h).trans (if_neg (Nat.not_le.mpr hpeak))⟩
  · exact fun hfault id hid => (forest_of_fault? hfault).exists_top hid
  · exact fun t ht a ha b _ root hroot hroot' => nextHop_of_above ht ha hroot hroot'

/-- A gateway below two devices that declare each other as their parent. -/
def orbit : Layout :=
  { devices := [
      { id := 1, name := "gw", role := .fcn, parent := some 2, capacity := { cpuMips := 10 } },
      { id := 2, name := "east", role := .fon, parent := some 3, capacity := { cpuMips := 100 } },
      { id := 3, name := "west", role := .fon, parent := some 2, capacity := { cpuMips := 100 } }] }

theorem build_ok_iff_orbit : slowCluster.Valid ∧
    (∃ hop, slowClusterTopology.nextHop 2 3 = .ok hop) ∧ ¬ ∃ t, build orbit = .ok t := by
  have hsums : (Relaxation.routes slowCluster.linkLatency).peak < Duration.limit := by
    have hsettled : Relaxation.routes slowCluster.linkLatency = _ :=
      Relaxation.settle_of_still (by decide +kernel)
    rw [hsettled]
    decide +kernel
  obtain ⟨hvalid, _, _, hrouted⟩ := build_ok_iff slowCluster fun _ => hsums
  refine ⟨hvalid.mp ⟨_, build_slowCluster⟩, ?_, fun hbuild => ?_⟩
  · exact hrouted _ build_slowCluster 2 (by decide) 3 (by decide) 1 (.single rfl) (.single rfl)
  · obtain ⟨hvalid, _⟩ := build_ok_iff orbit fun hfault => absurd hfault (by decide +kernel)
    exact (hvalid.mp hbuild).acyclic 2 (by decide) (.head (b := 3) rfl (.single rfl))

end Topology

end FogNet
