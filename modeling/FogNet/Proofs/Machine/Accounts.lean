import FogNet.Machine.Orchestrator
import FogNet.Proofs.Placement.Outcome
import FogNet.Proofs.Topology.Distance

/-!
# The accounts of an orchestrator

An orchestrator starts with all that its domain offers and takes from that what each of its cycles
places. Over a run of submissions and cycles, what is free of a device and what all cycles so far
have put on it make up what it offered at the start, so nothing is ever overcommitted. In a cycle a
request that is not placed takes nothing.

The accounts need applications that agree, and cycles in which no sum is too large for a word. All
else holds of any run.

## Main statements

* `Run.free_add_demand` — what is free and what was placed make up what there was
* `cpu_accounted` — the accounts of a run, and of the next cycle
-/

namespace FogNet

namespace Orchestrator

/--
The runs of the orchestrator of `root`: what was submitted, what the cycles placed, and the state
that this led to.
-/
inductive Run (net : Network) (root : DeviceId) :
    List Request → List Placement → Orchestrator → Prop
  | start : Run net root [] [] (.start net root)
  | submit {submitted : List Request} {placements : List Placement} {o : Orchestrator}
      (request : Request) : Run net root submitted placements o →
        Run net root (submitted ++ [request]) placements (o.submit request)
  | tick {submitted : List Request} {placements : List Placement} {o o' : Orchestrator}
      {actions : List Action} : Run net root submitted placements o →
        (o.tick net root).value = some (actions, o') →
          Run net root submitted (placements ++ [(o.attempt net root).placement]) o'

/-- The runs in which all that pending requests need fits a word when a cycle comes. -/
inductive BoundedRun (net : Network) (root : DeviceId) :
    List Request → List Placement → Orchestrator → Prop
  | start : BoundedRun net root [] [] (.start net root)
  | submit {submitted : List Request} {placements : List Placement} {o : Orchestrator}
      (request : Request) : BoundedRun net root submitted placements o →
        BoundedRun net root (submitted ++ [request]) placements (o.submit request)
  | tick {submitted : List Request} {placements : List Placement} {o o' : Orchestrator}
      {actions : List Action} : BoundedRun net root submitted placements o →
        net.applications.WithinWord o.pending → (o.tick net root).value = some (actions, o') →
          BoundedRun net root submitted (placements ++ [(o.attempt net root).placement]) o'

variable {l : Layout} {net : Network} {root : DeviceId} {o o' : Orchestrator}
  {submitted : List Request} {placements : List Placement} {actions : List Action}

/-! ## Cycles -/

theorem attempt_eq (net : Network) (root : DeviceId) (o : Orchestrator) :
    o.attempt net root = (o.setting net root).run o.pending := by
  unfold attempt
  cases net.policy.strategy
  rfl

/-- A cycle without a pending request changes nothing, any other one commits its ledger. -/
theorem tick_some_cases (h : (o.tick net root).value = some (actions, o')) :
    (o.pending = [] ∧ o' = o)
      ∨ o'.resources = (o.attempt net root).ledger.commit o.resources := by
  unfold tick at h
  split at h
  · next he =>
    rw [Recorded.value_pure, Option.some.injEq, Prod.mk.injEq] at h
    exact Or.inl ⟨List.isEmpty_iff.mp he, h.2.symm⟩
  · rw [Recorded.value_bind, place_value] at h
    simp only [Option.bind_some, Recorded.value_pure, Option.some.injEq, Prod.mk.injEq] at h
    rw [← h.2]
    exact Or.inr rfl

/-- A cycle always comes to an end, also if a sum is too large for a word and loses a carry. -/
theorem exists_tick (net : Network) (root : DeviceId) (o : Orchestrator) :
    ∃ actions o', (o.tick net root).value = some (actions, o') := by
  unfold tick
  split
  · exact ⟨_, _, rfl⟩
  · rw [Recorded.value_bind, place_value]
    exact ⟨_, _, rfl⟩

theorem Run.submitAll : ∀ (requests : List Request) {submitted : List Request} {o : Orchestrator},
    Run net root submitted placements o →
      Run net root (submitted ++ requests) placements (requests.foldl Orchestrator.submit o)
  | [], submitted, o, h => by
    rw [List.append_nil]
    exact h
  | r :: requests, submitted, o, h => by
    have hr := Run.submitAll requests (h.submit r)
    rwa [List.append_assoc, List.singleton_append] at hr

theorem Run.pending_sublist (hr : Run net root submitted placements o) :
    o.pending.Sublist submitted := by
  induction hr with
  | start => exact List.nil_sublist _
  | submit request _ ih => exact ih.append (List.Sublist.refl _)
  | tick _ h ih =>
    rw [tick_pending h]
    exact List.filter_sublist.trans ih

/-! ## Bounds -/

theorem BoundedRun.run (h : BoundedRun net root submitted placements o) :
    Run net root submitted placements o := by
  induction h with
  | start => exact .start
  | submit request _ ih => exact ih.submit request
  | tick _ _ ht ih => exact ih.tick ht

/-- What is pending was submitted, so a bound on that bounds all cycles. -/
theorem Run.bounded (hr : Run net root submitted placements o)
    (hw : net.applications.WithinWord submitted) :
    BoundedRun net root submitted placements o := by
  induction hr with
  | start => exact .start
  | submit request _ ih => exact (ih (hw.sublist (List.sublist_append_left _ _))).submit request
  | tick hr ht ih => exact (ih hw).tick (hw.sublist hr.pending_sublist) ht

/-! ## What there is at the start -/

theorem freeCpu_start {d : DeviceId} {dev : Device} (hd : net.device? d = some dev) :
    (start net root).resources.freeCpu d
      = if d ∈ net.topology.domain root then wrap dev.capacity.cpuMips else 0 := by
  have hget := SortedMap.get?_ofList (k := d) (v := dev.capacity)
    (l := (net.topology.domain root).filterMap fun id =>
      (net.device? id).map fun d => (d.id, d.capacity)) fun e he hk => by
    obtain ⟨id, _, he⟩ := List.mem_filterMap.mp he
    obtain ⟨dev', hdev', rfl⟩ := Option.map_eq_some_iff.mp he
    have hid : dev'.id = id := (Layout.device?_some hdev').2
    have hdd : id = d := hid.symm.trans hk
    rw [hdd, hd, Option.some.injEq] at hdev'
    rw [hdev']
  have hkeys : d ∈ ((net.topology.domain root).filterMap fun id =>
      (net.device? id).map fun d => (d.id, d.capacity)).map Prod.fst
        ↔ d ∈ net.topology.domain root := by
    simp only [List.mem_map, List.mem_filterMap, Option.map_eq_some_iff]
    constructor
    · rintro ⟨_, ⟨id, hid, dev', hdev', rfl⟩, rfl⟩
      exact (Layout.device?_some hdev').2 ▸ hid
    · intro hmem
      exact ⟨_, ⟨d, hmem, dev, hd, rfl⟩, (Layout.device?_some hd).2⟩
  rw [Snapshot.freeCpu, start, hget]
  simp only [hkeys]
  split <;> rfl

/-! ## Accounts -/

theorem load_of_no_pending (hp : o.pending = []) (d : DeviceId) :
    (o.attempt net root).ledger.load d = 0 := by
  have hvisits : (o.setting net root).visits [] = [] := by
    simp [PlacementSetting.visits]
  rw [attempt_eq, hp, PlacementSetting.run, PlacementSetting.foldl_placePath, hvisits]
  simp only [List.foldl_nil]
  rw [Ledger.load, Ledger.holding_start]

/-- A cycle takes from a device what its ledger notes for it. -/
theorem freeCpu_tick (hb : Topology.build l = .ok net.topology)
    (hn : (o.pending.map Request.id).Nodup) (h : (o.tick net root).value = some (actions, o'))
    (d : DeviceId) :
    o.resources.freeCpu d = o'.resources.freeCpu d + (o.attempt net root).ledger.load d := by
  rcases tick_some_cases h with ⟨hp, rfl⟩ | hres
  · rw [load_of_no_pending hp, Nat.add_zero]
  · have hfits : (o.attempt net root).ledger.load d ≤ o.resources.freeCpu d := by
      rw [attempt_eq]
      exact PlacementSetting.run_fits (s := o.setting net root) (Layout.forest_of_build hb) hn d
    rw [hres, Ledger.freeCpu_commit hfits]
    exact (Nat.sub_add_cancel hfits).symm

/-- If applications agree and no sum is too large, that is the demand of what it places there. -/
theorem load_attempt (hb : Topology.build l = .ok net.topology) (ha : net.applications.Agree)
    (hw : net.applications.WithinWord o.pending) (hn : (o.pending.map Request.id).Nodup)
    {cost : RequestId → Name → Nat} (hc : net.applications.Rates o.pending cost) (d : DeviceId) :
    (o.attempt net root).ledger.load d = (o.attempt net root).placement.demandOn cost d := by
  rw [attempt_eq]
  exact PlacementSetting.run_load (s := o.setting net root) (Layout.forest_of_build hb) hn ⟨ha, hw⟩
    hc d

/-- What is free of a device and what all cycles put on it make up what there was at the start. -/
theorem BoundedRun.free_add_demand (hb : Topology.build l = .ok net.topology)
    (ha : net.applications.Agree) {cost : RequestId → Name → Nat}
    (hr : BoundedRun net root submitted placements o) (hn : (submitted.map Request.id).Nodup)
    (hc : net.applications.Rates submitted cost) (d : DeviceId) :
    (Orchestrator.start net root).resources.freeCpu d
      = o.resources.freeCpu d + sumOf (placements.map fun p => p.demandOn cost d) := by
  induction hr with
  | start => rfl
  | submit request _ ih =>
    rw [List.map_append] at hn
    exact ih (List.nodup_append.mp hn).1 (hc.mono (List.subset_append_left _ _))
  | tick hr hw h ih =>
    have hsub := hr.run.pending_sublist
    have hpending := hn.sublist (hsub.map _)
    rw [ih hn hc, freeCpu_tick hb hpending h,
      load_attempt hb ha hw hpending (hc.mono hsub.subset), List.map_append, sumOf_append,
      Nat.add_assoc, Nat.add_comm (Placement.demandOn _ _ _)]
    rfl

/-- A cycle that places nothing takes nothing. -/
theorem resources_of_nothing_placed (hb : Topology.build l = .ok net.topology)
    (ha : net.applications.Agree) (hw : net.applications.WithinWord o.pending)
    (hn : (o.pending.map Request.id).Nodup) (h : (o.tick net root).value = some (actions, o'))
    (hnone : (o.attempt net root).placement.isEmpty = true) : o'.resources = o.resources := by
  rcases tick_some_cases h with ⟨_, rfl⟩ | hres
  · rfl
  · have hempty : (o.attempt net root).placement.entries = [] := List.isEmpty_iff.mp hnone
    rw [hres]
    refine Ledger.commit_of_no_load fun d => ?_
    rw [load_attempt hb ha hw hn (Applications.rates_demandOf hn), Placement.demandOn,
      Placement.on, hempty]
    rfl

/--
The accounts of a run. In the next cycle the instances of a device are those of what is placed
there, and a request that is not placed has no slot. Let applications agree. If in no cycle so far
a sum was too large for a word, what is free of a device of the domain and what all cycles put there
make up its capacity. If in the next cycle none is, its load is the demand of what is placed, and if
nothing is placed nothing is taken.
-/
theorem cpu_accounted (hb : Topology.build l = .ok net.topology)
    (hr : Run net root submitted placements o) (hn : (submitted.map Request.id).Nodup) :
    (∀ d name, (o.attempt net root).ledger.count d name
        = (o.attempt net root).placement.countOn d name)
      ∧ (∀ id, (o.attempt net root).placement.contains id = false →
          ∀ name, (o.attempt net root).ledger.serves id name = false)
      ∧ ∃ actions o', (o.tick net root).value = some (actions, o')
          ∧ (net.applications.Agree →
              (BoundedRun net root submitted placements o →
                ∀ d ∈ net.topology.domain root, ∃ dev, net.device? d = some dev
                  ∧ wrap dev.capacity.cpuMips = o.resources.freeCpu d + sumOf (placements.map fun p =>
                      p.demandOn (net.applications.demandOf submitted) d))
              ∧ (net.applications.WithinWord o.pending →
                (∀ d, (o.attempt net root).ledger.load d
                  = (o.attempt net root).placement.demandOn (net.applications.demandOf submitted) d)
                ∧ ((o.attempt net root).placement.isEmpty = true →
                  o'.resources = o.resources))) := by
  have hf := Layout.forest_of_build hb
  have hsub := hr.pending_sublist
  have hpending := hn.sublist (hsub.map Request.id)
  have hc : net.applications.Rates submitted (net.applications.demandOf submitted) :=
    Applications.rates_demandOf hn
  obtain ⟨actions, o', h⟩ := exists_tick net root o
  refine ⟨?_, ?_, actions, o', h, ?_⟩
  · intro d name
    rw [attempt_eq]
    exact PlacementSetting.run_count (s := o.setting net root) hf hpending d name
  · intro id hid name
    rw [attempt_eq] at hid ⊢
    exact PlacementSetting.run_serves (s := o.setting net root) hf hpending hid name
  · refine fun ha => ⟨fun hbounded d hd => ?_, fun hw => ⟨?_, ?_⟩⟩
    · obtain ⟨dev, hdev, _⟩ := Layout.exists_device (net.topology.domain_subset root hd)
      have hsum := hbounded.free_add_demand hb ha hn hc d
      rw [freeCpu_start hdev, if_pos hd] at hsum
      exact ⟨dev, hdev, hsum⟩
    · exact load_attempt hb ha hw hpending (hc.mono hsub.subset)
    · exact resources_of_nothing_placed hb ha hw hpending h

/-! ## One cycle -/

/-- The orchestrator of a device when just these requests were submitted. -/
def asked (net : Network) (root : DeviceId) (requests : List Request) : Orchestrator :=
  { start net root with pending := requests }

theorem asked_resources (net : Network) (root : DeviceId) (requests : List Request) :
    (asked net root requests).resources = (start net root).resources := rfl

theorem foldl_submit (requests : List Request) (o : Orchestrator) :
    requests.foldl submit o = { o with pending := o.pending ++ requests } := by
  induction requests generalizing o with
  | nil => rw [List.foldl_nil, List.append_nil]
  | cons r requests ih =>
    rw [List.foldl_cons, ih, submit]
    simp only [List.append_assoc, List.singleton_append]

theorem run_asked (net : Network) (root : DeviceId) (requests : List Request) :
    Run net root requests [] (asked net root requests) := by
  have hr : Run net root ([] ++ requests) [] (requests.foldl submit (start net root)) :=
    Run.start.submitAll requests
  rwa [foldl_submit] at hr

/-- The first cycle of an orchestrator, and what it takes. -/
theorem exists_run_once (net : Network) (hb : Topology.build l = .ok net.topology)
    (root : DeviceId) (requests : List Request) (hn : (requests.map Request.id).Nodup) :
    ∃ o, Run net root requests [((asked net root requests).attempt net root).placement] o
      ∧ ∀ d, (start net root).resources.freeCpu d = o.resources.freeCpu d
        + ((asked net root requests).attempt net root).ledger.load d := by
  obtain ⟨_, o, h⟩ := exists_tick net root (asked net root requests)
  refine ⟨o, (run_asked net root requests).tick h, fun d => ?_⟩
  rw [← asked_resources net root requests]
  exact freeCpu_tick hb hn h d

/-! ## Two tiers -/

/-- A gateway that hosts microservices itself, and a cloud above it that has as much to offer. -/
def twoTier : Layout :=
  { devices := [
      { id := 1, name := "cloud", role := .cloud, capacity := { cpuMips := 100 } },
      { id := 2, name := "gw", role := .fcn, parent := some 1, capacity := { cpuMips := 100 } }] }

/-- The topology of `twoTier`: its routes are settled after one sweep. -/
def twoTierTopology : Topology :=
  { twoTier with routes := (Relaxation.firstSweep twoTier.linkLatency).sweep.table }

theorem build_twoTier : Topology.build twoTier = .ok twoTierTopology :=
  Topology.build_eq_ok (by decide +kernel) (Relaxation.settle_of_still (by decide +kernel))
    (by decide +kernel) (by decide +kernel)

def twoTierNetwork (apps : List Application) : Network :=
  { topology := twoTierTopology, applications := .ofList apps, policy := {} }

/-- The accounts of a device are wrong after a cycle that notes less load than it puts there. -/
theorem twoTier_unaccounted {apps : List Application} {dev : Device} {d : DeviceId}
    {free load placed : Nat} (hdev : (twoTierNetwork apps).device? d = some dev)
    (hfree : (start (twoTierNetwork apps) 1).resources.freeCpu d = free + load)
    (hcpu : dev.capacity.cpuMips = free + placed)
    (hd : d ∈ (twoTierNetwork apps).topology.domain 1) (hless : load < placed) : False := by
  have hcapacity : ∀ dev ∈ twoTier.devices, dev.capacity.cpuMips < UInt64.size := by decide
  rw [freeCpu_start hdev, if_pos hd,
    wrap_of_lt (hcapacity dev (Layout.device?_some hdev).1)] at hfree
  omega

/-- The edge on which `m` feeds `x`, going up. -/
def feeding : Edge :=
  { kind := .module, source := "m", destination := "x", tupleType := "u", direction := .up,
    cpuLength := 1, size := 1 }

/-- Two applications that both declare `x`, with one demand. -/
def sharers : List Application :=
  [{ id := "a", user := 1, microservices := [⟨"m", 30, 0, 0, []⟩, ⟨"x", 45, 0, 0, []⟩],
      edges := [.ofSensor "t" "client" 1 1, feeding] },
    { id := "b", user := 1, microservices := [⟨"x", 45, 0, 0, []⟩],
      edges := [.ofSensor "t" "client" 1 1] }]

def sharedRequests : List Request := [⟨1, "b", 2, .empty⟩, ⟨2, "a", 2, .empty⟩]

/-- The gateway has no room for both `x`, so they go to the cloud, where the accounts are right. -/
theorem cpu_accounted_sharers : ∃ p o, Run (twoTierNetwork sharers) 1 sharedRequests [p] o
    ∧ p.device? 1 "x" = some 1 ∧ p.device? 2 "x" = some 1 ∧ p.device? 2 "m" = some 2
    ∧ ∃ dev, twoTierTopology.device? 1 = some dev
      ∧ wrap dev.capacity.cpuMips = o.resources.freeCpu 1 + sumOf ([p].map fun p : Placement =>
          p.demandOn ((twoTierNetwork sharers).applications.demandOf sharedRequests) 1) := by
  obtain ⟨o, hr, _⟩ := exists_run_once (twoTierNetwork sharers) build_twoTier 1 sharedRequests
    (by decide +kernel)
  refine ⟨_, o, hr, by decide +kernel, by decide +kernel, by decide +kernel, ?_⟩
  obtain ⟨_, _, _, _, _, hall⟩ := cpu_accounted build_twoTier hr (by decide +kernel)
  exact (hall (by decide +kernel)).1 (hr.bounded (by decide +kernel)) 1 (by decide +kernel)

/-- Two applications that feed `x` without declaring it, and one that declares it. -/
def borrowers : List Application :=
  [{ id := "a", user := 1, microservices := [⟨"m", 30, 0, 0, []⟩],
      edges := [.ofSensor "t" "client" 1 1, feeding] },
    { id := "b", user := 1, microservices := [⟨"x", 60, 0, 0, []⟩],
      edges := [.ofSensor "t" "client" 1 1] },
    { id := "c", user := 1, microservices := [⟨"m", 30, 0, 0, []⟩],
      edges := [.ofSensor "t" "client" 1 1, feeding] }]

def borrowingRequests : List Request :=
  [⟨1, "b", 2, .empty⟩, ⟨2, "a", 2, .empty⟩, ⟨3, "c", 2, .empty⟩]

/-- Two applications that ask for just one more than a word can count. -/
def overflowing : List Application :=
  [{ id := "a", user := 1, microservices := [⟨"m", UInt64.size - 30, 0, 0, []⟩],
      edges := [.ofSensor "t" "client" 1 1] },
    { id := "b", user := 1, microservices := [⟨"x", 30, 0, 0, []⟩],
      edges := [.ofSensor "t" "client" 1 1] }]

def overflowingRequests : List Request := [⟨1, "b", 2, .empty⟩, ⟨2, "a", 2, .empty⟩]

/--
It is not enough that all declarations of a microservice agree: an application that only feeds `x`
moves the slot of another one to the cloud for nothing. Nor is it enough that applications agree:
with a sum that is too large for a word, the gateway takes on all there is for nothing.
-/
theorem not_cpu_accounted :
    (¬ ∀ (l : Layout) (net : Network) (root : DeviceId) (submitted : List Request)
      (placements : List Placement) (o : Orchestrator), Topology.build l = .ok net.topology →
      (∀ a ∈ net.applications.values, ∀ b ∈ net.applications.values, ∀ n ∈ a.names, n ∈ b.names →
        b.mipsOf n = a.mipsOf n) → net.applications.WithinWord submitted →
      Run net root submitted placements o → (submitted.map Request.id).Nodup →
      ∀ d ∈ net.topology.domain root, ∃ dev, net.device? d = some dev
        ∧ dev.capacity.cpuMips = o.resources.freeCpu d + sumOf (placements.map fun p =>
          p.demandOn (net.applications.demandOf submitted) d))
    ∧ ¬ ∀ (l : Layout) (net : Network) (root : DeviceId) (submitted : List Request)
      (placements : List Placement) (o : Orchestrator), Topology.build l = .ok net.topology →
      net.applications.Agree →
      Run net root submitted placements o → (submitted.map Request.id).Nodup →
      ∀ d ∈ net.topology.domain root, ∃ dev, net.device? d = some dev
        ∧ dev.capacity.cpuMips = o.resources.freeCpu d + sumOf (placements.map fun p =>
          p.demandOn (net.applications.demandOf submitted) d) := by
  constructor
  · intro hall
    obtain ⟨o, hr, hfree⟩ := exists_run_once (twoTierNetwork borrowers) build_twoTier 1
      borrowingRequests (by decide +kernel)
    obtain ⟨dev, hdev, hcpu⟩ := hall twoTier _ 1 _ _ o build_twoTier (by decide +kernel)
      (by decide +kernel) hr (by decide +kernel) 1 (by decide +kernel)
    exact twoTier_unaccounted hdev (hfree 1) hcpu (by decide +kernel) (by decide +kernel)
  · intro hall
    obtain ⟨o, hr, hfree⟩ := exists_run_once (twoTierNetwork overflowing) build_twoTier 1
      overflowingRequests (by decide +kernel)
    obtain ⟨dev, hdev, hcpu⟩ := hall twoTier _ 1 _ _ o build_twoTier (by decide +kernel) hr
      (by decide +kernel) 2 (by decide +kernel)
    exact twoTier_unaccounted hdev (hfree 2) hcpu (by decide +kernel) (by decide +kernel)

end Orchestrator

end FogNet
