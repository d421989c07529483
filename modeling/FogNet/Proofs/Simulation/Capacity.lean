import FogNet.Proofs.Simulation.Tracking

/-!
# No device is overcommitted

Orchestrators know nothing of each other. Each starts with the full capacity of its domain, and
domains overlap. But a request is submitted to the nearest orchestrating device above its sensor,
and placement for it stays on the way from there up to that device. All devices on that way have the
same nearest one, so only one orchestrator ever puts anything on a device, and that one keeps its
accounts.

## Main statements

* `Tracked.device?_cases` — what an orchestrator puts where
* `cpu_within_capacity` — all orchestrators together never exceed the capacity of a device
-/

namespace FogNet

/-! ## Where an orchestrator places -/

namespace Orchestrator

/--
What a run places for a request is a microservice of its application, and is on the way from its
gateway up to the orchestrating device.
-/
theorem Run.device?_cases {l : Layout} {net : Network} {root : DeviceId} {submitted : List Request}
    {placements : List Placement} {o : Orchestrator} (hb : Topology.build l = .ok net.topology)
    (hr : Run net root submitted placements o) (hn : (submitted.map Request.id).Nodup)
    {p : Placement} (hp : p ∈ placements)
    {id : RequestId} {name : Name} {d : DeviceId} (hd : p.device? id name = some d) :
    ∃ r ∈ submitted, r.id = id ∧ net.topology.OnWay root r.gateway d
      ∧ ∃ app, net.application? r.app = some app ∧ name ∈ app.names := by
  induction hr with
  | start => exact absurd hp List.not_mem_nil
  | submit request _ ih =>
    rw [List.map_append] at hn
    obtain ⟨r, hr, hplaced⟩ := ih (List.nodup_append.mp hn).1 hp
    exact ⟨r, List.mem_append_left _ hr, hplaced⟩
  | @tick submitted _ o _ _ hr _ ih =>
    rcases List.mem_append.mp hp with hp | hp
    · exact ih hn hp
    · have hsub := hr.pending_sublist
      rw [List.mem_singleton.mp hp, attempt_eq] at hd
      obtain ⟨r, hmem, hplaced⟩ := PlacementSetting.run_device? (s := o.setting net root)
        (Layout.forest_of_build hb) (hn.sublist (hsub.map _)) hd
      exact ⟨r, hsub.subset hmem, hplaced⟩

end Orchestrator

namespace Simulation

variable {net : Network} {seed : UInt64} {s s' : Simulation} {placed : List (DeviceId × Placement)}
  {submitted : DeviceId → List Request}

/-! ## All orchestrators together -/

/-- What a microservice of a request costs: the request of a sensor has the number of the sensor. -/
def demandOf (s : Simulation) (id : RequestId) (name : Name) : Nat :=
  ((s.sensors.get? id).bind fun x => s.network.application? x.app).elim 0 fun app => app.mipsOf name

/-- The requests of the sensors. -/
def requests (s : Simulation) : List Request :=
  s.sensors.values.filterMap fun x => (s.network.application? x.app).map (sensorRequest x)

/-- Those of the sensors whose nearest orchestrating device is this one. -/
def requestsTo (s : Simulation) (root : DeviceId) : List Request :=
  s.requests.filter fun r => s.network.topology.orchestratorFor r.gateway == some root

/-- Only one orchestrator counts for a sum to which the others add nothing. -/
theorem sumOf_placedBy (f : Placement → Nat) {root : DeviceId} :
    ∀ {placed : List (DeviceId × Placement)}, (∀ e ∈ placed, e.1 ≠ root → f e.2 = 0) →
      sumOf (placed.map fun e => f e.2) = sumOf ((placedBy placed root).map f)
  | [], _ => rfl
  | e :: placed, h => by
    have ih := sumOf_placedBy f fun e' he' => h e' (List.mem_cons_of_mem _ he')
    rw [List.map_cons, sumOf_cons, ih, placedBy, placedBy]
    by_cases he : e.1 = root
    · rw [List.filter_cons_of_pos (by simpa using he)]
      rfl
    · rw [List.filter_cons_of_neg (by simpa using he), h e List.mem_cons_self he, Nat.zero_add]

namespace Tracked

/-- What is submitted to an orchestrator are requests of sensors below it. -/
theorem submitted_subset (h : Tracked net submitted placed s) (d : DeviceId) :
    submitted d ⊆ s.requestsTo d := by
  intro r hr
  obtain ⟨hfor, x, app, hx, happ, rfl⟩ := h.genuine d r (List.mem_append_left _ hr)
  rw [← h.network] at hfor happ
  refine List.mem_filter.mpr ⟨List.mem_filterMap.mpr ⟨x, ?_, ?_⟩, by simpa using hfor⟩
  · exact List.mem_map.mpr ⟨(_, x), (s.sensors.mem_entries_iff _ x).mpr hx, rfl⟩
  · rw [happ, Option.map_some]

theorem rates (h : Tracked net submitted placed s) (d : DeviceId) :
    net.applications.Rates (submitted d) s.demandOf := by
  intro r hr app happ n _
  obtain ⟨_, x, _, hx, _, rfl⟩ := h.genuine d r (List.mem_append_left _ hr)
  have happ : s.network.application? x.app = some app := by
    rw [h.network]
    exact happ
  rw [demandOf, hx, Option.bind_some, happ, Option.elim_some]

/--
Only the nearest orchestrating device above a device puts anything on it, and only microservices of
the application of a sensor.
-/
theorem device?_cases {l : Layout} (hb : Topology.build l = .ok net.topology)
    (h : Tracked net submitted placed s) {e : DeviceId × Placement} (he : e ∈ placed)
    {id : RequestId} {name : Name} {d : DeviceId} (hd : e.2.device? id name = some d) :
    net.topology.orchestratorFor d = some e.1 ∧ ∃ x app, s.sensors.get? id = some x
      ∧ net.application? x.app = some app ∧ name ∈ app.names := by
  obtain ⟨m, o, hm, ho⟩ := h.placing.placer e he
  have hmem : e.2 ∈ placedBy placed e.1 :=
    List.mem_map.mpr ⟨e, List.mem_filter.mpr ⟨he, beq_self_eq_true _⟩, rfl⟩
  obtain ⟨r, hr, rfl, hway, app, happ, hn⟩ :=
    (h.placing.run e.1 m o hm ho).device?_cases hb (h.nodup e.1) hmem hd
  obtain ⟨hfor, x, _, hx, _, rfl⟩ := h.genuine e.1 r (List.mem_append_left _ hr)
  have hf := Layout.forest_of_build hb
  exact ⟨hf.orchestratorFor_of_onWay hway hfor, x, app, hx, happ, hn⟩

theorem demandOn_eq_zero {l : Layout} (hb : Topology.build l = .ok net.topology)
    (h : Tracked net submitted placed s) {e : DeviceId × Placement} (he : e ∈ placed)
    {d : DeviceId} (hne : net.topology.orchestratorFor d ≠ some e.1) :
    e.2.demandOn s.demandOf d = 0 := by
  have hnone : e.2.on d = [] := by
    refine List.eq_nil_iff_forall_not_mem.mpr ?_
    rintro ⟨id, name⟩ hmem
    exact hne (h.device?_cases hb he (Placement.mem_on.mp hmem)).1
  rw [Placement.demandOn, hnone]
  rfl

/-- Only one orchestrator puts anything on a device, if any. -/
theorem exists_placer {l : Layout} (hb : Topology.build l = .ok net.topology)
    (h : Tracked net submitted placed s) (d : DeviceId) :
    ∃ root, ∀ e ∈ placed, e.1 ≠ root → e.2.demandOn s.demandOf d = 0 := by
  cases ho : net.topology.orchestratorFor d with
  | none => exact ⟨0, fun e he _ => h.demandOn_eq_zero hb he (by simp [ho])⟩
  | some root => exact ⟨root, fun e he hne => h.demandOn_eq_zero hb he (by simp [ho, Ne.symm hne])⟩

/-- One orchestrator never exceeds the capacity of a device. -/
theorem sumOf_placedBy_le {l : Layout} (hb : Topology.build l = .ok net.topology)
    (ha : net.applications.Agree) (h : Tracked net submitted placed s) {d : DeviceId} {dev : Device}
    (hdev : net.device? d = some dev) {root : DeviceId}
    (hw : net.applications.WithinWord (s.requestsTo root)) :
    sumOf ((placedBy placed root).map fun p => p.demandOn s.demandOf d)
      ≤ dev.capacity.cpuMips := by
  by_cases hroot : ∃ e ∈ placed, e.1 = root
  · obtain ⟨e, he, rfl⟩ := hroot
    obtain ⟨m, o, hm, ho⟩ := h.placing.placer e he
    have hrun := h.placing.run e.1 m o hm ho
    have hbounded := hrun.bounded (hw.of_subset (h.nodup e.1).of_map (h.submitted_subset e.1))
    have hsum := hbounded.free_add_demand hb ha (h.nodup e.1) (h.rates e.1) d
    have hword := wrap_le dev.capacity.cpuMips
    rw [Orchestrator.freeCpu_start hdev] at hsum
    split at hsum <;> omega
  · have hnone : placedBy placed root = [] := by
      rw [placedBy, List.filter_eq_nil_iff.mpr fun e he hr => hroot ⟨e, he, by simpa using hr⟩]
      rfl
    rw [hnone]
    exact Nat.zero_le _

end Tracked

/--
Only the nearest orchestrating device above a device ever puts anything there, microservices of the
applications of sensors. So no device is overcommitted, if applications agree and no sum is too
large for a word: all that all orchestrators put there fits its capacity.
-/
theorem cpu_within_capacity {l : Layout} (hb : Topology.build l = .ok net.topology)
    (h : Reached net seed placed s) :
    (∀ e ∈ placed, ∀ id name d, e.2.device? id name = some d →
        net.topology.orchestratorFor d = some e.1 ∧ ∃ x app, s.sensors.get? id = some x
          ∧ net.application? x.app = some app ∧ name ∈ app.names)
      ∧ (net.applications.Agree → (∀ root, net.applications.WithinWord (s.requestsTo root)) →
          ∀ d dev, net.device? d = some dev →
            sumOf (placed.map fun e => e.2.demandOn s.demandOf d) ≤ dev.capacity.cpuMips) := by
  obtain ⟨submitted, ht⟩ := tracked_of_reached h
  constructor
  · intro e he id name d hd
    exact ht.device?_cases hb he hd
  · intro ha hw d dev hdev
    -- All that is put on the device comes from one orchestrator, which keeps its accounts.
    obtain ⟨root, hroot⟩ := ht.exists_placer hb d
    have hsum := sumOf_placedBy (fun p => p.demandOn s.demandOf d) hroot
    rw [hsum]
    exact ht.sumOf_placedBy_le hb ha hdev (hw root)

/-! ## Two tiers -/

open Orchestrator (twoTierNetwork twoTierTopology build_twoTier sharers borrowers
  overflowing)

/-- Sensors at the gateway of `Orchestrator.twoTier`, each of an application of its own. -/
def threeSensors : List Sensor :=
  [{ id := 1, gateway := 2, app := "b", tupleType := "t" },
    { id := 2, gateway := 2, app := "a", tupleType := "t" },
    { id := 3, gateway := 2, app := "c", tupleType := "t" }]

/-- A simulation of `Orchestrator.twoTier` before its start. -/
def twoTier (apps : List Application) : Simulation :=
  withSensors (twoTierNetwork apps) 0 threeSensors

/-- What is placed in the first instant of such a simulation. -/
def placedAtOnce (apps : List Application) : List (DeviceId × Placement) :=
  (twoTier apps).traceUntil 0 40

/-- The first instant of such a simulation is reached. -/
theorem reached_twoTier (apps : List Application)
    (h : isFinished ((twoTier apps).runUntil 0 40) = true) :
    ∃ s, Reached (twoTierNetwork apps) 0 (placedAtOnce apps) s
      ∧ s.demandOf = (twoTier apps).demandOf ∧ s.requests = (twoTier apps).requests := by
  obtain ⟨s, hs⟩ := exists_of_isFinished h
  obtain ⟨hnetwork, hsensors⟩ := runUntil_sameSetup hs
  refine ⟨s, reached_of_runUntil (reached_withSensors _ _ _) hs, ?_, ?_⟩
  · funext id name
    rw [demandOf, hnetwork, hsensors, demandOf]
  · rw [requests, hnetwork, hsensors, requests]

/-- The cloud places what does not fit the gateway, and has room for it. -/
theorem cpu_within_capacity_sharers : ∃ s,
    Reached (twoTierNetwork sharers) 0 (placedAtOnce sharers) s
      ∧ (∃ e ∈ placedAtOnce sharers, e.2.device? 2 "x" = some 1 ∧ e.1 = 1)
      ∧ ∃ dev, twoTierTopology.device? 1 = some dev
        ∧ sumOf ((placedAtOnce sharers).map fun e => e.2.demandOn s.demandOf 1)
          ≤ dev.capacity.cpuMips := by
  obtain ⟨s, hs, _, hrequests⟩ := reached_twoTier sharers (by decide +kernel)
  have hboth := cpu_within_capacity build_twoTier hs
  obtain ⟨e, he, hx⟩ : ∃ e ∈ placedAtOnce sharers, e.2.device? 2 "x" = some 1 := by decide +kernel
  have hcloud : twoTierTopology.orchestratorFor 1 = some 1 := by decide +kernel
  have hfor := (hboth.1 e he 2 "x" 1 hx).1
  have hwithin : (twoTierNetwork sharers).applications.WithinWord s.requests := by
    rw [hrequests]
    decide +kernel
  obtain ⟨dev, hdev⟩ : ∃ dev, twoTierTopology.device? 1 = some dev := ⟨_, rfl⟩
  refine ⟨s, hs, ⟨e, he, hx, ?_⟩, dev, hdev, ?_⟩
  · exact (Option.some.inj (hcloud.symm.trans hfor)).symm
  · exact hboth.2 (by decide +kernel) (fun _ => hwithin.sublist List.filter_sublist) 1 dev hdev

/--
It is not enough that all declarations of a microservice agree: with what only feeds `x`, the cloud
takes on more than it has. Nor is it enough that applications agree: with a sum that is too large
for a word, the gateway does.
-/
theorem not_cpu_within_capacity :
    (¬ ∀ (l : Layout) (net : Network) (seed : UInt64) (placed : List (DeviceId × Placement))
      (s : Simulation), Topology.build l = .ok net.topology →
      (∀ a ∈ net.applications.values, ∀ b ∈ net.applications.values, ∀ n ∈ a.names, n ∈ b.names →
        b.mipsOf n = a.mipsOf n) → net.applications.WithinWord s.requests →
      Reached net seed placed s → ∀ d dev, net.device? d = some dev →
        sumOf (placed.map fun e => e.2.demandOn s.demandOf d) ≤ dev.capacity.cpuMips)
    ∧ ¬ ∀ (l : Layout) (net : Network) (seed : UInt64) (placed : List (DeviceId × Placement))
      (s : Simulation), Topology.build l = .ok net.topology → net.applications.Agree →
      Reached net seed placed s → ∀ d dev, net.device? d = some dev →
        sumOf (placed.map fun e => e.2.demandOn s.demandOf d) ≤ dev.capacity.cpuMips := by
  have hcapacity : ∀ d dev, twoTierTopology.device? d = some dev → dev.capacity.cpuMips = 100 := by
    intro d dev hdev
    have hall : ∀ dev ∈ Orchestrator.twoTier.devices, dev.capacity.cpuMips = 100 := by decide
    exact hall dev (Layout.device?_some hdev).1
  constructor
  · intro hall
    obtain ⟨s, hs, hdemand, hrequests⟩ := reached_twoTier borrowers (by decide +kernel)
    obtain ⟨dev, hdev⟩ : ∃ dev, twoTierTopology.device? 1 = some dev := ⟨_, rfl⟩
    have hle := hall _ _ _ _ s build_twoTier (by decide +kernel)
      (by rw [hrequests]; decide +kernel) hs 1 dev hdev
    have hplaced : sumOf ((placedAtOnce borrowers).map fun e =>
        e.2.demandOn (twoTier borrowers).demandOf 1) = 120 := by decide +kernel
    rw [hdemand, hplaced, hcapacity 1 dev hdev] at hle
    omega
  · intro hall
    obtain ⟨s, hs, hdemand, _⟩ := reached_twoTier overflowing (by decide +kernel)
    obtain ⟨dev, hdev⟩ : ∃ dev, twoTierTopology.device? 2 = some dev := ⟨_, rfl⟩
    have hle := hall _ _ _ _ s build_twoTier (by decide +kernel) hs 2 dev hdev
    have hplaced : 100 < sumOf ((placedAtOnce overflowing).map fun e =>
        e.2.demandOn (twoTier overflowing).demandOf 2) := by decide +kernel
    rw [hdemand, hcapacity 2 dev hdev] at hle
    exact absurd hle (Nat.not_le_of_lt hplaced)

end Simulation

end FogNet
