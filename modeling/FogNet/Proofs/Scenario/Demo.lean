import FogNet.Proofs.Scenario.Setup
import FogNet.Proofs.Topology.TopDown
import FogNet.Scenario.Demo
import Mathlib.Data.List.Perm.Basic
import Mathlib.Data.List.Range

/-!
# The sizes of the demo

Gateways are numbered from ten and clients from a hundred, so there are numbers for ninety
gateways. The gateway after them would have the number of the first client. As long as there is no
such gateway, or no client, all devices are different and the demo can be set up, whatever the
seed. With more gateways it is refused, always for the same device.

## Main statements

* `Demo.clientIds_eq` — the clients are numbered one after another
* `Demo.ids_perm`, `Demo.ids_nodup_iff` — the devices, and when they are different
* `Demo.exists_topology`, `Demo.attachable` — within the limits the demo fits together
* `demo_sizes` — which sizes of the demo can be set up
-/

namespace FogNet

open Relation

namespace Layout

/-- What is checked of devices after others that are in order. -/
theorem declarationFault_append {after : List Device} :
    ∀ {before : List Device} {seen : List DeviceId}, declarationFault seen before = none →
      declarationFault seen (before ++ after)
        = declarationFault ((before.map Device.id).reverse ++ seen) after
  | [], _, _ => rfl
  | d :: before, seen, h => by
    rw [declarationFault] at h
    split at h
    · cases h
    · next hnew =>
      split at h
      · cases h
      · next husable =>
        rw [List.cons_append, declarationFault, if_neg hnew, if_neg husable,
          declarationFault_append h, List.map_cons, List.reverse_cons, List.append_assoc]
        rfl

end Layout

namespace Scenario

open Layout

variable {gateways clients : Nat}

namespace Demo

/-! ## Devices -/

theorem forall_mem_devices {P : DeviceEntry → Prop} (hcloud : P cloud) (hproxy : P proxy)
    (hgateway : ∀ i, P (gateway i)) (hclient : ∀ i j, P (client clients i j)) :
    ∀ e ∈ devices gateways clients, P e := by
  intro e he
  simp only [devices, site, List.mem_cons, List.mem_flatMap, List.mem_range, List.mem_map] at he
  rcases he with rfl | rfl | ⟨i, _, rfl | ⟨j, _, rfl⟩⟩
  · exact hcloud
  · exact hproxy
  · exact hgateway i
  · exact hclient i j

theorem gateway_mem_devices {i : Nat} (hi : i < gateways) :
    gateway i ∈ devices gateways clients := by
  refine List.mem_cons_of_mem _ (List.mem_cons_of_mem _ ?_)
  exact List.mem_flatMap.mpr ⟨i, List.mem_range.mpr hi, List.mem_cons_self⟩

theorem client_mem_devices {i j : Nat} (hi : i < gateways) (hj : j < clients) :
    client clients i j ∈ devices gateways clients := by
  refine List.mem_cons_of_mem _ (List.mem_cons_of_mem _ ?_)
  refine List.mem_flatMap.mpr ⟨i, List.mem_range.mpr hi, List.mem_cons_of_mem _ ?_⟩
  exact List.mem_map.mpr ⟨j, List.mem_range.mpr hj, rfl⟩

/-- Links without a bandwidth of their own are usable. -/
theorem hasUsableLinks_of_default {e : DeviceEntry} (h : e.bandwidth = PerLink.const none) :
    e.device.hasUsableLinks = true := by
  have hdefault : e.device.bandwidth = PerLink.const defaultBandwidth := by
    simp [DeviceEntry.device, DeviceEntry.linkBandwidth, h, PerLink.const, PerLink.get]
  unfold Device.hasUsableLinks
  rw [hdefault]
  decide +kernel

theorem usable : ∀ d ∈ (demo gateways clients).layout.devices, d.hasUsableLinks = true := by
  have hdefault : ∀ e ∈ devices gateways clients, e.bandwidth = PerLink.const none :=
    forall_mem_devices rfl rfl (fun _ => rfl) fun _ _ => rfl
  intro d hd
  obtain ⟨e, he, rfl⟩ := List.mem_map.mp hd
  exact hasUsableLinks_of_default (hdefault e he)

theorem uplink_le : ∀ d ∈ (demo gateways clients).layout.devices,
    d.uplinkLatency ≤ Duration.ofMillis 100 := by
  have hlatency : ∀ e ∈ devices gateways clients, e.device.uplinkLatency ≤ Duration.ofMillis 100 :=
    forall_mem_devices (Nat.zero_le _) (Nat.le_refl _)
      (fun _ => show Duration.ofMillis 4 ≤ Duration.ofMillis 100 by decide)
      fun _ _ => show Duration.ofMillis 2 ≤ Duration.ofMillis 100 by decide
  intro d hd
  obtain ⟨e, he, rfl⟩ := List.mem_map.mp hd
  exact hlatency e he

theorem topDown : (demo gateways clients).layout.TopDown := by
  refine ⟨cloud.device, _, rfl, rfl, ⟨cloudId, List.mem_cons_self, rfl⟩, ?_⟩
  rw [List.map_flatMap]
  refine descends_flatMap fun i _ => ?_
  refine ⟨⟨proxyId, List.mem_cons_self, rfl⟩, descends_of_known fun d hd => ?_⟩
  obtain ⟨e, he, rfl⟩ := List.mem_map.mp hd
  obtain ⟨j, _, rfl⟩ := List.mem_map.mp he
  exact ⟨gatewayId i, List.mem_cons_self, rfl⟩

/-! ## Numbers -/

/-- The clients are numbered one after another. -/
theorem clientIds_eq : ∀ gateways : Nat,
    clientIds gateways clients = (List.range (gateways * clients)).map fun k => (k, 100 + k)
  | 0 => by simp [clientIds]
  | gateways + 1 => by
    have ih := clientIds_eq gateways
    unfold clientIds at ih ⊢
    rw [List.range_succ, List.flatMap_append, ih, Nat.succ_mul, List.range_add, List.map_append]
    simp [clientId, Function.comp_def, Nat.add_assoc]

theorem ids_eq : (demo gateways clients).layout.ids = (devices gateways clients).map
    DeviceEntry.id := by
  show ((devices gateways clients).map DeviceEntry.device).map Device.id = _
  rw [List.map_map]
  rfl

/-- The cloud, the proxy, the gateways and the clients. -/
theorem ids_perm : (demo gateways clients).layout.ids.Perm
    (cloudId :: proxyId :: ((List.range gateways).map gatewayId
      ++ (List.range (gateways * clients)).map (100 + ·))) := by
  have hclients : (List.range gateways).flatMap (fun i => (List.range clients).map
      (clientId clients i)) = (List.range (gateways * clients)).map (100 + ·) := by
    have hnumbers : clientIds gateways clients = _ := clientIds_eq gateways
    have hsnd := congrArg (List.map Prod.snd) hnumbers
    rw [clientIds, List.map_flatMap, List.map_map] at hsnd
    simpa [List.map_map, Function.comp_def] using hsnd
  rw [ids_eq, devices, List.map_cons, List.map_cons, List.map_flatMap, ← hclients]
  refine .cons _ (.cons _ ?_)
  have hsites : (fun i => (site clients i).map DeviceEntry.id)
      = fun i => gatewayId i :: (List.range clients).map (clientId clients i) := by
    funext i
    rw [site, List.map_cons, List.map_map]
    rfl
  rw [hsites]
  exact (List.map_append_flatMap_perm _ _ _).symm

theorem ids_nodup_iff :
    (demo gateways clients).layout.ids.Nodup ↔ clients = 0 ∨ gateways ≤ 90 := by
  rw [ids_perm.nodup_iff]
  have hgateways : ((List.range gateways).map gatewayId).Nodup :=
    List.Nodup.map (fun _ _ h => Nat.add_left_cancel h) List.nodup_range
  have hclients : ((List.range (gateways * clients)).map (100 + ·)).Nodup :=
    List.Nodup.map (fun _ _ h => Nat.add_left_cancel h) List.nodup_range
  have hdisjoint : ((List.range gateways).map gatewayId
      ++ (List.range (gateways * clients)).map (100 + ·)).Nodup ↔ clients = 0 ∨ gateways ≤ 90 := by
    simp only [List.nodup_append, hgateways, hclients, true_and, List.mem_map, List.mem_range]
    constructor
    · intro hapart
      by_contra hmany
      have hpos : 0 < gateways * clients := Nat.mul_pos (by omega) (by omega)
      exact hapart 100 ⟨90, by omega, rfl⟩ 100 ⟨0, hpos, rfl⟩ rfl
    · rintro hfew _ ⟨i, hi, rfl⟩ _ ⟨k, hk, rfl⟩ heq
      have hnumbers : 10 + i = 100 + k := heq
      rcases hfew with rfl | hfew
      · omega
      · omega
  have hlow : ∀ n ∈ (List.range gateways).map gatewayId
      ++ (List.range (gateways * clients)).map (100 + ·), 10 ≤ n := by
    intro n hn
    rcases List.mem_append.mp hn with hn | hn
    · obtain ⟨i, _, rfl⟩ := List.mem_map.mp hn
      exact Nat.le_add_right 10 i
    · obtain ⟨k, _, rfl⟩ := List.mem_map.mp hn
      show 10 ≤ 100 + k
      omega
  rw [List.nodup_cons, List.nodup_cons, hdisjoint, List.mem_cons]
  refine ⟨fun h => h.2.2, fun hfew => ⟨?_, fun hproxy => ?_, hfew⟩⟩
  · rintro (hsame | hcloud)
    · cases hsame
    · exact absurd (hlow _ hcloud) (by decide)
  · exact absurd (hlow _ hproxy) (by decide)

/-! ## Within the limits -/

theorem exists_topology (hfew : clients = 0 ∨ gateways ≤ 90) (hg : 10 + gateways < 2 ^ 32)
    (hc : 100 + gateways * clients < 2 ^ 32) :
    ∃ t, Topology.build (demo gateways clients).layout = .ok t := by
  refine Topology.build_topDown topDown (ids_nodup_iff.mpr hfew) usable uplink_le
    (by show Duration.ofMillis 2 ≤ Duration.ofMillis 100; decide) ?_
  have hlength : (demo gateways clients).layout.devices.length = 2 + gateways * (clients + 1) := by
    show ((devices gateways clients).map DeviceEntry.device).length = _
    rw [List.length_map, devices_length]
  have hcount : gateways * (clients + 1) = gateways * clients + gateways := Nat.mul_succ _ _
  rw [hlength, hcount]
  show 100 * 1000000 * (4 * (2 + (gateways * clients + gateways)) : Nat)
    < 0x10000000000000000 * 1000000000
  omega

/-- The application of the demo with its selectivities. -/
theorem exists_model : ∃ app, ApplicationEntry.model ⟨application, selectivities⟩ = .ok app
    ∧ app.id = appId ∧ app.edges = application.edges :=
  ⟨_, rfl, rfl, rfl⟩

theorem exists_network (hfew : clients = 0 ∨ gateways ≤ 90) (hg : 10 + gateways < 2 ^ 32)
    (hc : 100 + gateways * clients < 2 ^ 32) :
    ∃ net app, (demo gateways clients).network = .ok net
      ∧ net.topology.toLayout = (demo gateways clients).layout
      ∧ net.application? appId = some app ∧ app.edges = application.edges := by
  obtain ⟨t, ht⟩ := exists_topology hfew hg hc
  obtain ⟨app, hmodel, hid, hedges⟩ := exists_model
  have htopology : (demo gateways clients).topology = .ok t := by
    rw [Scenario.topology, ht]
  have hmodels : (demo gateways clients).models = .ok [app] := by
    show [ApplicationEntry.mk application selectivities].mapM ApplicationEntry.model = _
    rw [List.mapM_cons, hmodel]
    rfl
  obtain ⟨policy, hpolicy⟩ : ∃ p, (demo gateways clients).policy = .ok p := by
    have hparse : Strategy.parse Strategy.edgeward.name = .ok .edgeward := by decide +kernel
    rw [Scenario.policy, show (demo gateways clients).strategy = Strategy.edgeward.name from rfl,
      hparse]
    exact ⟨_, rfl⟩
  refine ⟨{ topology := t, applications := .ofList [app], policy }, app, ?_,
    Topology.build_toLayout ht, ?_, hedges⟩
  · rw [network, htopology, hmodels, hpolicy]
    rfl
  · rw [← hid]
    exact SortedMap.get?_insert_self _ _ _

/-- The proxy orchestrates everything below it. -/
theorem client_above {i j : Nat} (hids : (demo gateways clients).layout.ids.Nodup)
    (hi : i < gateways) (hj : j < clients) :
    ReflTransGen (demo gateways clients).layout.Under (clientId clients i j) proxyId := by
  have hunder : ∀ {e : DeviceEntry} {p : DeviceId}, e ∈ devices gateways clients →
      e.parent = some p → (demo gateways clients).layout.Under e.id p := by
    intro e p he hp
    have hmem : e.device ∈ (demo gateways clients).layout.devices := List.mem_map.mpr ⟨e, he, rfl⟩
    exact parent?_eq_some.mpr ⟨e.device, device?_of_mem hids hmem, hp⟩
  have hgateway : (demo gateways clients).layout.Under (gatewayId i) proxyId :=
    hunder (gateway_mem_devices hi) rfl
  exact .head (hunder (client_mem_devices hi hj) rfl) (.single hgateway)

theorem proxy_orchestrates (hids : (demo gateways clients).layout.ids.Nodup) :
    (demo gateways clients).layout.IsOrchestrator proxyId := by
  have hmem : proxy.device ∈ (demo gateways clients).layout.devices :=
    List.mem_cons_of_mem _ List.mem_cons_self
  exact ⟨proxy.device, device?_of_mem hids hmem, Or.inl rfl⟩

theorem mem_clientIds {number : Nat} {device : DeviceId}
    (h : (number, device) ∈ clientIds gateways clients) :
    ∃ i < gateways, ∃ j < clients, device = clientId clients i j := by
  obtain ⟨i, hi, h⟩ := List.mem_flatMap.mp h
  obtain ⟨j, hj, h⟩ := List.mem_map.mp h
  exact ⟨i, List.mem_range.mp hi, j, List.mem_range.mp hj, (Prod.mk.inj h).2.symm⟩

theorem clientId_mem_ids {i j : Nat} (hi : i < gateways) (hj : j < clients) :
    clientId clients i j ∈ (demo gateways clients).layout.ids := by
  rw [ids_eq]
  exact List.mem_map.mpr ⟨_, client_mem_devices hi hj, rfl⟩

/-- In a network of the demo its sensors and actuators can be attached. -/
theorem attachable {net : Network} {app : Application}
    (hids : (demo gateways clients).layout.ids.Nodup)
    (hlayout : net.topology.toLayout = (demo gateways clients).layout)
    (happ : net.application? appId = some app) (hedges : app.edges = application.edges) :
    (demo gateways clients).Attachable net where
  sensors x hx := by
    obtain ⟨⟨number, device⟩, hmem, rfl⟩ := List.mem_map.mp hx
    obtain ⟨i, hi, j, hj, rfl⟩ := mem_clientIds hmem
    refine ⟨?_, ⟨app, application.edges[0], happ, ?_, rfl, rfl⟩, ?_, proxyId, ?_, ?_⟩
    · show Duration.ofSeconds 5 ≠ 0
      decide
    · rw [hedges]
      exact List.mem_cons_self
    · show net.topology.toLayout.contains (clientId clients i j) = true
      rw [hlayout]
      exact contains_iff.mpr (clientId_mem_ids hi hj)
    · rw [hlayout]
      exact client_above hids hi hj
    · rw [hlayout]
      exact proxy_orchestrates hids
  sensorIds := by
    show ((sensors gateways clients).map Sensor.id).Nodup
    rw [sensors, clientIds_eq, List.map_map, List.map_map]
    exact List.nodup_range.map fun _ _ h => h
  places := by
    show ((sensors gateways clients).map Sensor.place).Nodup
    rw [sensors, clientIds_eq, List.map_map, List.map_map]
    exact List.nodup_range.map fun _ _ h => Nat.add_left_cancel (Prod.mk.inj h).1
  actuators x hx := by
    obtain ⟨⟨number, device⟩, hmem, rfl⟩ := List.mem_map.mp hx
    obtain ⟨i, hi, j, hj, rfl⟩ := mem_clientIds hmem
    refine ⟨?_, ?_⟩
    · show net.applications.contains appId = true
      rw [SortedMap.contains_eq, show net.applications.get? appId = some app from happ]
      rfl
    · show net.topology.toLayout.contains (clientId clients i j) = true
      rw [hlayout]
      exact contains_iff.mpr (clientId_mem_ids hi hj)
  actuatorIds := by
    show ((actuators gateways clients).map Actuator.id).Nodup
    rw [actuators, clientIds_eq, List.map_map, List.map_map]
    exact List.nodup_range.map fun _ _ h => h

/-! ## Beyond the limits -/

theorem devices_eq_append {i : Nat} (hi : i < gateways) :
    ∃ rest, devices gateways clients = devices i clients ++ gateway i :: rest := by
  obtain ⟨more, rfl⟩ : ∃ more, gateways = i + (more + 1) := ⟨gateways - i - 1, by omega⟩
  rw [devices, List.range_add, List.range_succ_eq_map, List.flatMap_append, List.map_cons,
    List.flatMap_cons]
  exact ⟨_, rfl⟩

/-- The gateway after the first ninety has the number of the first client. -/
theorem declarationFault_crowded (hclients : 0 < clients) (hg : 90 < gateways) :
    declarationFault [] (demo gateways clients).layout.devices = some (.duplicateDevice 100) := by
  obtain ⟨rest, hrest⟩ : ∃ rest, (demo gateways clients).layout.devices
      = (demo 90 clients).layout.devices ++ (gateway 90).device :: rest := by
    obtain ⟨rest, hrest⟩ := devices_eq_append hg
    refine ⟨rest.map DeviceEntry.device, ?_⟩
    show (devices gateways clients).map DeviceEntry.device = _
    rw [hrest, List.map_append, List.map_cons]
    rfl
  have hids : (demo 90 clients).layout.ids.Nodup := ids_nodup_iff.mpr (Or.inr (Nat.le_refl 90))
  have hfirst : declarationFault [] (demo 90 clients).layout.devices = none :=
    declarationFault_eq_none.mpr ⟨hids, fun _ _ => List.not_mem_nil, usable⟩
  have hmem : (gateway 90).device.id ∈ (demo 90 clients).layout.ids := by
    have hsame : (gateway 90).device.id = clientId clients 0 0 := by
      show 10 + 90 = 100 + 0 * clients + 0
      omega
    rw [hsame]
    exact clientId_mem_ids (by decide) hclients
  rw [hrest, declarationFault_append hfirst, declarationFault, if_pos (by simpa [ids] using hmem)]
  rfl

theorem simulation_crowded (hclients : 0 < clients) (hg : 90 < gateways) (seed : UInt64) :
    (demo gateways clients).simulation seed = .error (.topology (.duplicateDevice 100)) := by
  have hfault : (demo gateways clients).layout.fault? = some (.duplicateDevice 100) := by
    rw [fault?, declarationFault_crowded hclients hg]
    rfl
  have hbuild : Topology.build (demo gateways clients).layout = .error (.duplicateDevice 100) := by
    rw [Topology.build, hfault]
  have hnetwork : (demo gateways clients).network = .error (.topology (.duplicateDevice 100)) := by
    rw [network, Scenario.topology, hbuild]
    rfl
  rw [simulation, hnetwork]

end Demo

/--
The demo of any size whose numbers are in range has different devices, and a simulation for every
seed, just when there are no clients or ninety gateways at most. All others are refused for the
device that is the first client and the gateway after the ninety.
-/
theorem demo_sizes {gateways clients : Nat} (hg : 10 + gateways < 2 ^ 32)
    (hc : 100 + gateways * clients < 2 ^ 32) (seed : UInt64) :
    ((demo gateways clients).layout.ids.Nodup ↔ clients = 0 ∨ gateways ≤ 90)
      ∧ ((∃ sim, (demo gateways clients).simulation seed = .ok sim)
        ↔ clients = 0 ∨ gateways ≤ 90)
      ∧ (¬ (clients = 0 ∨ gateways ≤ 90) → (demo gateways clients).simulation seed
        = .error (.topology (.duplicateDevice 100))) := by
  have hcrowded : ¬ (clients = 0 ∨ gateways ≤ 90) → (demo gateways clients).simulation seed
      = .error (.topology (.duplicateDevice 100)) := fun hmany =>
    Demo.simulation_crowded (by omega) (by omega) seed
  refine ⟨Demo.ids_nodup_iff, ⟨fun ⟨sim, hsim⟩ => ?_, fun hfew => ?_⟩, hcrowded⟩
  · by_contra hmany
    rw [hcrowded hmany] at hsim
    cases hsim
  · obtain ⟨net, app, hnet, hlayout, happ, hedges⟩ := Demo.exists_network hfew hg hc
    exact simulation_ok_iff.mpr ⟨net, hnet,
      Demo.attachable (Demo.ids_nodup_iff.mpr hfew) hlayout happ hedges⟩

/-- Two gateways with three clients each, as many as there can be, too many, and no clients. -/
theorem demo_sizes_three : (10 + 2 < 2 ^ 32 ∧ 100 + 2 * 3 < 2 ^ 32)
    ∧ (∃ sim, (demo 2 3).simulation 0 = .ok sim) ∧ (∃ sim, (demo 90 1).simulation 7 = .ok sim)
    ∧ (∃ sim, (demo 500 0).simulation 7 = .ok sim)
    ∧ (demo 91 1).simulation 0 = .error (.topology (.duplicateDevice 100)) := by
  refine ⟨by decide, ?_, ?_, ?_, ?_⟩
  · exact (demo_sizes (by decide) (by decide) 0).2.1.mpr (by decide)
  · exact (demo_sizes (by decide) (by decide) 7).2.1.mpr (by decide)
  · exact (demo_sizes (by decide) (by decide) 7).2.1.mpr (by decide)
  · exact (demo_sizes (by decide) (by decide) 0).2.2 (by decide)

/-- With one client for each of ninety-one gateways the demo is refused, though its numbers fit. -/
theorem not_demo_sizes : 10 + 91 < 2 ^ 32 ∧ 100 + 91 * 1 < 2 ^ 32
    ∧ ¬ (demo 91 1).layout.ids.Nodup
    ∧ ∀ seed, ¬ ∃ sim, (demo 91 1).simulation seed = .ok sim := by
  refine ⟨by decide, by decide, fun hids => ?_, fun seed ⟨sim, hsim⟩ => ?_⟩
  · exact absurd (Demo.ids_nodup_iff.mp hids) (by decide)
  · rw [Demo.simulation_crowded (by decide) (by decide) seed] at hsim
    cases hsim

end Scenario

end FogNet
