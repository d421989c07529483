import FogNet.Proofs.Folds
import FogNet.Proofs.Simulation.Attachment
import FogNet.Scenario.Basic

/-!
# Which scenarios can be set up

Sensors and actuators are attached one after another, and each of them is checked against what was
attached before it. Altogether they are accepted just when each of them fits the network on its
own, no two sensors and no two actuators have the same id, and no two sensors serve the same
application on the same device. The seed does not count.

## Main statements

* `Simulation.addSensors_ok_iff`, `Simulation.addActuators_ok_iff` — which lists are attached
* `Scenario.simulation_ok_iff` — which scenarios have a simulation
-/

namespace FogNet

open Relation

/-- What a sensor needs from the network it is attached in. -/
structure Sensor.Fits (net : Network) (x : Sensor) : Prop where
  interval : x.interval ≠ 0
  edge : ∃ app e, net.application? x.app = some app ∧ e ∈ app.edges ∧ e.kind = .sensor
    ∧ e.source = x.tupleType
  gateway : net.topology.contains x.gateway = true
  orchestrated : ∃ d, ReflTransGen net.topology.toLayout.Under x.gateway d
    ∧ net.topology.toLayout.IsOrchestrator d

/-- What an actuator needs from the network it is attached in. -/
structure Actuator.Fits (net : Network) (x : Actuator) : Prop where
  app : net.applications.contains x.app = true
  device : net.topology.contains x.device = true

namespace Simulation

variable {net : Network} {s s' : Simulation}

/-! ## Sensors -/

theorem Attached.exists_machine (h : s.Attached net) {d : DeviceId}
    (hd : net.topology.contains d = true) : ∃ m, s.machine? d = some m := by
  rw [← h.machines, SortedMap.contains_eq] at hd
  exact Option.isSome_iff_exists.mp hd

theorem Attached.admits_iff (h : s.Attached net) {x : Sensor} : s.Admits x
    ↔ x.Fits net ∧ s.sensors.contains x.id = false ∧ x.place ∉ s.places := by
  constructor
  · rintro ⟨hunused, hinterval, hedge, hgateway, horchestrated, hunclaimed⟩
    rw [h.network] at hedge hgateway horchestrated
    refine ⟨⟨hinterval, hedge, hgateway, horchestrated⟩, hunused, fun hplace => ?_⟩
    obtain ⟨m, hm⟩ := h.exists_machine hgateway
    have hclaimed := (h.claims x.gateway m x.app hm).mpr hplace
    rw [hunclaimed m hm] at hclaimed
    cases hclaimed
  · rintro ⟨⟨hinterval, hedge, hgateway, horchestrated⟩, hunused, hplace⟩
    rw [← h.network] at hedge hgateway horchestrated
    refine ⟨hunused, hinterval, hedge, hgateway, horchestrated, fun m hm => ?_⟩
    exact Bool.eq_false_iff.mpr fun hclaimed => hplace ((h.claims _ _ _ hm).mp hclaimed)

theorem sensors_contains_of_addSensor {x : Sensor} (h : s.addSensor x = .ok s') (id : SensorId) :
    s'.sensors.contains id = false ↔ id ≠ x.id ∧ s.sensors.contains id = false := by
  obtain ⟨_, _, _, _, rfl⟩ := addSensor_ok_cases h
  simp only [SortedMap.contains_eq, SortedMap.get?_insert]
  by_cases hid : id = x.id <;> simp [hid]

theorem mem_places_of_addSensor {x : Sensor} (h : s.addSensor x = .ok s')
    (place : DeviceId × AppId) : place ∈ s'.places ↔ place = x.place ∨ place ∈ s.places := by
  have hperm : s'.places.Perm (x.place :: s.places) :=
    ((addSensor_entries h).map Prod.snd).map Sensor.place
  rw [hperm.mem_iff, List.mem_cons]

/-- Two sensors that can be attached together. -/
def Apart (x y : Sensor) : Prop := x.id ≠ y.id ∧ x.place ≠ y.place

theorem pairwise_apart_iff {sensors : List Sensor} : sensors.Pairwise Apart
    ↔ (sensors.map Sensor.id).Nodup ∧ (sensors.map Sensor.place).Nodup := by
  rw [List.Nodup, List.Nodup, List.pairwise_map, List.pairwise_map, ← List.pairwise_and_iff]
  rfl

theorem free_of_addSensor {x : Sensor} (h : s.addSensor x = .ok s') (y : Sensor) :
    s'.sensors.contains y.id = false ∧ y.place ∉ s'.places
      ↔ Apart x y ∧ s.sensors.contains y.id = false ∧ y.place ∉ s.places := by
  rw [sensors_contains_of_addSensor h, mem_places_of_addSensor h, Apart, ne_comm (a := x.id),
    ne_comm (a := x.place)]
  tauto

/-- Sensors are attached just when each of them fits and no two are alike. -/
theorem addSensors_ok_iff (hf : net.topology.toLayout.Forest) (h : s.Attached net)
    {sensors : List Sensor} : (∃ s', sensors.foldlM addSensor s = .ok s') ↔
      (∀ x ∈ sensors, x.Fits net ∧ s.sensors.contains x.id = false ∧ x.place ∉ s.places)
        ∧ (sensors.map Sensor.id).Nodup ∧ (sensors.map Sensor.place).Nodup := by
  rw [← pairwise_apart_iff]
  refine foldlM_ok_iff (I := fun s : Simulation => s.Attached net)
    (fun s (x : Sensor) => s.sensors.contains x.id = false ∧ x.place ∉ s.places) ?_ ?_ h
  · intro s x h
    have hadmits : (∃ s', s.addSensor x = .ok s') ↔ s.Admits x :=
      addSensor_ok_iff (h.network.symm ▸ hf) (h.network.symm ▸ h.machines)
    exact hadmits.trans h.admits_iff
  · exact fun h hs => ⟨h.addSensor hs, free_of_addSensor hs⟩

theorem addSensor_actuators {x : Sensor} (h : s.addSensor x = .ok s') :
    s'.actuators = s.actuators := by
  obtain ⟨_, _, _, _, rfl⟩ := addSensor_ok_cases h
  rfl

/-! ## Actuators -/

theorem Attached.addActuator {x : Actuator} (h : s.Attached net) (hs : s.addActuator x = .ok s') :
    s'.Attached net := by
  obtain ⟨_, _, m, hm, rfl⟩ := addActuator_ok_cases hs
  have hclaims (app : AppId) : (m.attach ⟨x.id, x.app, x.actuatorType⟩).deployment.claims app
      = m.deployment.claims app := rfl
  exact (h.insert hm hclaims).of_same rfl rfl rfl

theorem Attached.addActuator_ok_iff (h : s.Attached net) {x : Actuator} :
    (∃ s', s.addActuator x = .ok s') ↔ x.Fits net ∧ s.actuators.contains x.id = false := by
  constructor
  · rintro ⟨s', hs⟩
    obtain ⟨hunused, happ, m, hm, _⟩ := addActuator_ok_cases hs
    rw [h.network] at happ
    refine ⟨⟨happ, ?_⟩, hunused⟩
    rw [← h.machines, SortedMap.contains_eq, show s.machines.get? x.device = some m from hm]
    rfl
  · rintro ⟨⟨happ, hdevice⟩, hunused⟩
    obtain ⟨m, hm⟩ := h.exists_machine hdevice
    rw [← h.network] at happ
    simp [Simulation.addActuator, hunused, happ, hm]

theorem actuators_contains_of_addActuator {x : Actuator} (h : s.addActuator x = .ok s')
    (id : ActuatorId) :
    s'.actuators.contains id = false ↔ id ≠ x.id ∧ s.actuators.contains id = false := by
  obtain ⟨_, _, _, _, rfl⟩ := addActuator_ok_cases h
  simp only [SortedMap.contains_eq, SortedMap.get?_insert]
  by_cases hid : id = x.id <;> simp [hid]

/-- Actuators are attached just when each of them fits and no two have the same id. -/
theorem addActuators_ok_iff (h : s.Attached net) {actuators : List Actuator} :
    (∃ s', actuators.foldlM addActuator s = .ok s') ↔
      (∀ x ∈ actuators, x.Fits net ∧ s.actuators.contains x.id = false)
        ∧ (actuators.map Actuator.id).Nodup := by
  rw [List.Nodup, List.pairwise_map]
  refine foldlM_ok_iff (I := fun s : Simulation => s.Attached net)
    (fun s (x : Actuator) => s.actuators.contains x.id = false) ?_ ?_ h
  · exact fun h => h.addActuator_ok_iff
  · intro s s' x h hs
    refine ⟨h.addActuator hs, fun y => ?_⟩
    rw [actuators_contains_of_addActuator hs, ne_comm]

end Simulation

namespace Scenario

variable {c : Scenario} {net : Network} {seed : UInt64}

/-! ## Whole scenarios -/

/-- The sensors and actuators of a scenario, each of which fits and none of which are alike. -/
structure Attachable (c : Scenario) (net : Network) : Prop where
  sensors : ∀ x ∈ c.sensors, x.Fits net
  sensorIds : (c.sensors.map Sensor.id).Nodup
  places : (c.sensors.map Sensor.place).Nodup
  actuators : ∀ x ∈ c.actuators, x.Fits net
  actuatorIds : (c.actuators.map Actuator.id).Nodup

theorem build_of_network (h : c.network = .ok net) : Topology.build c.layout = .ok net.topology := by
  unfold network at h
  cases ht : c.topology with
  | error e => simp [ht, bind, Except.bind] at h
  | ok t =>
    cases hm : c.models with
    | error e => simp [ht, hm, bind, Except.bind] at h
    | ok models =>
      cases hp : c.policy with
      | error e => simp [ht, hm, hp, bind, Except.bind] at h
      | ok policy =>
        simp only [ht, hm, hp, bind, Except.bind, pure, Except.pure, Except.ok.injEq] at h
        rw [← h]
        unfold topology at ht
        split at ht
        · next t' hb => rw [hb, Except.ok.inj ht]
        · cases ht

theorem attachAll_ok_iff (h : c.network = .ok net) :
    (∃ sim, c.attachAll (Simulation.create net seed) = .ok sim) ↔ c.Attachable net := by
  have hb := build_of_network h
  have hstart : (Simulation.create net seed).Attached net := .create hb
  have hsensors : (∃ s, c.sensors.foldlM Simulation.addSensor (Simulation.create net seed) = .ok s)
      ↔ _ := Simulation.addSensors_ok_iff (Layout.forest_of_build hb) hstart
  have hunused : ∀ x ∈ c.sensors, x.Fits net ↔ (x.Fits net
      ∧ (Simulation.create net seed).sensors.contains x.id = false
      ∧ x.place ∉ (Simulation.create net seed).places) := fun x _ =>
    ⟨fun hfits => ⟨hfits, rfl, List.not_mem_nil⟩, fun hfits => hfits.1⟩
  rw [← forall₂_congr hunused] at hsensors
  unfold attachAll
  cases hs : c.sensors.foldlM Simulation.addSensor (Simulation.create net seed) with
  | error e =>
    rw [hs] at hsensors
    constructor
    · rintro ⟨_, he⟩
      simp [bind, Except.bind] at he
    · intro hc
      obtain ⟨_, he⟩ := hsensors.mpr ⟨hc.sensors, hc.sensorIds, hc.places⟩
      cases he
  | ok s =>
    obtain ⟨hfits, hids, hplaces⟩ := hsensors.mp ⟨s, hs⟩
    obtain ⟨hattached, hnone⟩ : s.Attached net ∧ s.actuators = .empty :=
      foldlM_keeps (I := fun s => s.Attached net ∧ s.actuators = .empty)
        (fun h hs => ⟨h.1.addSensor hs, (Simulation.addSensor_actuators hs).trans h.2⟩)
        ⟨hstart, rfl⟩ hs
    have hactuators : (∃ s', c.actuators.foldlM Simulation.addActuator s = .ok s') ↔ _ :=
      Simulation.addActuators_ok_iff hattached
    have hfree (id : ActuatorId) : s.actuators.contains id = false := by
      rw [hnone]
      rfl
    simp only [hfree, and_true] at hactuators
    refine hactuators.trans ⟨?_, fun hc => ⟨hc.actuators, hc.actuatorIds⟩⟩
    rintro ⟨hfits', hids'⟩
    exact ⟨hfits, hids, hplaces, hfits', hids'⟩

/-- A scenario has a simulation just when it has a network that its sensors and actuators fit. -/
theorem simulation_ok_iff : (∃ sim, c.simulation seed = .ok sim)
    ↔ ∃ net, c.network = .ok net ∧ c.Attachable net := by
  constructor
  · rintro ⟨sim, hsim⟩
    obtain ⟨net, hnet, hattach⟩ := simulation_ok_cases hsim
    exact ⟨net, hnet, (attachAll_ok_iff hnet).mp ⟨sim, hattach⟩⟩
  · rintro ⟨net, hnet, hc⟩
    obtain ⟨sim, hsim⟩ : ∃ sim, c.attachAll (Simulation.create net seed) = .ok sim :=
      (attachAll_ok_iff hnet).mpr hc
    exact ⟨sim, by simp [simulation, hnet, hsim]⟩

end Scenario

end FogNet
