import FogNet.Proofs.Machine.Effects
import FogNet.Proofs.Machine.Requests

/-!
# What an orchestrator announces

A new instance is announced to the devices that host what feeds it, for the same request. The cycle
that announces an instance also commands its launch. The device that is told and the one that hosts
the instance both lie on the way up from the gateway of the request, so links lead from one to the
other.

## Main statements

* `launch_of_mem_decisions`, `launchable_of_mem_decisions` — what is decided is launched, and can be
* `nextHop_of_mem_clients` — who is told of an instance can reach it
* `tick_of_effect` — only a cycle commands
* `learned_of_effect`, `pending_of_effect` — what a device knows of hosts, and which requests
-/

namespace FogNet

/-- The event that an action lets happen at once: a command to a device. -/
def Action.event? : Action → Option Event
  | .deliver _ event | .enqueueInternal event => some event
  | _ => none

/-- All that a request brings along is at its gateway. -/
def Request.Local (r : Request) : Prop := ∀ name d, r.placed.get? name = some d → d = r.gateway

namespace Orchestrator

variable {l : Layout} {net : Network} {apps : List Application} {root : DeviceId}
  {o o' : Orchestrator} {actions : List Action} {decisions : List Decision} {d : Decision}

/-! ## Commands -/

theorem mem_namesFor {device : DeviceId} {app : AppId} {name : Name} :
    name ∈ namesFor decisions device app
      ↔ ∃ d ∈ decisions, d.device = device ∧ d.app.id = app ∧ d.microservice = name := by
  simp [namesFor, List.mem_map, List.mem_filter, and_assoc]

theorem mem_devicesOf {device : DeviceId} :
    device ∈ devicesOf decisions ↔ ∃ d ∈ decisions, d.device = device := by
  rw [devicesOf, SortedMap.mem_keys_iff, SortedMap.contains_eq,
    SortedMap.get?_ofList (v := ()) fun _ _ _ => rfl, List.map_map]
  split
  · next h => simpa using h
  · next h => simpa using h

/-- What is decided is launched, if the application declares it. -/
theorem launch_of_mem_decisions (hd : d ∈ decisions)
    (happ : net.application? d.request.app = some d.app)
    (hdeclared : d.microservice ∈ d.app.names) :
    .deliver d.device (.launchMicroservice d.app.id d.microservice) ∈ deploy net decisions := by
  have hname : d.microservice ∈ namesFor decisions d.device d.app.id :=
    mem_namesFor.mpr ⟨d, hd, rfl, rfl, rfl⟩
  refine List.mem_append_right _ (List.mem_flatMap.mpr ⟨d.device, mem_devicesOf.mpr ⟨d, hd, rfl⟩,
    List.mem_flatMap.mpr ⟨d.app, Applications.mem_values happ, ?_⟩⟩)
  rw [launches, if_neg (by simpa using List.ne_nil_of_mem hname)]
  refine List.mem_map.mpr ⟨_, List.mem_append_right _ (List.mem_map.mpr ⟨_, ?_, rfl⟩), rfl⟩
  exact List.mem_filter.mpr ⟨hdeclared, by simpa using hname⟩

/-- What is announced was decided, and told to a device that feeds it. -/
theorem decision_of_announced {x host : DeviceId} {name : Name}
    (h : .deliver x (.serviceDiscoveryUpdate name host) ∈ deploy net decisions) :
    ∃ d ∈ decisions, x ∈ d.clients ∧ d.microservice = name ∧ d.device = host := by
  rcases List.mem_append.mp h with h | h
  · obtain ⟨d, hd, h⟩ := List.mem_flatMap.mp h
    obtain ⟨_, hx, he⟩ := List.mem_map.mp h
    obtain ⟨rfl, hevent⟩ := Action.deliver.inj he
    obtain ⟨rfl, rfl⟩ := Event.serviceDiscoveryUpdate.inj hevent
    exact ⟨d, hd, hx, rfl, rfl⟩
  · obtain ⟨_, _, h⟩ := List.mem_flatMap.mp h
    obtain ⟨_, _, h⟩ := List.mem_flatMap.mp h
    unfold launches at h
    split at h
    · exact absurd h List.not_mem_nil
    · obtain ⟨_, he, hdeliver⟩ := List.mem_map.mp h
      obtain ⟨_, rfl⟩ := Action.deliver.inj hdeliver
      rcases List.mem_append.mp he with he | he
      · simp at he
      · obtain ⟨_, _, he⟩ := List.mem_map.mp he
        cases he

/-- A cycle carries out its decisions, and sets the timer for the next cycle. -/
theorem actions_of_tick (h : (o.tick net root).value = some (actions, o')) :
    (o.pending = [] ∧ actions = [nextCycle net]) ∨ actions
      = deploy net (Orchestrator.decisions net o.pending (o.attempt net root).placement)
        ++ [nextCycle net] := by
  unfold tick at h
  split at h
  · next hidle =>
    simp only [Recorded.value_pure, Option.some.injEq, Prod.mk.injEq] at h
    exact Or.inl ⟨List.isEmpty_iff.mp hidle, h.1.symm⟩
  · rw [Recorded.value_bind, place_value] at h
    simp only [Option.bind_some, Recorded.value_pure, Option.some.injEq, Prod.mk.injEq] at h
    exact Or.inr h.1.symm

/-! ## Ways -/

/-- A decision is for a declared microservice and a device on the way up from the gateway. -/
theorem onWay_of_mem_decisions (hb : Topology.build l = .ok net.topology)
    (hn : (o.pending.map Request.id).Nodup)
    (hd : d ∈ Orchestrator.decisions net o.pending (o.attempt net root).placement) :
    d.microservice ∈ d.app.names ∧ ∀ name device, d.assignment.get? name = some device →
      net.topology.OnWay root d.request.gateway device := by
  obtain ⟨hpending, happ, hassignment, hdevice⟩ := mem_decisions hd
  have hplaced {name : Name} {device : DeviceId} (h : d.assignment.get? name = some device) :
      net.topology.OnWay root d.request.gateway device ∧ name ∈ d.app.names := by
    have hdevice : (o.attempt net root).placement.device? d.request.id name = some device := by
      rw [Placement.device?, hassignment, Option.bind_some, h]
    rw [attempt_eq] at hdevice
    obtain ⟨r, hr, hid, hway, app, happ', hname⟩ := PlacementSetting.run_device?
      (s := o.setting net root) (Layout.forest_of_build hb) hn hdevice
    obtain rfl : r = d.request := List.inj_on_of_nodup_map hn hr hpending hid
    obtain rfl := Option.some.inj (happ'.symm.trans happ)
    exact ⟨hway, hname⟩
  exact ⟨(hplaced hdevice).2, fun name device h => (hplaced h).1⟩

/-- What is decided can be launched: the application declares it, and the device exists. -/
theorem launchable_of_mem_decisions (hb : Topology.build l = .ok net.topology)
    (ha : net.applications = .ofList apps) (hn : (o.pending.map Request.id).Nodup)
    (hroot : ∀ r ∈ o.pending, net.topology.orchestratorFor r.gateway = some root)
    (hd : d ∈ Orchestrator.decisions net o.pending (o.attempt net root).placement) :
    net.application? d.app.id = some d.app ∧ d.microservice ∈ d.app.names
      ∧ net.topology.contains d.device = true := by
  have hf := Layout.forest_of_build hb
  obtain ⟨hpending, happ, _, hdevice⟩ := mem_decisions hd
  obtain ⟨hdeclared, hway⟩ := onWay_of_mem_decisions hb hn hd
  have hgateway := Layout.mem_ids_of_orchestratorFor (hroot d.request hpending)
  refine ⟨?_, hdeclared, Layout.contains_iff.mpr (hf.mem_ids_of_onWay hgateway (hway _ _ hdevice))⟩
  rw [Network.id_of_application? ha happ]
  exact happ

/-- Who is told of an instance can reach it. -/
theorem nextHop_of_mem_clients (hb : Topology.build l = .ok net.topology)
    (hn : (o.pending.map Request.id).Nodup) (hlocal : ∀ r ∈ o.pending, r.Local)
    (hroot : ∀ r ∈ o.pending, net.topology.orchestratorFor r.gateway = some root)
    (hd : d ∈ Orchestrator.decisions net o.pending (o.attempt net root).placement) {x : DeviceId}
    (hx : x ∈ d.clients) : ∃ hop, net.topology.nextHop x d.device = .ok hop := by
  have hf := Layout.forest_of_build hb
  obtain ⟨hpending, _, _, hdevice⟩ := mem_decisions hd
  obtain ⟨_, hway⟩ := onWay_of_mem_decisions hb hn hd
  have hgateway := Layout.mem_ids_of_orchestratorFor (hroot d.request hpending)
  -- A device that is told hosts what the request brings along, or what it was given.
  have hclient : net.topology.OnWay root d.request.gateway x := by
    obtain ⟨client, _, hx⟩ := List.mem_filterMap.mp hx
    rcases Option.or_eq_some_iff.mp hx with hx | ⟨_, hx⟩
    · rw [hlocal _ hpending client x hx]
      exact .refl
    · exact hway client x hx
  exact Topology.exists_nextHop hb (hf.mem_ids_of_onWay hgateway hclient)
    (((Layout.Joined.of_onWay hclient).symm hf).trans (.of_onWay (hway _ _ hdevice)))

end Orchestrator

namespace Machine

variable {net : Network} {m m' : Machine} {e : Event} {actions : List Action}

/-- Dispatch commands nothing. -/
theorem event?_of_dispatched {message : Message} {o : Outbound}
    (h : m.Dispatched net message actions o) {a : Action} (ha : a ∈ actions) : a.event? = none := by
  cases h with
  | delivered targets _ =>
    obtain ⟨_, _, rfl⟩ := List.mem_map.mp ha
    rfl
  | sent _ _ _ _ _ hsend =>
    rcases Outbound.send_cases hsend with ⟨rfl, _⟩ | ⟨_, rfl, _⟩
    · cases ha
    · rcases List.mem_pair.mp ha with rfl | rfl <;> rfl
  | _ =>
    rw [List.mem_singleton.mp ha]
    rfl

/-- Only a cycle commands. -/
theorem tick_of_effect (h : m.Effect net e actions m') {a : Action} (ha : a ∈ actions)
    {event : Event} (hevent : a.event? = some event) :
    e = .placementTimer ∧ ∃ o o', m.orchestrator = some o
      ∧ (o.tick net m.id).value = some (actions, o') := by
  cases h with
  | cycle ho ht => exact ⟨rfl, _, _, ho, ht⟩
  | freed ho =>
    rcases Outbound.freed_cases ho with ⟨rfl, _⟩ | ⟨_, _, rfl, _⟩
    · cases ha
    · rcases List.mem_pair.mp ha with rfl | rfl <;> cases hevent
  | received hcounted hrest =>
    rcases List.mem_append.mp ha with ha | ha
    · rw [hcounted a ha] at hevent
      cases hevent
    · rw [event?_of_dispatched hrest ha] at hevent
      cases hevent
  | _ => cases ha

/-- A device knows of a host what it knew before, or what it is told. -/
theorem learned_of_effect (h : m.Effect net e actions m') {name : Name} {host : DeviceId}
    (hmem : (name, host) ∈ m'.directory.announcements) :
    (name, host) ∈ m.directory.announcements ∨ e = .serviceDiscoveryUpdate name host := by
  cases h with
  | learned microservice host' =>
    rcases List.mem_append.mp hmem with hmem | hmem
    · exact Or.inl hmem
    · obtain ⟨rfl, rfl⟩ := Prod.mk.inj (List.mem_singleton.mp hmem)
      exact Or.inr rfl
  | _ => exact Or.inl hmem

/-- A request is pending that was pending before, or that is submitted. -/
theorem pending_of_effect (h : m.Effect net e actions m') {o' : Orchestrator}
    (ho' : m'.orchestrator = some o') {r : Request} (hr : r ∈ o'.pending) :
    (∃ o, m.orchestrator = some o ∧ r ∈ o.pending) ∨ e.request? = some r := by
  cases h with
  | cycle ho ht =>
    rw [← Option.some.inj ho', Orchestrator.tick_pending ht] at hr
    exact Or.inl ⟨_, ho, (List.mem_filter.mp hr).1⟩
  | submitted request =>
    obtain ⟨o, ho, rfl⟩ := Option.map_eq_some_iff.mp ho'
    rcases List.mem_append.mp hr with hr | hr
    · exact Or.inl ⟨o, ho, hr⟩
    · exact Or.inr (congrArg some (List.mem_singleton.mp hr).symm)
  | _ => exact Or.inl ⟨o', ho', hr⟩

/-- A device starts with the timer of its cycles, and deploys client modules. -/
theorem start_cases {a : Action} (h : a ∈ m.start) : a = .setTimer .placementCycle 0
    ∨ ∃ app module e, e ∈ clientEvents app module ∧ a = .enqueueInternal e := by
  rcases List.mem_append.mp h with h | h
  · split at h
    · exact Or.inl (List.mem_singleton.mp h)
    · cases h
  · split at h
    · obtain ⟨c, _, hc⟩ := List.mem_flatMap.mp h
      obtain ⟨e, he, rfl⟩ := List.mem_map.mp hc
      exact Or.inr ⟨c.1, c.2, e, he, rfl⟩
    · cases h

end Machine

end FogNet
