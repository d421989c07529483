import FogNet.Proofs.Simulation.Directories
import FogNet.Proofs.Simulation.Journeys
import FogNet.Proofs.Simulation.Loads

/-!
# Whom a message is resolved to

A device finds the host of a message by the name of the microservice alone. It knows a host because
a cycle announced it, and what a cycle announces is decided on for one application. So the host runs
the microservice for an application that it was announced for, and if it was announced for no other
application than that of the message, the message finds an instance there. Applications that use the
same name, and have their clients on the same device, get in each other's way: a message of one of
them may come to a host that runs the microservice for the other one only.

## Main statements

* `Announced.serves` — when a message comes, a host that was announced runs the microservice
* `routed_of_ran` — messages that were resolved on their way up go to hosts that were announced
* `resolved_announced` — which instances a host of a message runs
* `not_resolved_own` — one that runs none for the application of the message
-/

namespace FogNet

/-! ## Messages without an instance -/

namespace Deployment

/-- A message finds no instance only where none runs. -/
theorem hosts_of_select {d : Deployment} {app : AppId} {name : Name} {pin : Option InstanceId}
    (h : d.select app name pin = .error .noInstance) : d.hosts app name = false := by
  unfold select at h
  split at h
  · split at h <;> cases h
  · split at h
    · cases h
    · next hnil => rw [hosts, hnil]; rfl

end Deployment

namespace Machine

/-- Dispatch gives a message up for want of an instance only where it is bound for. -/
theorem noInstance_of_dispatched {net : Network} {m : Machine} {message : Message}
    {actions : List Action} {o : Outbound} (h : m.Dispatched net message actions o) {id : MessageId}
    (hdrop : .recordDrop id .noInstance ∈ actions) : message.direction ≠ .actuator
      ∧ ∃ addressed, m.addressed? message = some (m.id, addressed)
        ∧ m.deployment.hosts addressed.app addressed.destination = false := by
  cases h with
  | @rejected addressed _ hdirection haddressed hselect =>
    obtain ⟨-, rfl⟩ := Action.recordDrop.inj (List.mem_singleton.mp hdrop)
    exact ⟨hdirection, addressed, haddressed, Deployment.hosts_of_select hselect⟩
  | delivered targets _ =>
    obtain ⟨_, _, he⟩ := List.mem_map.mp hdrop
    cases he
  | sent _ _ _ _ _ hsend =>
    rcases Outbound.send_cases hsend with ⟨rfl, _⟩ | ⟨_, rfl, _⟩ <;> simp at hdrop
  | _ => cases List.mem_singleton.mp hdrop

end Machine

/-- What ends by being dropped is dropped by an action. -/
theorem recordDrop_of_mem_endings {actions : List Action} {id : MessageId} {reason : DropReason}
    (h : (id, Fate.dropped reason) ∈ endings actions) : .recordDrop id reason ∈ actions := by
  rcases List.mem_append.mp h with h | h
  · obtain ⟨e, he, heq⟩ := List.mem_map.mp h
    obtain ⟨rfl, hreason⟩ := Prod.mk.inj heq
    obtain ⟨a, ha, hdropped⟩ := List.mem_filterMap.mp he
    cases a with
    | recordDrop id' reason' =>
      obtain rfl := Option.some.inj hdropped
      exact Fate.dropped.inj hreason ▸ ha
    | _ => cases hdropped
  · obtain ⟨_, _, heq⟩ := List.mem_map.mp h
    cases heq

namespace Simulation

variable {net : Network} {seed : UInt64} {s s' : Simulation} {l : Layout} {history : List Step}
  {apps : List Application} {c d host : DeviceId} {name : Name} {app : AppId} {message : Message}
  {key : Key} {task : Task}

/-- What a device does about an event is an effect of the event. -/
theorem Step.effect_of_mem_actions {event : Event} {a : Action}
    (ha : a ∈ Step.actions ⟨s, key, task⟩ event) : ∃ m m', s.machine? key.device = some m
      ∧ Machine.Effect s.network { m with now := key.time } event
          (Step.actions ⟨s, key, task⟩ event) m' := by
  cases hm : s.machine? key.device with
  | none =>
    rw [actions_of_none hm] at ha
    cases ha
  | some m =>
    cases hv : ({ m with now := key.time }.handle s.network event).value with
    | none =>
      rw [actions, hm] at ha
      simp only [hv] at ha
      cases ha
    | some result =>
      refine ⟨m, result.2, rfl, ?_⟩
      rw [Step.actions_of_handle hm hv]
      exact Machine.effect_of_handle hv

/-- Where a message ends for want of an instance, none runs. -/
theorem Step.hosts_of_noInstance {id : MessageId}
    (h : (id, .dropped .noInstance) ∈ Step.ended ⟨s, key, task⟩) : ∃ m message,
      s.machine? key.device = some m ∧ Step.resolved? ⟨s, key, task⟩ = some (m.id, message)
        ∧ m.deployment.hosts message.app message.destination = false := by
  unfold ended at h
  split at h
  · next event ht =>
    have hdrop := recordDrop_of_mem_endings h
    obtain ⟨m, m', hm, heffect⟩ := effect_of_mem_actions hdrop
    obtain ⟨arrived, rest, o, rfl, hrest, hmem⟩ :=
      Machine.dispatched_of_effect heffect hdrop (fun hc => hc.elim) rfl
    obtain ⟨hdirection, addressed, haddressed, hhosts⟩ :=
      Machine.noInstance_of_dispatched hrest hmem
    refine ⟨m, addressed, hm, ?_, hhosts⟩
    rw [resolved?, ht]
    simp only [if_neg hdirection, hm, Option.bind_some]
    exact haddressed
  · obtain ⟨_, he⟩ := Prod.mk.inj (List.mem_singleton.mp h)
    cases he
  · cases h

/-! ## Announcements -/

/-- When a message comes, a host that was announced runs the microservice. -/
theorem Announced.serves (hb : Topology.build l = .ok net.topology)
    (ha : net.applications = .ofList apps) (h : Ran net seed history s)
    (hq : s.queue.first? = some (key, .device (.messageArrived message)))
    (hannounced : Announced history d name host app) : s.Serves app name host := by
  obtain ⟨x, hx, dec, hdec, _, rfl, rfl, rfl⟩ := hannounced
  exact serves_at_arrival hb ha h hq hx hdec

/--
If a message was resolved on its way up, its host was announced to the device that resolved it, and
runs the microservice for the application that it was announced for.
-/
def Routed (s : Simulation) (history : List Step) (message : Message) : Prop :=
  message.direction = .up → ∀ c host, message.sourceDevice = some c →
    message.destinationDevice = some host → ∃ app,
      Announced history c message.destination host app ∧ s.Serves app message.destination host

namespace Routed

theorem grows (h : s.Routed history message) (hg : s.Grows s') : s'.Routed history message := by
  intro hup c host hc hhost
  obtain ⟨app, hannounced, hserves⟩ := h hup c host hc hhost
  exact ⟨app, hannounced, hserves.grows hg⟩

theorem append (h : s.Routed history message) (x : Step) :
    s.Routed (history ++ [x]) message := by
  intro hup c host hc hhost
  obtain ⟨app, hannounced, hserves⟩ := h hup c host hc hhost
  exact ⟨app, hannounced.append x, hserves⟩

/-- A device resolves a message going up to a host that was announced to it. -/
theorem addressed (hb : Topology.build l = .ok net.topology) (ha : net.applications = .ofList apps)
    (h : Ran net seed history s)
    (hq : s.queue.first? = some (key, .device (.messageArrived message))) {m : Machine}
    (hm : s.machine? key.device = some m) (hrouted : s.Routed history message)
    {addressed : Message} (haddressed : m.addressed? message = some (host, addressed)) :
    s.Routed history addressed := by
  rcases Machine.addressed?_cases haddressed with ⟨_, rfl⟩ | ⟨_, ⟨turns, hr⟩, rfl⟩
  · exact hrouted
  intro hup c host' hc hhost
  obtain rfl := Option.some.inj hc
  obtain rfl := Option.some.inj hhost
  rcases Machine.resolve_some_cases hr with ⟨_, hhosts⟩ | ⟨hdown, _⟩
  · obtain ⟨⟨name, host⟩, hmem, rfl⟩ := List.mem_map.mp hhosts
    obtain ⟨hknown, hname⟩ := List.mem_filter.mp hmem
    obtain rfl : name = message.destination := beq_iff_eq.mp hname
    obtain ⟨app, hannounced⟩ := announced_of_ran hb h (.known hm hknown)
    have hid : m.id = key.device := (intact_of_ran hb h).arranged.id _ m hm
    exact ⟨app, hid ▸ hannounced, hannounced.serves hb ha h hq⟩
  · cases hdown.symm.trans hup

/-- What a step puts under way is routed. -/
theorem origin (hb : Topology.build l = .ok net.topology) (ha : net.applications = .ofList apps)
    (h : Ran net seed history s)
    (hrouted : ∀ d message, s.Live d message → s.Routed history message)
    (hq : s.queue.first? = some (key, task)) (ho : s.Origin key task d message) :
    s.Routed history message := by
  have hfirst {d : DeviceId} {message : Message}
      (hcarried : task.carried? key.device = some (d, message)) : s.Routed history message :=
    hrouted d message (.queued (Queue.mem_of_first hq) hcarried)
  cases ho with
  | kept hlive => exact hrouted _ _ hlive
  | emitted _ hmessage =>
    obtain ⟨e, _, rfl⟩ := Option.map_eq_some_iff.mp hmessage
    intro _ c host hc
    cases hc
  | answered hanswer =>
    intro _ c host _ hhost
    rw [(new_of_mem_outputs hanswer).2] at hhost
    cases hhost
  | sentOn hm haddressed _ => exact addressed hb ha h hq hm (hfirst rfl) haddressed
  | chosen hm haddressed _ =>
    -- The choice of an instance leaves the addresses alone.
    have hrouted := addressed hb ha h hq hm (hfirst rfl) haddressed
    exact hrouted

end Routed

/-! ## Runs -/

/-- In every reached simulation messages that were resolved on their way up are routed. -/
theorem routed_of_ran (hb : Topology.build l = .ok net.topology)
    (ha : net.applications = .ofList apps) (h : Ran net seed history s)
    (hlive : s.Live d message) : s.Routed history message := by
  refine invariant_of_ran (P := fun history s => ∀ d message, s.Live d message →
    s.Routed history message) h ?create ?still ?start ?step d message hlive
  case create => exact fun _ _ hlive => hlive.not_create.elim
  case still =>
    intro history s s' ih hs _ _ d message hlive
    exact (ih d message (hlive.of_still hs)).grows hs.grows
  case start =>
    intro history s s' bookings _ _ ih hbooks hopening d message hlive
    exact (ih d message (hlive.of_start hbooks hopening)).grows (grows_of_machines hbooks.machines)
  case step =>
    intro history s s' key task h ih hq hp d message hlive
    have hrouted := Routed.origin hb ha h ih hq (hlive.origin hq hp)
    have htaken : s.Grows (s.take key task) := grows_of_machines rfl
    exact (hrouted.grows (htaken.trans (process_grows hp))).append _

/--
A message that was resolved on its way up is bound for a host that was announced to the device that
resolved it, for a registered application that declares the microservice, and the host runs it for
that application. If the host was announced there for no other application than that of the message,
it runs the microservice for the application of the message, which is not dropped for want of an
instance.
-/
theorem resolved_announced (hb : Topology.build l = .ok net.topology)
    (ha : net.applications = .ofList apps) (h : Ran net seed history s)
    (hq : s.queue.first? = some (key, task))
    (hr : Step.resolved? ⟨s, key, task⟩ = some (host, message)) (hup : message.direction = .up)
    (hc : message.sourceDevice = some c) :
    (∃ app a, Announced history c message.destination host app
        ∧ net.application? app = some a ∧ message.destination ∈ a.names
        ∧ ∃ m, s.machine? host = some m ∧ m.deployment.hosts app message.destination = true)
      ∧ ((∀ app, Announced history c message.destination host app → app = message.app) →
          (∃ m, s.machine? host = some m
            ∧ m.deployment.hosts message.app message.destination = true)
          ∧ ∀ id, (id, .dropped .noInstance) ∉ Step.ended ⟨s, key, task⟩) := by
  obtain ⟨arrived, m, ht, _, hm, haddressed⟩ := Step.resolved?_cases hr
  simp only at ht hm
  subst ht
  have harrived := routed_of_ran hb ha h (.queued (Queue.mem_of_first hq) rfl)
  have hrouted := harrived.addressed hb ha h hq hm haddressed
  obtain ⟨app, hannounced, hserves⟩ :=
    hrouted hup c host hc (Machine.bound_of_addressed? haddressed).1
  obtain ⟨a, happ, hname⟩ := (hannounced.reachable hb ha h).1
  refine ⟨⟨app, a, hannounced, happ, hname, hserves.hosts⟩, fun hown => ?_⟩
  obtain rfl := hown app hannounced
  obtain ⟨m', hm', hhosts⟩ := hserves.hosts
  refine ⟨⟨m', hm', hhosts⟩, fun id hended => ?_⟩
  obtain ⟨m₁, message', hm₁, hr', hnone⟩ := Step.hosts_of_noInstance hended
  rw [hr, Option.some.injEq, Prod.mk.injEq] at hr'
  obtain ⟨rfl, rfl⟩ := hr'
  have hid : m₁.id = key.device := (intact_of_ran hb h).arranged.id _ m₁ hm₁
  rw [hid, show s.machine? key.device = some m₁ from hm₁, Option.some.injEq] at hm'
  rw [hm', hhosts] at hnone
  cases hnone

/-- A step in which a message of an application comes that was resolved on its way up. -/
def Step.resolvedFor (app : AppId) (source host : DeviceId) (x : Step) : Bool :=
  x.resolved?.any fun r => r.1 == host && r.2.direction == .up && r.2.sourceDevice == some source
    && r.2.app == app

theorem Step.resolvedFor_cases {x : Step} (h : x.resolvedFor app c host = true) : ∃ message,
    x.resolved? = some (host, message) ∧ message.direction = .up
      ∧ message.sourceDevice = some c ∧ message.app = app := by
  obtain ⟨⟨_, message⟩, hr, hp⟩ := (Option.any_eq_true _ _).mp h
  simp only [Bool.and_eq_true, beq_iff_eq] at hp
  obtain ⟨⟨⟨rfl, hup⟩, hc⟩, happ⟩ := hp
  exact ⟨message, hr, hup, hc, happ⟩

/-! ## Namesakes -/

/-- A phone below a gateway and a cloud, which have room for little. -/
def street : Layout :=
  { devices := [
      { id := 1, name := "cloud", role := .cloud, capacity := { cpuMips := 100 } },
      { id := 2, name := "gw", role := .fcn, parent := some 1, capacity := { cpuMips := 100 } },
      { id := 3, name := "phone", role := .client, parent := some 2,
        capacity := { cpuMips := 100 } }] }

/-- The topology of `street`: its routes are settled after two sweeps. -/
def streetTopology : Topology :=
  { street with routes := (Relaxation.firstSweep street.linkLatency).sweep.sweep.table }

theorem build_street : Topology.build street = .ok streetTopology := by
  refine Topology.build_eq_ok (by decide +kernel) ?_ (by decide +kernel) (by decide +kernel)
  rw [Relaxation.routes, Relaxation.settle_of_changed (by decide +kernel),
    Relaxation.settle_of_still (by decide +kernel)]

/-- The client of this application sends to `m`. -/
def namesake (id : AppId) : Application :=
  { id, user := 1
    microservices := [⟨"client", 10, 0, 0, [⟨"t", "u", .ofFloat 1.0⟩]⟩, ⟨"m", 60, 0, 0, []⟩]
    edges := [.ofSensor "t" "client" 1 1000, ⟨.module, "client", "m", "u", .up, 1, 1000⟩] }

/-- Two applications whose microservices have the same names. -/
def namesakes : Network :=
  { topology := streetTopology
    applications := .ofList [namesake "a", namesake "b"]
    policy := {} }

/-- The phone with a sensor for each of the two, before the start. -/
def namesakesStart : Simulation := withSensors namesakes 0
  [{ id := 1, gateway := 3, app := "b", tupleType := "t", interval := Duration.ofMillis 9000 },
    { id := 2, gateway := 3, app := "a", tupleType := "t", interval := Duration.ofMillis 1500 }]

/-- What is processed in the first seconds, with two messages of one of the applications. -/
def namesakesSteps : List Step := namesakesStart.stepsUntil 3106100000 60

/-- One of these steps, which comes after some others of them. -/
theorem exists_namesakesStep {p : Step → Bool} (h : namesakesSteps.any p = true) :
    ∃ history s key task, Ran namesakes 0 history s ∧ s.queue.first? = some (key, task)
      ∧ p ⟨s, key, task⟩ = true ∧ ∀ y ∈ history, y ∈ namesakesSteps := by
  obtain ⟨s, hs, _⟩ := exists_of_finishesWith (p := fun _ => true)
    (show finishesWith _ (namesakesStart.runUntil 3106100000 60) = true by decide +kernel)
  have hran : Ran namesakes 0 namesakesSteps s := ran_of_runUntil (ran_withSensors _ _ _) hs
  obtain ⟨⟨s, key, task⟩, hx, hp⟩ := List.any_eq_true.mp h
  obtain ⟨history, hran, hq, _, hmem⟩ := hran.mem_earlier hx
  exact ⟨history, s, key, task, hran, hq, hp, hmem⟩

/--
Both applications use the name `m`, and the gateway runs it for the other one. But the cloud was
announced to the phone for this application only, and a message that is resolved to it finds its
instance there.
-/
theorem resolved_announced_namesakes : ∃ history s key task message, Ran namesakes 0 history s
    ∧ s.queue.first? = some (key, task)
    ∧ Step.resolved? ⟨s, key, task⟩ = some (1, message) ∧ message.direction = .up
    ∧ message.sourceDevice = some 3 ∧ message.app = "a" ∧ message.destination = "m"
    ∧ (∃ m, s.machine? 2 = some m ∧ m.deployment.hosts "b" "m" = true)
    ∧ (∃ m, s.machine? 1 = some m ∧ m.deployment.hosts message.app message.destination = true)
    ∧ ∀ id, (id, .dropped .noInstance) ∉ Step.ended ⟨s, key, task⟩ := by
  obtain ⟨history, s, key, task, hran, hq, hseen, hmem⟩ := exists_namesakesStep
    (p := fun x => x.resolvedFor "a" 3 1
      && (x.before.machine? 2).any (fun m => m.deployment.hosts "b" "m")
      && x.resolved?.any fun r => r.2.destination == "m") (by decide +kernel)
  simp only [Bool.and_eq_true] at hseen
  obtain ⟨⟨hresolved, hgateway⟩, hname⟩ := hseen
  obtain ⟨message, hr, hup, hc, happ⟩ := Step.resolvedFor_cases hresolved
  rw [hr, Option.any_some, beq_iff_eq] at hname
  -- No cycle told the phone of the cloud for the other application.
  have honce : ∀ x ∈ namesakesSteps, ∀ dec ∈ x.decisions, dec.device = 1 → dec.app.id = "a" := by
    decide +kernel
  have hown (app : AppId) (hannounced : Announced history 3 message.destination 1 app) :
      app = message.app := by
    obtain ⟨x, hx, dec, hdec, _, _, hdevice, rfl⟩ := hannounced
    rw [happ, honce x (hmem x hx) dec hdec hdevice]
  have happs : namesakes.applications = .ofList [namesake "a", namesake "b"] := rfl
  obtain ⟨_, hfound⟩ := resolved_announced build_street happs hran hq hr hup hc
  obtain ⟨hhosts, hdrop⟩ := hfound hown
  exact ⟨history, s, key, task, message, hran, hq, hr, hup, hc, happ, hname,
    (Option.any_eq_true _ _).mp hgateway, hhosts, hdrop⟩

/--
The gateway runs `m` for the one application, and the cloud for the other one. The phone knows both
hosts by the name, and takes them in turn: a message of the application that has its instance on the
cloud comes to the gateway, where it is dropped.
-/
theorem not_resolved_own : Topology.build street = .ok namesakes.topology
    ∧ namesakes.applications = .ofList [namesake "a", namesake "b"]
    ∧ ∃ history s key task message, Ran namesakes 0 history s
    ∧ s.queue.first? = some (key, task)
    ∧ Step.resolved? ⟨s, key, task⟩ = some (2, message) ∧ message.direction = .up
    ∧ message.sourceDevice = some 3 ∧ message.app = "a" ∧ message.destination = "m"
    ∧ (∃ m, s.machine? 2 = some m ∧ m.deployment.hosts "a" "m" = false
        ∧ m.deployment.hosts "b" "m" = true)
    ∧ Step.ended ⟨s, key, task⟩ = [(message.id, .dropped .noInstance)] := by
  obtain ⟨history, s, key, task, hran, hq, hseen, _⟩ := exists_namesakesStep
    (p := fun x => x.resolvedFor "a" 3 2
      && (x.before.machine? 2).any (fun m =>
        !m.deployment.hosts "a" "m" && m.deployment.hosts "b" "m")
      && x.resolved?.any fun r =>
        r.2.destination == "m" && x.ended == [(r.2.id, .dropped .noInstance)]) (by decide +kernel)
  simp only [Bool.and_eq_true] at hseen
  obtain ⟨⟨hresolved, hgateway⟩, hlost⟩ := hseen
  obtain ⟨message, hr, hup, hc, happ⟩ := Step.resolvedFor_cases hresolved
  rw [hr, Option.any_some, Bool.and_eq_true, beq_iff_eq, beq_iff_eq] at hlost
  obtain ⟨m, hm, hinstances⟩ := (Option.any_eq_true _ _).mp hgateway
  rw [Bool.and_eq_true, Bool.not_eq_true'] at hinstances
  exact ⟨build_street, rfl, history, s, key, task, message, hran, hq, hr, hup, hc, happ, hlost.1,
    ⟨m, hm, hinstances⟩, hlost.2⟩

end Simulation

end FogNet
