import FogNet.Proofs.Simulation.Decisions

/-!
# Directories are backed

A device is told of a host by the same cycle that commands the launch there. Both are commands, and
they come in the order of devices, so a device may be told too early. But what a device is told was
decided, and what was decided runs when a message comes.

## Main statements

* `modest_of_ran` — requests bring along only what is at their gateway
* `told_of_step`, `announced_of_ran` — what devices are told was announced by a cycle
* `truthful_of_ran` — what devices are told is true, or promised for this instant
* `directories_backed` — what a directory says is true when a message comes
-/

namespace FogNet

namespace Simulation

variable {net : Network} {seed : UInt64} {s s' : Simulation} {l : Layout} {history : List Step}
  {apps : List Application} {bookings : List Booking} {d host : DeviceId} {name : Name} {key : Key}
  {task : Task} {app : AppId}

/-! ## Requests -/

/-- What is scheduled for an action submits the request of the action. -/
theorem request?_booking? {device : DeviceId} {a : Action} {b : Booking}
    (hb : s.booking? device a = some b) : b.task.request? = a.request? := by
  cases booked_of_booking? hb with
  | setTimer timer _ => cases timer <;> rfl
  | _ => rfl

/-- All requests on their way or pending bring along only what is at their gateway. -/
structure Modest (s : Simulation) : Prop where
  underway : ∀ e ∈ s.queue.entries, ∀ r, e.2.request? = some r → r.Local
  pending : ∀ d m o, s.machine? d = some m → m.orchestrator = some o → ∀ r ∈ o.pending, r.Local

namespace Modest

theorem still (h : s.Modest) (hs : s.Still s') : s'.Modest := by
  refine ⟨fun e he => h.underway e (hs.queue e he), fun d m' o hm ho => ?_⟩
  obtain ⟨m, hm, _, _, horchestrator⟩ := hs.machine d m' hm
  exact h.pending d m o hm (horchestrator ▸ ho)

theorem books (h : s.Modest) (hb : s.Books s' bookings)
    (hnew : ∀ b ∈ bookings, ∀ r, b.task.request? = some r → r.Local) : s'.Modest := by
  refine ⟨fun e he r hr => ?_, fun d m o hm => h.pending d m o ?_⟩
  · rcases hb.mem he with ⟨b, hmem, _, _, rfl⟩ | he
    · exact hnew b hmem r hr
    · exact h.underway e he r hr
  · rw [machine?, hb.machines] at hm
    exact hm

theorem insert (h : s.Modest) {g : DeviceId} {m' : Machine}
    (hpending : ∀ o, m'.orchestrator = some o → ∀ r ∈ o.pending, r.Local) :
    Modest { s with machines := s.machines.insert g m' } := by
  refine ⟨h.underway, fun d m o hm ho => ?_⟩
  rw [machine?, SortedMap.get?_insert] at hm
  split at hm
  · rw [← Option.some.inj hm] at ho
    exact hpending o ho
  · exact h.pending d m o hm ho

theorem happen (h : s.Modest) {device : DeviceId} {event : Event}
    (hrequest : ∀ r, event.request? = some r → r.Local)
    (hp : s.happen device event = .ok s') : s'.Modest := by
  rcases happen_books hp with ⟨_, rfl⟩ | ⟨m, actions, m', hm, hv, hbooks⟩
  · exact h
  · have hinsert : Modest { s with machines := s.machines.insert device m' } := by
      refine h.insert fun o' ho' r hr => ?_
      rcases Machine.pending_of_effect (Machine.effect_of_handle hv) ho' hr with ⟨o, ho, hr⟩ | hr
      · exact h.pending device m o hm ho r hr
      · exact hrequest r hr
    refine hinsert.books hbooks fun b hb r hr => ?_
    obtain ⟨a, ha, hb⟩ := List.mem_filterMap.mp hb
    rw [request?_booking? hb, Machine.handle_requests hv a ha] at hr
    cases hr

theorem step (h : s.Modest) (hq : s.queue.first? = some (key, task))
    (hp : (s.take key task).process key task = .ok s') : s'.Modest := by
  have htaken := h.still (take_still hq)
  cases task with
  | sensorTick id =>
    obtain ⟨_, hbooks, hemission⟩ := tick_books hp
    refine htaken.books hbooks fun b hb r hr => ?_
    cases hemission b hb <;> cases hr
  | executionCompleted target message =>
    rw [← Except.ok.inj hp]
    refine htaken.books (complete_books _ target message) fun b hb r hr => ?_
    obtain ⟨_, _, rfl⟩ := List.mem_map.mp hb
    cases hr
  | device event =>
    exact htaken.happen (h.underway _ (Queue.mem_of_first hq)) hp

end Modest

/-- What a simulation starts with submits the requests of sensors only. -/
theorem Opening.local_request {b : Booking} (h : s.Opening b) {r : Request}
    (hr : b.task.request? = some r) : r.Local := by
  cases h with
  | machine _ ha hb =>
    rw [request?_booking? hb, Machine.start_requests ha] at hr
    cases hr
  | @request sensor app _ _ _ _ =>
    obtain rfl := Option.some.inj hr
    intro name d hd
    have hd : (SortedMap.empty.insert app.clientModule sensor.gateway).get? name = some d := hd
    rw [SortedMap.get?_insert] at hd
    split at hd
    · exact (Option.some.inj hd).symm
    · cases hd
  | interval _ => cases hr

/-- Along every run requests bring along only what is at their gateway. -/
theorem modest_of_ran (h : Ran net seed history s) : s.Modest := by
  refine invariant_of_ran (P := fun _ s => s.Modest) h ?create (fun ih hs _ _ => ih.still hs)
    ?start fun _ ih hq hp => ih.step hq hp
  case create =>
    refine ⟨fun e he => absurd he List.not_mem_nil, fun d m o hm ho r hr => ?_⟩
    obtain ⟨dev, _, _, rfl⟩ := machine?_create hm
    rw [Machine.ofDevice] at ho
    simp only at ho
    split at ho
    · rw [← Option.some.inj ho] at hr
      exact absurd hr List.not_mem_nil
    · cases ho
  case start =>
    intro history s s' bookings _ _ ih hbooks hopening
    exact ih.books hbooks fun b hb r hr => (hopening b hb).local_request hr

/-! ## What devices are told -/

/-- An instance runs on a device, for a registered application that declares it. -/
def Backed (net : Network) (s : Simulation) (name : Name) (host : DeviceId) : Prop :=
  ∃ app a, net.application? app = some a ∧ name ∈ a.names
    ∧ ∃ p : InstanceId, p.device = host ∧ s.Runs app name p

/-- The launch of such an instance is scheduled for no later than the clock shows. -/
def Promised (net : Network) (history : List Step) (s : Simulation) (name : Name)
    (host : DeviceId) : Prop :=
  net.topology.contains host = true
    ∧ ∃ app a, net.application? app = some a ∧ name ∈ a.names ∧ ∃ e ∈ s.queue.entries,
      e.1.device = host ∧ e.2 = .device (.launchMicroservice app name) ∧ e.1.time ≤ clock history

/-- A device is told of a host, or it will be. -/
inductive Told (s : Simulation) : DeviceId → Name → DeviceId → Prop
  | known {d host : DeviceId} {m : Machine} {name : Name} : s.machine? d = some m →
      (name, host) ∈ m.directory.announcements → Told s d name host
  | pending {host : DeviceId} {e : Key × Task} {name : Name} : e ∈ s.queue.entries →
      e.2 = .device (.serviceDiscoveryUpdate name host) → Told s e.1.device name host

/-- What devices are told is true or promised, and they can reach the hosts. -/
def Truthful (net : Network) (history : List Step) (s : Simulation) : Prop :=
  ∀ d name host, s.Told d name host → (s.Backed net name host ∨ s.Promised net history name host)
    ∧ ∃ hop, net.topology.nextHop d host = .ok hop

/-- No message comes while there is a promise. -/
theorem Promised.not_first (hk : s.Kept history) (h : s.Promised net history name host)
    {message : Message} (hq : s.queue.first? = some (key, .device (.messageArrived message))) :
    False := by
  obtain ⟨_, _, _, _, _, hdue⟩ := h
  exact Due.not_first hk hdue hq

/-! ## Announcements -/

/-- In a cycle a device is told of a host, which is decided on for an application. -/
def Step.Announces (x : Step) (d : DeviceId) (name : Name) (host : DeviceId) (app : AppId) : Prop :=
  ∃ dec ∈ x.decisions, d ∈ dec.clients ∧ dec.microservice = name ∧ dec.device = host
    ∧ dec.app.id = app

/-- A cycle told a device of a host, which it decided on for an application. -/
def Announced (history : List Step) (d : DeviceId) (name : Name) (host : DeviceId) (app : AppId) :
    Prop :=
  ∃ x ∈ history, x.Announces d name host app

theorem Announced.append (h : Announced history d name host app) (x : Step) :
    Announced (history ++ [x]) d name host app := by
  obtain ⟨y, hy, hannounces⟩ := h
  exact ⟨y, List.mem_append_left _ hy, hannounces⟩

theorem Told.still (hs : s.Still s') (h : s'.Told d name host) : s.Told d name host := by
  cases h with
  | known hm hmem =>
    obtain ⟨m, hm, _, hdirectory, _⟩ := hs.machine _ _ hm
    exact .known hm (hdirectory ▸ hmem)
  | pending he ht => exact .pending (hs.queue _ he) ht

/-- What is scheduled may tell a device of a host. -/
theorem Told.books (hb : s.Books s' bookings) (h : s'.Told d name host) : s.Told d name host
    ∨ ∃ b ∈ bookings, b.device = d ∧ b.task = .device (.serviceDiscoveryUpdate name host) := by
  cases h with
  | known hm hmem =>
    rw [machine?, hb.machines] at hm
    exact Or.inl (.known hm hmem)
  | pending he ht =>
    rcases hb.mem he with ⟨b, hmem, _, _, rfl⟩ | he
    · exact Or.inr ⟨b, hmem, rfl, ht⟩
    · exact Or.inl (.pending he ht)

/-- An internal event is scheduled by a command. -/
theorem command_of_booking? {device : DeviceId} {a : Action} {b : Booking} {event : Event}
    (hb : s.booking? device a = some b) (ht : b.task = .device event)
    (hi : event.isInternal = true) :
    a = .deliver b.device event ∨ a = .enqueueInternal event := by
  cases booked_of_booking? hb with
  | deliver _ _ =>
    obtain rfl := Task.device.inj ht
    exact Or.inl rfl
  | enqueueInternal _ =>
    obtain rfl := Task.device.inj ht
    exact Or.inr rfl
  | setTimer timer _ =>
    obtain rfl := Task.device.inj ht
    cases timer <;> cases hi
  | transmit _ _ _ _ _ =>
    obtain rfl := Task.device.inj ht
    cases hi
  | execute _ => cases ht

/-- A device is told by the cycle of an orchestrator. -/
theorem told_of_happen (hs : s.Arranged net) {event : Event}
    (hp : (s.take key (.device event)).happen key.device event = .ok s')
    (h : s'.Told d name host) :
    (s.take key (.device event)).Told d name host
      ∨ (key.device = d ∧ event = .serviceDiscoveryUpdate name host)
      ∨ ∃ app, Step.Announces ⟨s, key, .device event⟩ d name host app := by
  rcases happen_books hp with ⟨_, rfl⟩ | ⟨m, actions, m', hm, hv, hbooks⟩
  · exact Or.inl h
  have heffect := Machine.effect_of_handle hv
  rcases h.books hbooks with h | ⟨b, hb, rfl, ht⟩
  · cases h with
    | pending he ht => exact Or.inl (.pending he ht)
    | known hm₁ hmem =>
      rw [machine?, SortedMap.get?_insert] at hm₁
      split at hm₁
      · next hd =>
        rw [← Option.some.inj hm₁] at hmem
        rcases Machine.learned_of_effect heffect hmem with hmem | he
        · have hmem : (name, host) ∈ m.directory.announcements := hmem
          exact Or.inl (.known (hd ▸ hm) hmem)
        · exact Or.inr (Or.inl ⟨hd.symm, he⟩)
      · exact Or.inl (.known hm₁ hmem)
  · obtain ⟨a, ha, hb⟩ := List.mem_filterMap.mp hb
    have hcommand := command_of_booking? hb ht rfl
    have hevent : a.event? = some (.serviceDiscoveryUpdate name host) := by
      rcases hcommand with rfl | rfl <;> rfl
    obtain ⟨rfl, o, o', ho, htick⟩ := Machine.tick_of_effect heffect ha hevent
    have hm : s.machine? key.device = some m := hm
    have hid : m.id = key.device := hs.id _ m hm
    rw [show ({ m with now := (s.take key (.device .placementTimer)).now } : Machine).id
      = key.device from hid] at htick
    rcases Orchestrator.actions_of_tick htick with ⟨_, rfl⟩ | rfl
    · rw [List.mem_singleton.mp ha] at hevent
      cases hevent
    · rcases hcommand with rfl | rfl
      · have ha := (List.mem_append.mp ha).resolve_right (by simp [Orchestrator.nextCycle])
        obtain ⟨dec, hmem, hclient, hname, hhost⟩ := Orchestrator.decision_of_announced ha
        have hdec : dec ∈ Step.decisions ⟨s, key, .device .placementTimer⟩ := by
          rw [Step.decisions_of_cycle hm ho]
          exact hmem
        exact Or.inr (Or.inr ⟨_, dec, hdec, hclient, hname, hhost, rfl⟩)
      · rcases Orchestrator.tick_actions htick ha with he | ⟨_, _, he, _⟩ <;> cases he

/-- What is told in a step was told before, or it is announced now. -/
theorem told_of_step (hs : s.Arranged net) (hq : s.queue.first? = some (key, task))
    (hp : (s.take key task).process key task = .ok s') (h : s'.Told d name host) :
    s.Told d name host ∨ ∃ app, Step.Announces ⟨s, key, task⟩ d name host app := by
  have hstill := take_still hq
  cases task with
  | sensorTick id =>
    obtain ⟨_, hbooks, hemission⟩ := tick_books hp
    rcases h.books hbooks with h | ⟨b, hb, _, ht⟩
    · exact Or.inl (h.still hstill)
    · cases hemission b hb <;> cases ht
  | executionCompleted target message =>
    rw [← Except.ok.inj hp] at h
    rcases h.books (complete_books _ target message) with h | ⟨b, hb, _, ht⟩
    · exact Or.inl (h.still hstill)
    · obtain ⟨_, _, rfl⟩ := List.mem_map.mp hb
      cases ht
  | device event =>
    rcases told_of_happen hs hp h with h | ⟨rfl, rfl⟩ | hannounced
    · exact Or.inl (h.still hstill)
    · exact Or.inl (.pending (Queue.mem_of_first hq) rfl)
    · exact Or.inr hannounced

/-! ## Runs -/

/-- A simulation starts without announcements. -/
theorem Opening.not_told {b : Booking} (h : s.Opening b) (name : Name) (host : DeviceId) :
    b.task ≠ .device (.serviceDiscoveryUpdate name host) := by
  intro ht
  cases h with
  | machine _ ha hb =>
    have hcommand := command_of_booking? hb ht rfl
    rcases Machine.start_cases ha with rfl | ⟨app, module, e, he, rfl⟩
    · rcases hcommand with he | he <;> cases he
    · rcases hcommand with hcommand | hcommand
      · cases hcommand
      · rw [Action.enqueueInternal.inj hcommand] at he
        simp [Machine.clientEvents] at he
  | request _ _ _ => cases ht
  | interval _ => cases ht

/-- In every reached simulation what devices are told was announced. -/
theorem announced_of_ran (hb : Topology.build l = .ok net.topology) (h : Ran net seed history s)
    (ht : s.Told d name host) : ∃ app, Announced history d name host app := by
  refine invariant_of_ran (P := fun history s => ∀ d name host, s.Told d name host →
    ∃ app, Announced history d name host app) h ?create
    (fun ih hs _ _ d name host ht => ih d name host (ht.still hs)) ?start ?step d name host ht
  case create =>
    rintro d name host (⟨hm, hmem⟩ | ⟨he, _⟩)
    · obtain ⟨_, _, _, rfl⟩ := machine?_create hm
      exact absurd hmem List.not_mem_nil
    · exact absurd he List.not_mem_nil
  case start =>
    intro history s s' bookings _ _ ih hbooks hopening d name host ht
    rcases ht.books hbooks with ht | ⟨b, hmem, _, hb⟩
    · exact ih d name host ht
    · exact absurd hb ((hopening b hmem).not_told name host)
  case step =>
    intro history s s' key task h ih hq hp d name host ht
    rcases told_of_step (intact_of_ran hb h).arranged hq hp ht with ht | ⟨app, hannounces⟩
    · exact (ih d name host ht).imp fun _ hannounced => hannounced.append _
    · exact ⟨app, _, List.mem_append_right _ List.mem_cons_self, hannounces⟩

/-- What is announced is declared by a registered application, and who is told can reach it. -/
theorem Announced.reachable (hb : Topology.build l = .ok net.topology)
    (ha : net.applications = .ofList apps) (h : Ran net seed history s)
    (hannounced : Announced history d name host app) :
    (∃ a, net.application? app = some a ∧ name ∈ a.names) ∧ net.topology.contains host = true
      ∧ ∃ hop, net.topology.nextHop d host = .ok hop := by
  obtain ⟨x, hx, dec, hdec, hclient, rfl, rfl, rfl⟩ := hannounced
  obtain ⟨_, hran, _⟩ := h.mem hx
  obtain ⟨happ, hdeclared, hhost⟩ := launchable_of_decided hb ha hran hdec
  refine ⟨⟨dec.app, happ, hdeclared⟩, hhost, ?_⟩
  obtain ⟨_, m, o, hm, ho, hdec⟩ := Step.mem_decisions hdec
  rw [(intact_of_ran hb hran).arranged.network] at hdec
  obtain ⟨hn, hroot⟩ := pending_of_ran hran hm ho
  exact Orchestrator.nextHop_of_mem_clients hb hn ((modest_of_ran hran).pending _ m o hm ho) hroot
    hdec hclient

/-- In every reached simulation what devices are told is true or promised. -/
theorem truthful_of_ran (hb : Topology.build l = .ok net.topology)
    (ha : net.applications = .ofList apps) (h : Ran net seed history s) :
    s.Truthful net history := by
  intro d name host htold
  obtain ⟨app, hannounced⟩ := announced_of_ran hb h htold
  obtain ⟨⟨a, happ, hname⟩, hhost, hhop⟩ := hannounced.reachable hb ha h
  refine ⟨?_, hhop⟩
  obtain ⟨x, hx, dec, hdec, _, rfl, rfl, rfl⟩ := hannounced
  exact (decided_of_ran hb ha h hx hdec).imp (fun hserves => ⟨_, a, happ, hname, hserves⟩)
    fun hdue => ⟨hhost, _, a, happ, hname, hdue⟩

/--
When a message is about to be handled, all that any device knows of hosts is true: the host runs an
instance of the microservice, for a registered application that declares it. And there is a next hop
from the device towards the host.
-/
theorem directories_backed (hb : Topology.build l = .ok net.topology)
    (ha : net.applications = .ofList apps) (h : Ran net seed history s) {message : Message}
    (hq : s.queue.first? = some (key, .device (.messageArrived message))) {m : Machine}
    (hm : s.machine? d = some m) (hmem : (name, host) ∈ m.directory.announcements) :
    (∃ app a, net.application? app = some a ∧ name ∈ a.names
        ∧ ∃ m', s.machine? host = some m' ∧ m'.deployment.hosts app name = true)
      ∧ ∃ hop, net.topology.nextHop d host = .ok hop := by
  obtain ⟨hbacked, hhop⟩ := truthful_of_ran hb ha h d name host (.known hm hmem)
  refine ⟨?_, hhop⟩
  rcases hbacked with ⟨app, a, happ, hname, p, rfl, m', hm', hp⟩ | hpromised
  · refine ⟨app, a, happ, hname, m', hm', ?_⟩
    rw [Deployment.hosts, Bool.not_eq_true', List.isEmpty_eq_false_iff]
    exact List.ne_nil_of_mem hp
  · exact (hpromised.not_first (kept_of_ran h) hq).elim

/-- A message is about to be handled. -/
def messageNext (s : Simulation) : Bool :=
  match s.queue.first? with
  | some (_, .device (.messageArrived _)) => true
  | _ => false

theorem messageNext_cases (h : s.messageNext = true) :
    ∃ key message, s.queue.first? = some (key, .device (.messageArrived message)) := by
  unfold messageNext at h
  split at h
  · next key message hq => exact ⟨key, message, hq⟩
  · cases h

/--
When the first message of the sensor is about to arrive at the phone, the phone knows that the echo
is on the cloud, and there it is.
-/
theorem directories_backed_echo : ∃ history s key message m, Ran echoNetwork 0 history s
    ∧ s.queue.first? = some (key, .device (.messageArrived message))
    ∧ s.machine? 2 = some m ∧ ("m", 1) ∈ m.directory.announcements
    ∧ (∃ app a, echoNetwork.application? app = some a ∧ "m" ∈ a.names
        ∧ ∃ m', s.machine? 1 = some m' ∧ m'.deployment.hosts app "m" = true)
    ∧ ∃ hop, echoNetwork.topology.nextHop 2 1 = .ok hop := by
  obtain ⟨s, hs, hp⟩ := exists_of_finishesWith
    (p := fun s => s.messageNext
      && (s.machine? 2).any fun m => m.directory.announcements.contains ("m", 1))
    (show finishesWith _ (echoStart.runUntil 505000000 60) = true by decide +kernel)
  have hran : Ran echoNetwork 0 (echoStart.stepsUntil 505000000 60) s :=
    ran_of_runUntil (ran_withSensors _ _ _) hs
  obtain ⟨hnext, hphone⟩ := Bool.and_eq_true_iff.mp hp
  obtain ⟨key, message, hq⟩ := messageNext_cases hnext
  obtain ⟨m, hm, hknown⟩ := (Option.any_eq_true _ _).mp hphone
  have hmem := List.contains_iff_mem.mp hknown
  have happlications : echoNetwork.applications = .ofList [echo] := rfl
  obtain ⟨hbacked, hhop⟩ := directories_backed build_phone happlications hran hq hm hmem
  exact ⟨_, s, key, message, m, hran, hq, hm, hmem, hbacked, hhop⟩

end Simulation

end FogNet
