import FogNet.Proofs.Machine.Announcements
import FogNet.Proofs.Simulation.Instances
import FogNet.Proofs.Simulation.Tracking

/-!
# What is decided is carried out

In a cycle an orchestrator decides where instances are to run, and commands their launch. A command
is due at once, and all commands of an instant come before its messages. So when a message comes,
every instance that was ever decided on runs.

## Main statements

* `pending_of_ran` — the requests that are pending anywhere
* `Due.step`, `Due.not_first` — a launch that is due is carried out before a message comes
* `decided_of_ran`, `serves_at_arrival` — what was decided runs, or its launch is due
-/

namespace FogNet

namespace Simulation

variable {net : Network} {seed : UInt64} {s s' : Simulation} {l : Layout} {history : List Step}
  {apps : List Application} {d host : DeviceId} {app : AppId} {name : Name} {key : Key}
  {task : Task} {dec : Decision}

/-! ## Decisions -/

/-- What the orchestrator of a device decides, if the task is its cycle. -/
def Step.decisions (x : Step) : List Decision :=
  match x.task with
  | .device .placementTimer =>
    match (x.before.machine? x.key.device).bind Machine.orchestrator with
    | none => []
    | some o => Orchestrator.decisions x.before.network o.pending
        (o.attempt x.before.network x.key.device).placement
  | _ => []

theorem Step.decisions_of_cycle {m : Machine} {o : Orchestrator}
    (hm : s.machine? key.device = some m) (ho : m.orchestrator = some o) :
    Step.decisions ⟨s, key, .device .placementTimer⟩
      = Orchestrator.decisions s.network o.pending (o.attempt s.network key.device).placement := by
  rw [decisions]
  simp only [hm, Option.bind_some, ho]

theorem Step.mem_decisions {x : Step} (h : dec ∈ x.decisions) :
    x.task = .device .placementTimer ∧ ∃ m o, x.before.machine? x.key.device = some m
      ∧ m.orchestrator = some o
      ∧ dec ∈ Orchestrator.decisions x.before.network o.pending
          (o.attempt x.before.network x.key.device).placement := by
  unfold decisions at h
  split at h
  · next ht =>
    split at h
    · cases h
    · next o hbind =>
      obtain ⟨m, hm, ho⟩ := Option.bind_eq_some_iff.mp hbind
      exact ⟨ht, m, o, hm, ho, h⟩
  · cases h

/-- Requests that are pending are different, and pending at the nearest orchestrating device. -/
theorem pending_of_ran (h : Ran net seed history s) {m : Machine} (hm : s.machine? d = some m)
    {o : Orchestrator} (ho : m.orchestrator = some o) : (o.pending.map Request.id).Nodup
      ∧ ∀ r ∈ o.pending, net.topology.orchestratorFor r.gateway = some d := by
  obtain ⟨submitted, htracked⟩ := tracked_of_reached h.reached
  have hsub := (htracked.placing.run d m o hm ho).pending_sublist
  exact ⟨(htracked.nodup d).sublist (hsub.map _),
    fun r hr => (htracked.genuine d r (List.mem_append_left _ (hsub.subset hr))).1⟩

/-- What is decided can be launched. -/
theorem launchable_of_decided (hb : Topology.build l = .ok net.topology)
    (ha : net.applications = .ofList apps) (h : Ran net seed history s)
    (hdec : dec ∈ Step.decisions ⟨s, key, task⟩) : net.application? dec.app.id = some dec.app
      ∧ dec.microservice ∈ dec.app.names ∧ net.topology.contains dec.device = true := by
  obtain ⟨_, m, o, hm, ho, hdec⟩ := Step.mem_decisions hdec
  simp only [(intact_of_ran hb h).arranged.network] at hdec
  obtain ⟨hn, hroot⟩ := pending_of_ran h hm ho
  exact Orchestrator.launchable_of_mem_decisions hb ha hn hroot hdec

/-! ## Launches -/

/-- An instance runs on a device. -/
def Serves (s : Simulation) (app : AppId) (name : Name) (host : DeviceId) : Prop :=
  ∃ p : InstanceId, p.device = host ∧ s.Runs app name p

/-- The launch of an instance is scheduled for no later than the clock shows. -/
def Due (history : List Step) (s : Simulation) (app : AppId) (name : Name) (host : DeviceId) :
    Prop :=
  ∃ e ∈ s.queue.entries, e.1.device = host ∧ e.2 = .device (.launchMicroservice app name)
    ∧ e.1.time ≤ clock history

theorem Serves.grows (h : s.Serves app name host) (hg : s.Grows s') : s'.Serves app name host := by
  obtain ⟨p, hp, hruns⟩ := h
  exact ⟨p, hp, hg _ _ _ hruns⟩

/-- Where an instance runs, the deployment says so. -/
theorem Serves.hosts (h : s.Serves app name host) :
    ∃ m, s.machine? host = some m ∧ m.deployment.hosts app name = true := by
  obtain ⟨p, rfl, m, hm, hp⟩ := h
  refine ⟨m, hm, ?_⟩
  rw [Deployment.hosts, Bool.not_eq_true', List.isEmpty_eq_false_iff]
  exact List.ne_nil_of_mem hp

/-- When a launch is carried out there is an instance. -/
theorem serves_of_launch (hs : s.Arranged net) (happ : (net.application? app).isSome = true)
    (hhost : net.topology.contains host = true)
    (hp : s.happen host (.launchMicroservice app name) = .ok s') : s'.Serves app name host := by
  obtain ⟨m, hm⟩ := Option.isSome_iff_exists.mp (hs.machines host hhost)
  have hm : s.machine? host = some m := hm
  rcases happen_books hp with ⟨hnone, _⟩ | ⟨m₁, actions, m', hm₁, hv, hbooks⟩
  · cases hnone.symm.trans hm
  obtain rfl := Option.some.inj (hm₁.symm.trans hm)
  have hid : m₁.id = host := hs.id host m₁ hm
  refine ⟨m₁.deployment.nextInstance, (hs.sound host m₁ hm).instances.trans hid, ?_⟩
  cases Machine.effect_of_handle hv with
  | refused _ hunknown =>
    rw [hs.network, SortedMap.contains_eq, show net.applications.get? app = net.application? app
      from rfl, happ] at hunknown
    cases hunknown
  | launched _ _ =>
    refine ⟨{ { m₁ with now := s.now } with deployment := m₁.deployment.launch app name }, ?_, ?_⟩
    · rw [machine?, hbooks.machines, Deployment.nextInstance,
        show m₁.deployment.device = host from (hs.sound host m₁ hm).instances.trans hid]
      exact SortedMap.get?_insert_self _ _ _
    · rw [Deployment.instancesOf_launch, if_pos rfl]
      exact List.mem_append_right _ List.mem_cons_self

namespace Due

theorem mono (h : s.Due history app name host)
    (hqueue : ∀ e ∈ s.queue.entries, e ∈ s'.queue.entries) : s'.Due history app name host := by
  obtain ⟨e, he, hrest⟩ := h
  exact ⟨e, hqueue e he, hrest⟩

/-- While other tasks are processed a launch stays due, and when it is its turn it is made. -/
theorem step (hk : s.Kept history) (hs : s.Arranged net)
    (happ : (net.application? app).isSome = true) (hhost : net.topology.contains host = true)
    (h : s.Due history app name host) (hq : s.queue.first? = some (key, task))
    (hp : (s.take key task).process key task = .ok s') :
    s'.Serves app name host ∨ s'.Due (history ++ [⟨s, key, task⟩]) app name host := by
  obtain ⟨e, he, rfl, htask, hdue⟩ := h
  rw [Queue.entries_of_first hq] at he
  rcases List.mem_cons.mp he with rfl | he
  · subst htask
    have htaken : (s.take key (.device (.launchMicroservice app name))).Arranged net :=
      hs.of_same rfl rfl rfl rfl
    exact Or.inl (serves_of_launch htaken happ hhost hp)
  · refine Or.inr ⟨e, (hk.stays hq hp).2 e he, rfl, htask, ?_⟩
    rw [clock_append]
    exact hdue.trans (hk.clock_le hq)

/-- No message comes while a launch is due. -/
theorem not_first (hk : s.Kept history) (h : s.Due history app name host) {message : Message}
    (hq : s.queue.first? = some (key, .device (.messageArrived message))) : False := by
  obtain ⟨e, he, _, htask, hdue⟩ := h
  have hpriority : key.priority = .network := hk.ranked _ (Queue.mem_of_first hq)
  have hlaunch : e.1.priority = .internal := by
    rw [hk.ranked e he, htask]
    rfl
  rw [Queue.entries_of_first hq] at he
  rcases List.mem_cons.mp he with rfl | he
  · cases htask
  · have hlt := Queue.first_lt hq he
    have htime : e.1.time = key.time :=
      Nat.le_antisymm (hdue.trans (hk.clock_le hq)) (Key.lt_time hlt)
    have hgt : compare e.1 key = .lt :=
      Key.lt_of_priority htime (by rw [hlaunch, hpriority]; rfl)
    exact SortedMap.compare_self_ne_lt key (Std.TransCmp.lt_trans hlt hgt)

end Due

/-- The launch of what is decided is due at once. -/
theorem due_of_decided (hb : Topology.build l = .ok net.topology)
    (ha : net.applications = .ofList apps) (h : Ran net seed history s)
    (hq : s.queue.first? = some (key, task))
    (hp : (s.take key task).process key task = .ok s')
    (hdec : dec ∈ Step.decisions ⟨s, key, task⟩) :
    s'.Due (history ++ [⟨s, key, task⟩]) dec.app.id dec.microservice dec.device := by
  have hs := (intact_of_ran hb h).arranged
  obtain ⟨_, hdeclared, hhost⟩ := launchable_of_decided hb ha h hdec
  obtain ⟨rfl, m, o, hm, ho, hdec⟩ := Step.mem_decisions hdec
  have hid : m.id = key.device := hs.id _ m hm
  have hm : (s.take key (.device .placementTimer)).machine? key.device = some m := hm
  rcases happen_books hp with ⟨hnone, _⟩ | ⟨m₁, actions, m', hm₁, hv, hbooks⟩
  · cases hnone.symm.trans hm
  obtain rfl := Option.some.inj (hm₁.symm.trans hm)
  -- The cycle carries out its decisions, for the one that is looked at is of a pending request.
  have hlaunch : .deliver dec.device (.launchMicroservice dec.app.id dec.microservice)
      ∈ actions := by
    obtain ⟨hpending, happ, _⟩ := Orchestrator.mem_decisions hdec
    cases Machine.effect_of_handle hv with
    | passed hnone => cases hnone.symm.trans ho
    | cycle ho' htick =>
      obtain rfl := Option.some.inj (ho'.symm.trans ho)
      rw [show ({ m₁ with now := (s.take key (.device .placementTimer)).now } : Machine).id
        = key.device from hid] at htick
      rcases Orchestrator.actions_of_tick htick with ⟨hnil, _⟩ | rfl
      · rw [hnil] at hpending
        cases hpending
      · exact List.mem_append_left _ (Orchestrator.launch_of_mem_decisions hdec happ hdeclared)
  have hbooking : (s.take key (.device .placementTimer)).booking? key.device
      (.deliver dec.device (.launchMicroservice dec.app.id dec.microservice))
        = some ⟨dec.device, key.time,
            .device (.launchMicroservice dec.app.id dec.microservice)⟩ :=
    if_pos (hs.machines _ hhost)
  obtain ⟨number, hmem⟩ := Booking.exists_mem_entries s.scheduled
    (List.mem_filterMap.mpr ⟨_, hlaunch, hbooking⟩)
  have hentries := hbooks.entries fun e he => ((kept_of_ran h).take hq).sequence_le he
  refine ⟨_, hentries.mem_iff.mpr (List.mem_append_left _ hmem), rfl, rfl, ?_⟩
  rw [clock_append]
  exact Nat.le_refl _

/-! ## Runs -/

/-- In every reached simulation what was decided runs, or its launch is due. -/
theorem decided_of_ran (hb : Topology.build l = .ok net.topology)
    (ha : net.applications = .ofList apps) (h : Ran net seed history s) {x : Step}
    (hx : x ∈ history) (hdec : dec ∈ x.decisions) :
    s.Serves dec.app.id dec.microservice dec.device
      ∨ s.Due history dec.app.id dec.microservice dec.device := by
  refine invariant_of_ran (P := fun history s => ∀ x ∈ history, ∀ dec ∈ x.decisions,
    s.Serves dec.app.id dec.microservice dec.device
      ∨ s.Due history dec.app.id dec.microservice dec.device) h ?create ?still ?start ?step x hx
    dec hdec
  case create => exact fun _ hx => absurd hx List.not_mem_nil
  case still =>
    intro history s s' ih hs hqueue _ x hx dec hdec
    exact (ih x hx dec hdec).imp (fun hserves => hserves.grows hs.grows)
      fun hdue => hdue.mono fun e he => hqueue ▸ he
  case start =>
    intro history s s' bookings h _ ih hbooks _ x hx dec hdec
    have hentries := hbooks.entries fun e he => (kept_of_ran h).sequence_le he
    exact (ih x hx dec hdec).imp
      (fun hserves => hserves.grows (grows_of_machines hbooks.machines))
      fun hdue => hdue.mono fun e he => hentries.mem_iff.mpr (List.mem_append_right _ he)
  case step =>
    intro history s s' key task h ih hq hp x hx dec hdec
    rcases List.mem_append.mp hx with hx | hx
    · obtain ⟨_, hran, _⟩ := h.mem hx
      obtain ⟨happ, _, hhost⟩ := launchable_of_decided hb ha hran hdec
      rcases ih x hx dec hdec with hserves | hdue
      · have htaken : (s.take key task).Serves dec.app.id dec.microservice dec.device :=
          hserves.grows (grows_of_machines rfl)
        exact Or.inl (htaken.grows (process_grows hp))
      · exact hdue.step (kept_of_ran h) (intact_of_ran hb h).arranged (by rw [happ]; rfl) hhost
          hq hp
    · rw [List.mem_singleton.mp hx] at hdec
      exact Or.inr (due_of_decided hb ha h hq hp hdec)

/-- When a message is about to be handled, everything runs that was decided. -/
theorem serves_at_arrival (hb : Topology.build l = .ok net.topology)
    (ha : net.applications = .ofList apps) (h : Ran net seed history s) {message : Message}
    (hq : s.queue.first? = some (key, .device (.messageArrived message))) {x : Step}
    (hx : x ∈ history) (hdec : dec ∈ x.decisions) :
    s.Serves dec.app.id dec.microservice dec.device :=
  (decided_of_ran hb ha h hx hdec).resolve_right fun hdue => hdue.not_first (kept_of_ran h) hq

end Simulation

end FogNet
