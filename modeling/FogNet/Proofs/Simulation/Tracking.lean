import FogNet.Proofs.Simulation.Runs

/-!
# What the orchestrators of a simulation do

On the way to a reached simulation every orchestrator makes a run of its own. What is submitted to
it are requests that the start made, one for each sensor, and so with ids of their own.

## Main statements

* `Tracked.start` — the start schedules one request for each sensor
* `Tracked.happen` — an event adds to the run of one orchestrator, or to none
* `tracked_of_reached` — the requests and the cycles of every orchestrator in a reached simulation
-/

namespace FogNet

namespace Simulation

variable {net : Network} {seed : UInt64} {s s' : Simulation} {placed : List (DeviceId × Placement)}
  {submitted : DeviceId → List Request}

/-! ## The orchestrators of a simulation -/

/-- What one orchestrator placed. -/
def placedBy (placed : List (DeviceId × Placement)) (d : DeviceId) : List Placement :=
  (placed.filter fun e => e.1 == d).map Prod.snd

theorem placedBy_append (placed more : List (DeviceId × Placement)) (d : DeviceId) :
    placedBy (placed ++ more) d = placedBy placed d ++ placedBy more d := by
  rw [placedBy, List.filter_append, List.map_append, placedBy, placedBy]

/-- Every orchestrator has come to its state by a run: what was submitted to it, what it placed. -/
structure Placing (net : Network) (submitted : DeviceId → List Request)
    (placed : List (DeviceId × Placement)) (machines : SortedMap DeviceId Machine) : Prop where
  id : ∀ d m, machines.get? d = some m → m.id = d
  run : ∀ d m o, machines.get? d = some m → m.orchestrator = some o →
    Orchestrator.Run net d (submitted d) (placedBy placed d) o
  placer : ∀ e ∈ placed, ∃ m o, machines.get? e.1 = some m ∧ m.orchestrator = some o

theorem placing_create (net : Network) (seed : UInt64) :
    Placing net (fun _ => []) [] (create net seed).machines := by
  constructor
  · intro d m hm
    obtain ⟨dev, _, rfl, rfl⟩ := machine?_create hm
    rfl
  · intro d m o hm ho
    obtain ⟨dev, _, rfl, rfl⟩ := machine?_create hm
    rw [Machine.ofDevice] at ho
    simp only at ho
    split at ho
    · rw [← Option.some.inj ho]
      exact .start
    · simp at ho
  · exact fun e he => absurd he List.not_mem_nil

/-- One machine changes, and with it what was submitted to it or placed by it. -/
theorem Placing.insert {machines : SortedMap DeviceId Machine}
    (h : Placing net submitted placed machines) {d : DeviceId} {m' : Machine} (hid : m'.id = d)
    {submitted' : DeviceId → List Request} {placed' : List (DeviceId × Placement)}
    (hrun : ∀ o, m'.orchestrator = some o →
      Orchestrator.Run net d (submitted' d) (placedBy placed' d) o)
    (hother : ∀ e, e ≠ d → submitted' e = submitted e ∧ placedBy placed' e = placedBy placed e)
    (hplacer : ∀ e ∈ placed', (e.1 = d ∧ ∃ o, m'.orchestrator = some o) ∨ (e.1 ≠ d ∧ e ∈ placed)) :
    Placing net submitted' placed' (machines.insert d m') := by
  constructor
  · intro e m hm
    rw [SortedMap.get?_insert] at hm
    split at hm
    · next he => rw [← Option.some.inj hm, hid, he]
    · exact h.id e m hm
  · intro e m o hm ho
    rw [SortedMap.get?_insert] at hm
    split at hm
    · next he =>
      rw [← Option.some.inj hm] at ho
      rw [he]
      exact hrun o ho
    · next he =>
      rw [(hother e he).1, (hother e he).2]
      exact h.run e m o hm ho
  · intro e he
    rw [SortedMap.get?_insert]
    rcases hplacer e he with ⟨hd, o, ho⟩ | ⟨hd, he⟩
    · exact ⟨m', o, by rw [if_pos hd], ho⟩
    · rw [if_neg hd]
      exact h.placer e he

/-- A machine may change in all but its orchestrator. -/
theorem Placing.insert_same {machines : SortedMap DeviceId Machine}
    (h : Placing net submitted placed machines) {d : DeviceId} {m m' : Machine}
    (hm : machines.get? d = some m) (hdev : m'.device = m.device)
    (ho : m'.orchestrator = m.orchestrator) :
    Placing net submitted placed (machines.insert d m') := by
  have hid : m'.id = d := by
    rw [Machine.id, hdev]
    exact h.id d m hm
  refine h.insert hid (fun o ho' => h.run d m o hm (ho ▸ ho')) (fun _ _ => ⟨rfl, rfl⟩) ?_
  intro e he
  by_cases hd : e.1 = d
  · obtain ⟨m₁, o, hm₁, ho₁⟩ := h.placer e he
    rw [hd, hm, Option.some.injEq] at hm₁
    exact Or.inl ⟨hd, o, by rw [ho, hm₁, ho₁]⟩
  · exact Or.inr ⟨hd, he⟩

/-! ## The requests of a simulation -/

/-- The simulation in which the request of a sensor is on its way to an orchestrator. -/
def requesting (s : Simulation) (x : Sensor) (app : Application) (d : DeviceId) : Simulation :=
  s.scheduleNow d (.device (.placementRequestSubmitted (sensorRequest x app)))

/-- What was submitted to an orchestrator and what is on its way there, with one more request. -/
theorem requests_requesting (s : Simulation) (x : Sensor) (app : Application) (root d : DeviceId)
    (earlier : List Request) :
    ∃ l, l.Perm ((if root = d then [sensorRequest x app] else [])
        ++ (earlier ++ s.queue.requestsFor d))
      ∧ (earlier ++ (requesting s x app root).queue.requestsFor d).Sublist l := by
  have hrequest : (Task.device (.placementRequestSubmitted (sensorRequest x app))).request?
      = some (sensorRequest x app) := rfl
  obtain ⟨l, hp, hsub⟩ := Queue.requestsFor_insert_request s.queue
    ⟨s.now, _, root, s.scheduled + 1⟩ hrequest d
  refine ⟨earlier ++ l, ?_, (List.Sublist.refl _).append hsub⟩
  refine (hp.append_left _).trans ?_
  rw [← List.append_assoc, ← List.append_assoc]
  exact List.perm_append_comm.append_right _

theorem mem_requesting {x : Sensor} {app : Application} {root d : DeviceId}
    {earlier : List Request} {r : Request}
    (hr : r ∈ earlier ++ (requesting s x app root).queue.requestsFor d) :
    r ∈ earlier ++ s.queue.requestsFor d ∨ (root = d ∧ r = sensorRequest x app) := by
  obtain ⟨l, hp, hsub⟩ := requests_requesting s x app root d earlier
  rcases List.mem_append.mp (hp.mem_iff.mp (hsub.subset hr)) with hr | hr
  · split at hr
    · next he => exact Or.inr ⟨he, List.mem_singleton.mp hr⟩
    · exact absurd hr List.not_mem_nil
  · exact Or.inl hr

/--
A request that the runner made: it is that of a sensor, and goes to the nearest orchestrating device
above its gateway.
-/
def Genuine (net : Network) (sensors : SortedMap SensorId Sensor) (d : DeviceId) (r : Request) :
    Prop :=
  net.topology.orchestratorFor r.gateway = some d
    ∧ ∃ x app, sensors.get? r.id = some x ∧ net.application? x.app = some app
      ∧ r = sensorRequest x app

/-- What is known of a reached simulation, given what was submitted and placed on the way to it. -/
structure Tracked (net : Network) (submitted : DeviceId → List Request)
    (placed : List (DeviceId × Placement)) (s : Simulation) : Prop where
  network : s.network = net
  placing : Placing net submitted placed s.machines
  distinct : ∀ d, ((submitted d ++ s.queue.requestsFor d).map Request.id).Nodup
  genuine : ∀ d, ∀ r ∈ submitted d ++ s.queue.requestsFor d, Genuine net s.sensors d r
  sensor : ∀ id x, s.sensors.get? id = some x → x.id = id
  /-- Requests are made at the start. -/
  idle : s.started = false → ∀ d, submitted d ++ s.queue.requestsFor d = []

namespace Tracked

theorem create (net : Network) (seed : UInt64) :
    Tracked net (fun _ => []) [] (create net seed) := by
  constructor
  · rfl
  · exact placing_create net seed
  · exact fun _ => List.nodup_nil
  · exact fun _ _ h => absurd h List.not_mem_nil
  · intro id x h
    simp [Simulation.create] at h
  · exact fun _ _ => rfl

/-- No request was submitted twice. -/
theorem nodup (h : Tracked net submitted placed s) (d : DeviceId) :
    ((submitted d).map Request.id).Nodup :=
  (h.distinct d).sublist ((List.sublist_append_left _ _).map _)

/-- What is tracked survives a quiet step. -/
theorem quiet (h : Tracked net submitted placed s) (hq : s.Quiet s') :
    Tracked net submitted placed s' := by
  have hsub : ∀ d, (submitted d ++ s'.queue.requestsFor d).Sublist
      (submitted d ++ s.queue.requestsFor d) :=
    fun d => (List.Sublist.refl _).append (hq.requests d)
  constructor
  · rw [hq.network, h.network]
  · rw [hq.machines]
    exact h.placing
  · exact fun d => (h.distinct d).sublist ((hsub d).map _)
  · rw [hq.sensors]
    exact fun d r hr => h.genuine d r ((hsub d).subset hr)
  · rw [hq.sensors]
    exact h.sensor
  · intro hs d
    have hnil := h.idle (hq.started ▸ hs) d
    exact List.sublist_nil.mp (hnil ▸ hsub d)

/-! ### Setup -/

theorem addSensor (h : Tracked net submitted placed s) {sensor : Sensor}
    (hs : s.addSensor sensor = .ok s') : Tracked net submitted placed s' := by
  obtain ⟨m, m', hplace, hreg, rfl⟩ := addSensor_ok_cases hs
  obtain ⟨hnew, hm⟩ := placeForSensor_ok_cases hplace
  obtain ⟨_, _, _, _, rfl⟩ := Machine.registerClient_ok_cases hreg
  constructor
  · exact h.network
  · exact h.placing.insert_same hm rfl rfl
  · exact h.distinct
  · intro d r hr
    obtain ⟨hfor, x, app, hx, hrequest⟩ := h.genuine d r hr
    refine ⟨hfor, x, app, ?_, hrequest⟩
    rw [SortedMap.get?_insert_ne _ _ fun he => ?_]
    · exact hx
    · rw [SortedMap.contains_eq, ← he, hx] at hnew
      simp at hnew
  · intro id x hx
    rw [SortedMap.get?_insert] at hx
    split at hx
    · next he => rw [← Option.some.inj hx, he]
    · exact h.sensor id x hx
  · exact h.idle

theorem addActuator (h : Tracked net submitted placed s) {actuator : Actuator}
    (hs : s.addActuator actuator = .ok s') : Tracked net submitted placed s' := by
  obtain ⟨_, _, m, hm, rfl⟩ := addActuator_ok_cases hs
  exact ⟨h.network, h.placing.insert_same hm rfl rfl, h.distinct, h.genuine, h.sensor, h.idle⟩

/-! ### The start -/

/-- The request of a sensor goes to the nearest orchestrator, if the sensor has made none yet. -/
theorem requesting (h : Tracked net submitted placed s) (hstarted : s.started = true)
    {x : Sensor} (hx : s.sensors.get? x.id = some x)
    (hnew : ∀ d, ∀ r ∈ submitted d ++ s.queue.requestsFor d, r.id ≠ x.id) {app : Application}
    (happ : s.network.application? x.app = some app) {root : DeviceId}
    (hroot : s.network.topology.orchestratorFor x.gateway = some root) :
    Tracked net submitted placed (Simulation.requesting s x app root) := by
  constructor
  · exact h.network
  · exact h.placing
  · intro d
    obtain ⟨l, hp, hsub⟩ := requests_requesting s x app root d (submitted d)
    refine List.Nodup.sublist (hsub.map _) ((hp.map _).nodup_iff.mpr ?_)
    split
    · rw [List.singleton_append, List.map_cons, List.nodup_cons]
      refine ⟨?_, h.distinct d⟩
      intro hid
      obtain ⟨r, hr, he⟩ := List.mem_map.mp hid
      exact hnew d r hr he
    · exact h.distinct d
  · intro d r hr
    rcases mem_requesting hr with hr | ⟨rfl, rfl⟩
    · exact h.genuine d r hr
    · exact ⟨h.network ▸ hroot, x, app, hx, h.network ▸ happ, rfl⟩
  · exact h.sensor
  · intro hs
    have hstart : s.started = false := hs
    rw [hstarted] at hstart
    exact absurd hstart (by simp)

/-- At the start a sensor makes its request, unless it has no application or no orchestrator. -/
theorem startSensor (h : Tracked net submitted placed s) (hstarted : s.started = true)
    {x : Sensor} (hx : s.sensors.get? x.id = some x)
    (hnew : ∀ d, ∀ r ∈ submitted d ++ s.queue.requestsFor d, r.id ≠ x.id)
    (hs : s.startSensor x = .ok s') :
    Tracked net submitted placed s' ∧ s'.started = true ∧ s'.sensors = s.sensors
      ∧ ∀ d, ∀ r ∈ submitted d ++ s'.queue.requestsFor d,
          r ∈ submitted d ++ s.queue.requestsFor d ∨ r.id = x.id := by
  unfold Simulation.startSensor at hs
  split at hs
  · rw [← Except.ok.inj hs]
    exact ⟨h, hstarted, rfl, fun _ _ hr => Or.inl hr⟩
  · next app happ =>
    simp only at hs
    split at hs
    · have hq := scheduleAfter_quiet rfl hs
      refine ⟨h.quiet hq, hq.started.trans hstarted, hq.sensors, ?_⟩
      intro d r hr
      exact Or.inl (((List.Sublist.refl _).append (hq.requests d)).subset hr)
    · next root hroot =>
      have hq : (Simulation.requesting s x app root).Quiet s' := scheduleAfter_quiet rfl hs
      have ht := h.requesting hstarted hx hnew happ hroot
      refine ⟨ht.quiet hq, hq.started.trans hstarted, hq.sensors, ?_⟩
      intro d r hr
      have hmem := ((List.Sublist.refl (submitted d)).append (hq.requests d)).subset hr
      rcases mem_requesting hmem with hr | ⟨_, rfl⟩
      · exact Or.inl hr
      · exact Or.inr rfl

theorem foldlM_startSensor : ∀ {sensors : List Sensor} {s : Simulation},
    Tracked net submitted placed s → s.started = true →
      (∀ x ∈ sensors, s.sensors.get? x.id = some x) → (sensors.map Sensor.id).Nodup →
      (∀ d, ∀ r ∈ submitted d ++ s.queue.requestsFor d, r.id ∉ sensors.map Sensor.id) →
      sensors.foldlM Simulation.startSensor s = .ok s' → Tracked net submitted placed s'
  | [], s, h, _, _, _, _, hs => by
    rw [← Except.ok.inj hs]
    exact h
  | x :: sensors, s, h, hstarted, hx, hn, hnew, hs => by
    rw [List.foldlM_cons] at hs
    rw [List.map_cons, List.nodup_cons] at hn
    cases hm : s.startSensor x with
    | error e => rw [hm] at hs; exact absurd hs (by simp [bind, Except.bind])
    | ok s₁ =>
      rw [hm] at hs
      obtain ⟨h₁, hstarted₁, hsensors, hreq⟩ := h.startSensor hstarted (hx x List.mem_cons_self)
        (fun d r hr he => hnew d r hr (he ▸ List.mem_cons_self)) hm
      refine foldlM_startSensor h₁ hstarted₁ ?_ hn.2 ?_ hs
      · intro y hy
        rw [hsensors]
        exact hx y (List.mem_cons_of_mem _ hy)
      · intro d r hr hid
        rcases hreq d r hr with hr | he
        · exact hnew d r hr (List.mem_cons_of_mem _ hid)
        · exact hn.1 (he ▸ hid)

theorem start (h : Tracked net submitted placed s) (hs : s.start = .ok s') :
    Tracked net submitted placed s' := by
  unfold Simulation.start at hs
  split at hs
  · rw [← Except.ok.inj hs]
    exact h
  · next hnot =>
    have hidle := h.idle (by simpa using hnot)
    have h₀ : Tracked net submitted placed { s with started := true } :=
      ⟨h.network, h.placing, h.distinct, h.genuine, h.sensor, fun hf => by simp at hf⟩
    simp only at hs
    cases hm : List.foldlM Simulation.startMachine { s with started := true } s.machines.values with
    | error e => rw [hm] at hs; exact absurd hs (by simp [bind, Except.bind])
    | ok s₁ =>
      rw [hm] at hs
      have hq := foldlM_startMachine_quiet hm
      have hnone : ∀ d, submitted d ++ s₁.queue.requestsFor d = [] := fun d =>
        List.sublist_nil.mp (hidle d ▸ (List.Sublist.refl _).append (hq.requests d))
      have hvalue : ∀ x ∈ s₁.sensors.values, s₁.sensors.get? x.id = some x := by
        intro x hx
        obtain ⟨⟨id, x⟩, he, rfl⟩ := List.mem_map.mp hx
        have hget := (s₁.sensors.mem_entries_iff id x).mp he
        rw [(h₀.quiet hq).sensor id x hget]
        exact hget
      refine foldlM_startSensor (h₀.quiet hq) hq.started hvalue ?_ ?_ hs
      · have hkeys : s₁.sensors.values.map Sensor.id = s₁.sensors.keys := by
          rw [SortedMap.values, SortedMap.keys, List.map_map]
          refine List.map_congr_left ?_
          intro e he
          exact (h₀.quiet hq).sensor e.1 e.2 ((s₁.sensors.mem_entries_iff _ _).mp he)
        rw [hkeys]
        exact s₁.sensors.keys_nodup
      · intro d r hr
        rw [hnone d] at hr
        exact absurd hr List.not_mem_nil

/-! ### Steps -/

/-- A cycle: the run of this orchestrator gets one more placement. -/
theorem cycle (h : Tracked net submitted placed s) {d : DeviceId} {m m' : Machine}
    (hm : s.machines.get? d = some m) (hdev : m'.device = m.device) {o o' : Orchestrator}
    {actions : List Action} (ho : m.orchestrator = some o)
    (htick : (o.tick net d).value = some (actions, o')) (ho' : m'.orchestrator = some o')
    (log : List Metric) :
    Tracked net submitted (placed ++ [(d, (o.attempt net d).placement)])
      { s with machines := s.machines.insert d m', log } := by
  refine ⟨h.network, ?_, h.distinct, h.genuine, h.sensor, h.idle⟩
  have hid : m'.id = d := by
    rw [Machine.id, hdev]
    exact h.placing.id d m hm
  refine h.placing.insert hid ?_ ?_ ?_
  · intro o₁ ho₁
    have hthis : placedBy [(d, (o.attempt net d).placement)] d = [(o.attempt net d).placement] := by
      simp [placedBy]
    rw [ho', Option.some.injEq] at ho₁
    rw [← ho₁, placedBy_append, hthis]
    exact (h.placing.run d m o hm ho).tick htick
  · intro e he
    have hother : placedBy [(d, (o.attempt net d).placement)] e = [] := by
      simp [placedBy, Ne.symm he]
    rw [placedBy_append, hother, List.append_nil]
    exact ⟨rfl, rfl⟩
  · intro e he
    by_cases hd : e.1 = d
    · exact Or.inl ⟨hd, o', ho'⟩
    · refine Or.inr ⟨hd, ?_⟩
      rcases List.mem_append.mp he with he | he
      · exact he
      · exact absurd (by rw [List.mem_singleton.mp he]) hd

/-- A submission: the request is no longer on its way. -/
theorem submission (h : Tracked net submitted placed s) {key : Key} {event : Event} {r : Request}
    (hq : s.queue.first? = some (key, .device event)) (hr : event.request? = some r)
    {m m' : Machine} (hm : s.machines.get? key.device = some m) (hdev : m'.device = m.device)
    (ho : m'.orchestrator = m.orchestrator.map fun o => o.submit r) (log : List Metric) :
    Tracked net (fun d => if d = key.device then submitted d ++ [r] else submitted d) placed
      { s.take key (.device event) with machines := s.machines.insert key.device m', log } := by
  have hmove : ∀ d, (if d = key.device then submitted d ++ [r] else submitted d)
      ++ (s.take key (.device event)).queue.requestsFor d
        = submitted d ++ s.queue.requestsFor d := by
    intro d
    rw [Queue.requestsFor_of_first hq, Task.request?, hr, Option.toList_some]
    by_cases hd : d = key.device
    · rw [if_pos hd, if_pos hd.symm, List.append_assoc]
      rfl
    · rw [if_neg hd, if_neg (Ne.symm hd)]
      rfl
  have hid : m'.id = key.device := by
    rw [Machine.id, hdev]
    exact h.placing.id _ m hm
  constructor
  · exact h.network
  · refine h.placing.insert hid ?_ (fun e he => ⟨if_neg he, rfl⟩) ?_
    · intro o₁ ho₁
      rw [ho] at ho₁
      obtain ⟨o, ho, rfl⟩ := Option.map_eq_some_iff.mp ho₁
      rw [if_pos rfl]
      exact (h.placing.run _ m o hm ho).submit r
    · intro e he
      by_cases hd : e.1 = key.device
      · obtain ⟨m₁, o, hm₁, ho₁⟩ := h.placing.placer e he
        rw [hd, hm, Option.some.injEq] at hm₁
        refine Or.inl ⟨hd, o.submit r, ?_⟩
        rw [ho]
        exact Option.map_eq_some_iff.mpr ⟨o, hm₁ ▸ ho₁, rfl⟩
      · exact Or.inr ⟨hd, he⟩
  · intro d
    exact hmove d ▸ h.distinct d
  · intro d
    exact hmove d ▸ h.genuine d
  · exact h.sensor
  · intro hs d
    exact (hmove d).trans (h.idle hs d)

/-- An event reaches a machine: its orchestrator goes on with its run, and others keep theirs. -/
theorem happen (h : Tracked net submitted placed s) {key : Key} {event : Event}
    (hq : s.queue.first? = some (key, .device event))
    (hs : (s.take key (.device event)).happen key.device event = .ok s') :
    ∃ submitted', Tracked net submitted' (placed ++ s.decided key (.device event)) s' := by
  obtain rfl := h.network
  have htaken := h.quiet (take_quiet hq)
  rcases happen_ok_cases hs with ⟨hm, rfl⟩ | ⟨m, actions, m', log, hm, hvalue, hquiet⟩
  · have hbind : (s.machine? key.device).bind Machine.orchestrator = none := by
      rw [show s.machine? key.device = none from hm, Option.bind_none]
    rw [decided_of_none hbind, List.append_nil]
    exact ⟨submitted, htaken⟩
  · have hget : s.machines.get? key.device = some m := hm
    have hdev : m'.device = m.device :=
      Machine.handle_device (m := { m with now := key.time }) hvalue
    have hid : ({ m with now := key.time } : Machine).id = key.device := h.placing.id _ m hget
    rcases Machine.handle_orchestrator (m := { m with now := key.time }) hvalue with
      ⟨o, o', _, rfl, ho, htick, ho'⟩ | ⟨r, hr, ho'⟩ | ⟨_, ho', htimer⟩
    · have hdecided : s.decided key (.device .placementTimer)
          = [(key.device, (o.attempt s.network key.device).placement)] := by
        have hbind : (s.machine? key.device).bind Machine.orchestrator = some o := by
          rw [machine?, hget, Option.bind_some]
          exact ho
        rw [decided, hbind]
      rw [hid] at htick
      rw [hdecided]
      exact ⟨submitted, (htaken.cycle hget hdev ho htick ho' log).quiet hquiet⟩
    · have hne : Task.device event ≠ .device .placementTimer := by
        rintro ⟨⟩
        simp [Event.request?] at hr
      rw [decided_of_ne hne, List.append_nil]
      exact ⟨_, (h.submission hq hr hget hdev ho' log).quiet hquiet⟩
    · have hdecided : s.decided key (.device event) = [] := by
        by_cases he : event = .placementTimer
        · refine decided_of_none ?_
          rw [machine?, hget, Option.bind_some]
          exact htimer he
        · exact decided_of_ne fun ht => he (Task.device.inj ht)
      have hstored : Tracked s.network submitted placed
          { s.take key (.device event) with machines := s.machines.insert key.device m', log } :=
        ⟨rfl, h.placing.insert_same hget hdev ho', htaken.distinct, htaken.genuine, htaken.sensor,
          htaken.idle⟩
      rw [hdecided, List.append_nil]
      exact ⟨submitted, hstored.quiet hquiet⟩

theorem step (h : Tracked net submitted placed s) {key : Key} {task : Task}
    (hq : s.queue.first? = some (key, task))
    (hs : (s.take key task).process key task = .ok s') :
    ∃ submitted', Tracked net submitted' (placed ++ s.decided key task) s' := by
  have htaken := h.quiet (take_quiet hq)
  cases task with
  | device event => exact h.happen hq hs
  | sensorTick sensor =>
    rw [decided_of_ne (by simp), List.append_nil]
    exact ⟨submitted, htaken.quiet (tick_quiet hs)⟩
  | executionCompleted target message =>
    rw [decided_of_ne (by simp), List.append_nil]
    rw [process, Except.ok.injEq] at hs
    exact ⟨submitted, htaken.quiet (hs ▸ complete_quiet _ target message)⟩

end Tracked

/-- In a reached simulation every orchestrator has come to its state by a run of its requests. -/
theorem tracked_of_reached (h : Reached net seed placed s) :
    ∃ submitted, Tracked net submitted placed s := by
  induction h with
  | create => exact ⟨_, Tracked.create net seed⟩
  | sensor _ hs ih => exact ih.imp fun _ ht => ht.addSensor hs
  | actuator _ hs ih => exact ih.imp fun _ ht => ht.addActuator hs
  | start _ hs ih => exact ih.imp fun _ ht => ht.start hs
  | step _ hq hs ih =>
    obtain ⟨submitted, ht⟩ := ih
    exact ht.step hq hs
  | settle stop _ ih => exact ih.imp fun _ ht => ht.quiet (settle_quiet _ stop)

end Simulation

end FogNet
