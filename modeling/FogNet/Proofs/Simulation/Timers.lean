import FogNet.Proofs.Machine.Announcements
import FogNet.Proofs.Simulation.Instances
import FogNet.Proofs.Simulation.Links

/-!
# Timers

What repeats itself in a simulation is in the queue at any time: the next cycle of every device that
orchestrates, the next emission of every sensor that was there at the start, and the end of every
transmission. Such a task schedules the one that follows it and nothing else does, so no timer is
lost and none comes twice.

## Main statements

* `cycles_of_effect` — only a cycle waits for a cycle
* `timed_of_start`, `Timed.step` — the start sets the timers, and a step keeps them
* `timers_in_order` — one timer for every orchestrator, sensor and transmission
-/

namespace FogNet

open List (Perm)

/-! ## Cycles of a device -/

/-- Whether an event is a placement cycle. -/
def Event.isCycle : Event → Bool
  | .placementTimer => true
  | _ => false

/-- Whether an action waits for the next placement cycle. -/
def Action.isCycle : Action → Bool
  | .setTimer .placementCycle _ => true
  | _ => false

theorem Event.isCycle_of_isInternal {e : Event} (h : e.isInternal = true) : e.isCycle = false := by
  cases e <;> first | rfl | exact absurd h Bool.false_ne_true

namespace Machine

variable {net : Network} {m m' : Machine} {e : Event} {actions : List Action}

theorem isCycle_of_dispatched {message : Message} {o : Outbound}
    (h : m.Dispatched net message actions o) : ∀ a ∈ actions, a.isCycle = false := by
  intro a ha
  cases h with
  | delivered targets _ =>
    obtain ⟨_, _, rfl⟩ := List.mem_map.mp ha
    rfl
  | sent _ _ _ _ _ hsend =>
    rcases Outbound.send_cases hsend with ⟨rfl, _⟩ | ⟨_, rfl, _⟩
    · cases ha
    · rcases List.mem_pair.mp ha with rfl | rfl <;> rfl
  | _ =>
    rw [List.mem_singleton.mp ha]
    rfl

/-- Only a device that orchestrates waits for a cycle, and it does so in every cycle. -/
theorem cycles_of_effect (h : m.Effect net e actions m') : actions.filter Action.isCycle
    = if e.isCycle && m.orchestrator.isSome then [Orchestrator.nextCycle net] else [] := by
  have hnone (hactions : ∀ a ∈ actions, a.isCycle = false) : actions.filter Action.isCycle = [] :=
    List.filter_eq_nil_iff.mpr fun a ha => by simp [hactions a ha]
  cases h with
  | passed ho => simp [ho]
  | @cycle o _ _ ho ht =>
    have hdeploy (decisions : List Decision) :
        (Orchestrator.deploy net decisions).filter Action.isCycle = [] := by
      refine List.filter_eq_nil_iff.mpr fun a ha => ?_
      obtain ⟨_, _, rfl, _⟩ := Orchestrator.deploy_actions ha
      exact Bool.false_ne_true
    rw [ho]
    rcases Orchestrator.actions_of_tick ht with ⟨_, rfl⟩ | rfl
    · rfl
    · rw [List.filter_append, hdeploy]
      rfl
  | freed ho =>
    refine hnone ?_
    rcases Outbound.freed_cases ho with ⟨rfl, _⟩ | ⟨_, _, rfl, _⟩ <;> simp [Action.isCycle]
  | received hcounted hrest =>
    refine hnone (List.forall_mem_append.mpr ⟨fun a ha => ?_, isCycle_of_dispatched hrest⟩)
    rw [hcounted a ha]
    rfl
  | _ => rfl

/-- A device that orchestrates goes on doing so, and no other begins to. -/
theorem orchestrates_of_effect (h : m.Effect net e actions m') :
    m'.orchestrator.isSome = m.orchestrator.isSome := by
  cases h with
  | cycle ho _ =>
    rw [ho]
    rfl
  | submitted r => simp [submit]
  | _ => rfl

/-- A device that orchestrates starts with one cycle. -/
theorem cycles_of_start (m : Machine) : m.start.filter Action.isCycle
    = if m.orchestrator.isSome then [.setTimer .placementCycle 0] else [] := by
  have hclients : (if m.role = .client then m.deployment.pendingClients.entries.flatMap fun c =>
      (clientEvents c.1 c.2).map Action.enqueueInternal else []).filter Action.isCycle = [] := by
    refine List.filter_eq_nil_iff.mpr fun a ha => ?_
    split at ha
    · obtain ⟨c, _, hc⟩ := List.mem_flatMap.mp ha
      obtain ⟨_, _, rfl⟩ := List.mem_map.mp hc
      exact Bool.false_ne_true
    · cases ha
  rw [start, List.filter_append, hclients, List.append_nil]
  split <;> rfl

end Machine

/-! ## Timers in the queue -/

namespace Queue

variable {q : Queue} {key : Key} {task : Task}

/-- The device whose placement cycle is to come, by an entry. -/
def cycle? (e : Key × Task) : Option DeviceId :=
  match e.2 with
  | .device event => if event.isCycle then some e.1.device else none
  | _ => none

/-- The devices whose placement cycles are to come. -/
def cycles (q : Queue) : List DeviceId := q.entries.filterMap cycle?

/-- The sensor that will emit, and the device where, by an entry. -/
def interval? (e : Key × Task) : Option (SensorId × DeviceId) :=
  match e.2 with
  | .sensorTick id => some (id, e.1.device)
  | _ => none

/-- The sensors that will emit, each with the device where. -/
def intervals (q : Queue) : List (SensorId × DeviceId) := q.entries.filterMap interval?

theorem cycles_of_first (h : q.first? = some (key, task)) :
    q.cycles = (cycle? (key, task)).toList ++ cycles q.dropFirst := by
  rw [cycles, entries_of_first h, List.filterMap_cons]
  cases cycle? (key, task) <;> rfl

theorem intervals_of_first (h : q.first? = some (key, task)) :
    q.intervals = (interval? (key, task)).toList ++ intervals q.dropFirst := by
  rw [intervals, entries_of_first h, List.filterMap_cons]
  cases interval? (key, task) <;> rfl

end Queue

namespace Simulation

variable {net : Network} {seed : UInt64} {s s' : Simulation} {l : Layout} {history : List Step}
  {bookings : List Booking} {key : Key} {task : Task}

theorem Books.cycles (h : s.Books s' bookings)
    (hn : ∀ e ∈ s.queue.entries, e.1.sequence ≤ s.scheduled) : s'.queue.cycles.Perm
      ((bookings.filterMap fun b => Queue.cycle? (b.key 0, b.task)) ++ s.queue.cycles) :=
  h.filterMap_entries hn fun _ _ => rfl

theorem Books.intervals (h : s.Books s' bookings)
    (hn : ∀ e ∈ s.queue.entries, e.1.sequence ≤ s.scheduled) : s'.queue.intervals.Perm
      ((bookings.filterMap fun b => Queue.interval? (b.key 0, b.task)) ++ s.queue.intervals) :=
  h.filterMap_entries hn fun _ _ => rfl

theorem cycle?_booking? (s : Simulation) (device : DeviceId) {a : Action} (ha : a.LetsInternal) :
    (s.booking? device a).bind (fun b => Queue.cycle? (b.key 0, b.task))
      = if a.isCycle then some device else none := by
  cases a with
  | setTimer timer duration => cases timer <;> rfl
  | deliver target event =>
    rw [booking?]
    split
    · simp [Queue.cycle?, Event.isCycle_of_isInternal ha, Action.isCycle]
    · rfl
  | enqueueInternal event =>
    simp [booking?, Queue.cycle?, Event.isCycle_of_isInternal ha, Action.isCycle]
  | execute target message =>
    cases h : s.executionTime message <;> simp [booking?, h, Queue.cycle?, Action.isCycle]
  | _ => rfl

/-- The cycles that the actions of a device schedule are its own. -/
theorem cycles_booking? (s : Simulation) (device : DeviceId) {actions : List Action}
    (ha : ∀ a ∈ actions, a.LetsInternal) :
    ((actions.filterMap (s.booking? device)).filterMap fun b => Queue.cycle? (b.key 0, b.task))
      = (actions.filter Action.isCycle).map fun _ => device := by
  rw [List.filterMap_filterMap, List.filterMap_congr fun a h => cycle?_booking? s device (ha a h),
    ← List.filterMap_eq_map, List.filterMap_filter]
  rfl

/-- Devices do not schedule the emissions of sensors. -/
theorem intervals_booking? (s : Simulation) (device : DeviceId) (actions : List Action) :
    ((actions.filterMap (s.booking? device)).filterMap fun b =>
      Queue.interval? (b.key 0, b.task)) = [] := by
  refine List.filterMap_eq_nil_iff.mpr fun b hb => ?_
  obtain ⟨a, _, hb⟩ := List.mem_filterMap.mp hb
  cases booked_of_booking? hb <;> rfl

/-! ## What repeats itself -/

/--
The timers of a simulation that has started: cycles of devices that orchestrate, and emissions of
sensors with registered applications.
-/
structure Timed (s : Simulation) (orchestrators : List DeviceId)
    (emitters : List (SensorId × DeviceId)) : Prop where
  started : s.started = true
  cycles : s.queue.cycles.Perm orchestrators
  intervals : s.queue.intervals.Perm emitters
  orchestrated : ∀ d ∈ orchestrators, ∃ m, s.machine? d = some m ∧ m.orchestrator.isSome = true
  attached : ∀ p ∈ emitters, ∃ x app, s.sensors.get? p.1 = some x ∧ x.gateway = p.2
    ∧ s.network.application? x.app = some app

namespace Timed

variable {orchestrators : List DeviceId} {emitters : List (SensorId × DeviceId)}

/-- Tasks come to a queue from which one was taken, in the place of its timer. -/
theorem books (h : s.Timed orchestrators emitters) (hk : s.Kept history)
    (hq : s.queue.first? = some (key, task)) {machines : SortedMap DeviceId Machine}
    (hb : Books { s.take key task with machines } s' bookings)
    (hcycles : (bookings.filterMap fun b => Queue.cycle? (b.key 0, b.task))
      = (Queue.cycle? (key, task)).toList)
    (hintervals : (bookings.filterMap fun b => Queue.interval? (b.key 0, b.task))
      = (Queue.interval? (key, task)).toList)
    (horchestrated : ∀ d m, s.machine? d = some m →
      ∃ m', machines.get? d = some m' ∧ m'.orchestrator.isSome = m.orchestrator.isSome) :
    s'.Timed orchestrators emitters := by
  have hn : ∀ e ∈ (s.take key task).queue.entries, e.1.sequence ≤ s.scheduled :=
    fun e he => (hk.take hq).sequence_le he
  constructor
  · rw [hb.started]
    exact h.started
  · refine Perm.trans ?_ h.cycles
    rw [Queue.cycles_of_first hq, ← hcycles]
    exact hb.cycles hn
  · refine Perm.trans ?_ h.intervals
    rw [Queue.intervals_of_first hq, ← hintervals]
    exact hb.intervals hn
  · intro d hd
    obtain ⟨m, hm, ho⟩ := h.orchestrated d hd
    obtain ⟨m', hm', ho'⟩ := horchestrated d m hm
    exact ⟨m', by rw [machine?, hb.machines]; exact hm', ho'.trans ho⟩
  · rw [hb.sensors, hb.network]
    exact h.attached

/-- A sensor tick is the end of an interval, and begins the next. -/
theorem tick (h : s.Timed orchestrators emitters) (hk : s.Kept history) {id : SensorId}
    (hq : s.queue.first? = some (key, .sensorTick id))
    (hp : (s.take key (.sensorTick id)).tick id = .ok s') : s'.Timed orchestrators emitters := by
  have hmem : (id, key.device) ∈ emitters := by
    refine h.intervals.mem_iff.mp ?_
    rw [Queue.intervals_of_first hq]
    exact List.mem_cons_self
  obtain ⟨x, app, hx, hgateway, happ⟩ := h.attached _ hmem
  have hemissions := tick_emits (s := s.take key (.sensorTick id)) hx happ hp
  refine h.books hk hq hemissions ?_ ?_ fun d m hm => ⟨m, hm, rfl⟩
  · unfold emissions
    cases app.sensorMessage? x.tupleType ((s.take key (.sensorTick id)).lastMessage + 1)
      (s.take key (.sensorTick id)).now <;> rfl
  · have hinterval : [(id, x.gateway)] = [(id, key.device)] := by rw [hgateway]
    unfold emissions
    cases app.sensorMessage? x.tupleType ((s.take key (.sensorTick id)).lastMessage + 1)
      (s.take key (.sensorTick id)).now <;> exact hinterval

/-- An event that is no cycle schedules none, and a cycle schedules the next one. -/
theorem happen (h : s.Timed orchestrators emitters) (hk : s.Kept history) {event : Event}
    (hq : s.queue.first? = some (key, .device event))
    (hp : (s.take key (.device event)).happen key.device event = .ok s') :
    s'.Timed orchestrators emitters := by
  -- A cycle is that of a device that orchestrates.
  have hcycle (hevent : event.isCycle = true) :
      ∃ m, s.machine? key.device = some m ∧ m.orchestrator.isSome = true := by
    refine h.orchestrated _ (h.cycles.mem_iff.mp ?_)
    rw [Queue.cycles_of_first hq]
    simp [Queue.cycle?, hevent]
  rcases happen_books hp with ⟨hm, rfl⟩ | ⟨m, actions, m', hm, hv, hbooks⟩
  · have hevent : event.isCycle = false := by
      rw [← Bool.not_eq_true]
      intro hevent
      obtain ⟨m, hm', _⟩ := hcycle hevent
      have hm : s.machine? key.device = none := hm
      rw [hm] at hm'
      cases hm'
    refine h.books hk hq (.refl _) ?_ rfl fun d m hm => ⟨m, hm, rfl⟩
    simp [Queue.cycle?, hevent]
  · have hm : s.machine? key.device = some m := hm
    have heffect := Machine.effect_of_handle hv
    refine h.books hk hq hbooks ?_ (intervals_booking? _ _ _) fun d m₁ hm₁ => ?_
    · rw [cycles_booking? _ _ (Machine.internal_of_effect heffect),
        Machine.cycles_of_effect heffect]
      cases hevent : event.isCycle with
      | false => simp [Queue.cycle?, hevent]
      | true =>
        obtain ⟨m₁, hm₁, ho⟩ := hcycle hevent
        obtain rfl := Option.some.inj (hm.symm.trans hm₁)
        simp [Queue.cycle?, hevent, ho]
    · have hget := SortedMap.get?_insert s.machines key.device d m'
      split at hget
      · next hd =>
        rw [hd, hm] at hm₁
        rw [← Option.some.inj hm₁]
        have ho := Machine.orchestrates_of_effect heffect
        exact ⟨m', hget, ho⟩
      · exact ⟨m₁, hget.trans hm₁, rfl⟩

/-- A step keeps the timers. -/
theorem step (h : s.Timed orchestrators emitters) (hk : s.Kept history)
    (hq : s.queue.first? = some (key, task))
    (hp : (s.take key task).process key task = .ok s') : s'.Timed orchestrators emitters := by
  cases task with
  | sensorTick id => exact h.tick hk hq hp
  | executionCompleted target message =>
    rw [← Except.ok.inj hp]
    refine h.books hk hq (complete_books _ target message) ?_ ?_ fun d m hm => ⟨m, hm, rfl⟩
    all_goals
      refine List.filterMap_eq_nil_iff.mpr fun b hb => ?_
      obtain ⟨_, _, rfl⟩ := List.mem_map.mp hb
      rfl
  | device event => exact h.happen hk hq hp

end Timed

/-! ## Setup and start -/

/-- Every sensor of a reached simulation has its own number and a registered application. -/
theorem sensors_of_ran (h : Ran net seed history s) {id : SensorId} {x : Sensor}
    (hx : s.sensors.get? id = some x) :
    x.id = id ∧ ∃ app, s.network.application? x.app = some app := by
  have hsame {s s' : Simulation} (h : s.SameSetup s') {x : Sensor}
      (hs : x.id = id ∧ ∃ app, s.network.application? x.app = some app) :
      x.id = id ∧ ∃ app, s'.network.application? x.app = some app := h.1 ▸ hs
  induction h with
  | create =>
    rw [create, SortedMap.get?_empty] at hx
    cases hx
  | sensor _ hs ih =>
    obtain ⟨m, m', _, hregister, rfl⟩ := addSensor_ok_cases hs
    obtain ⟨app, _, happ, _, _⟩ := Machine.registerClient_ok_cases hregister
    rw [SortedMap.get?_insert] at hx
    split at hx
    · next hid =>
      rw [← Option.some.inj hx]
      exact ⟨hid.symm, app, happ⟩
    · exact ih hx
  | actuator _ hs ih =>
    obtain ⟨_, _, m, hm, rfl⟩ := addActuator_ok_cases hs
    exact ih hx
  | start _ hs ih =>
    have hsetup := start_sameSetup hs
    exact hsame hsetup (ih (hsetup.2 ▸ hx))
  | step _ _ hp ih =>
    have hsetup := process_sameSetup hp
    exact hsame hsetup (ih (hsetup.2 ▸ hx))
  | settle stop _ ih => exact ih hx

/-- A simulation before its start: nothing is scheduled, and machines orchestrate as devices do. -/
structure Fresh (net : Network) (s : Simulation) : Prop where
  queue : s.queue.entries = []
  orchestrates : ∀ d m, s.machine? d = some m →
    m.orchestrator.isSome = (net.device? d).any fun dev => dev.role.orchestrates

theorem Fresh.still (h : s.Fresh net) (hs : s.Still s') : s'.Fresh net where
  queue := List.eq_nil_iff_forall_not_mem.mpr fun e he =>
    List.not_mem_nil (h.queue ▸ hs.queue e he)
  orchestrates d m' hm' := by
    obtain ⟨m, hm, _, _, ho⟩ := hs.machine d m' hm'
    rw [ho]
    exact h.orchestrates d m hm

theorem fresh_of_ran (hf : net.topology.toLayout.Forest) (h : Ran net seed history s)
    (hfresh : s.started = false) : s.Fresh net := by
  induction h with
  | create =>
    refine ⟨rfl, fun d m hm => ?_⟩
    obtain ⟨dev, hdev, rfl, rfl⟩ := machine?_create hm
    have hdevice : net.device? dev.id = some dev := hf.device?_eq hdev
    rw [hdevice, Option.any_some, Machine.ofDevice]
    cases dev.role.orchestrates <;> rfl
  | sensor _ hs ih =>
    have hstill := addSensor_still hs
    obtain ⟨_, _, _, _, rfl⟩ := addSensor_ok_cases hs
    exact (ih hfresh).still hstill
  | actuator _ hs ih =>
    have hstill := addActuator_still hs
    obtain ⟨_, _, _, _, rfl⟩ := addActuator_ok_cases hs
    exact (ih hfresh).still hstill
  | start _ hs _ =>
    rcases start_opens hs with ⟨hstarted, rfl⟩ | ⟨_, hbooks⟩
    · rw [hstarted] at hfresh
      cases hfresh
    · rw [hbooks.started] at hfresh
      cases hfresh
  | step _ hq hp ih =>
    -- Without a start there is no step.
    obtain ⟨_, _, hbooks⟩ := process_books hp
    have hmem := Queue.mem_of_first hq
    rw [(ih (hbooks.started.symm.trans hfresh)).queue] at hmem
    cases hmem
  | settle stop _ ih => exact (ih hfresh).still (still_of_machines (fun _ he => he) rfl)

/-- The devices with an orchestrator. -/
def orchestrating (s : Simulation) : List DeviceId :=
  (s.machines.entries.filter fun e => e.2.orchestrator.isSome).map Prod.fst

/-- The sensors, each with its gateway. -/
def emitting (s : Simulation) : List (SensorId × DeviceId) :=
  s.sensors.entries.map fun e => (e.1, e.2.gateway)

theorem mem_orchestrating {d : DeviceId} :
    d ∈ s.orchestrating ↔ ∃ m, s.machine? d = some m ∧ m.orchestrator.isSome = true := by
  simp only [orchestrating, List.mem_map, List.mem_filter, Prod.exists, exists_and_right,
    exists_eq_right, SortedMap.mem_entries_iff, machine?]

/-- Machines open with the cycles of those that orchestrate. -/
theorem cycles_machines (hid : ∀ d m, s.machine? d = some m → m.id = d) :
    ((s.machines.values.flatMap s.machineOpening).filterMap fun b =>
      Queue.cycle? (b.key 0, b.task)) = s.orchestrating := by
  have hone (m : Machine) : ((s.machineOpening m).filterMap fun b =>
      Queue.cycle? (b.key 0, b.task)) = if m.orchestrator.isSome then [m.id] else [] := by
    rw [machineOpening, cycles_booking? _ _ Machine.internal_of_start, Machine.cycles_of_start]
    split <;> rfl
  have hall : ∀ l : List (DeviceId × Machine), (∀ e ∈ l, e.2.id = e.1) →
      ((l.map Prod.snd).flatMap fun m => if m.orchestrator.isSome then [m.id] else [])
        = (l.filter fun e => e.2.orchestrator.isSome).map Prod.fst := by
    intro l
    induction l with
    | nil => exact fun _ => rfl
    | cons e l ih =>
      intro hl
      rw [List.map_cons, List.flatMap_cons, ih fun e he => hl e (List.mem_cons_of_mem _ he),
        List.filter_cons, hl e List.mem_cons_self]
      cases e.2.orchestrator.isSome <;> rfl
  rw [List.filterMap_flatMap, List.flatMap_congr fun m _ => hone m]
  exact hall _ fun e he => hid e.1 e.2 ((SortedMap.mem_entries_iff _ _ _).mp he)

/-- Sensors open with their first intervals. -/
theorem intervals_sensors (hsensors : ∀ id x, s.sensors.get? id = some x →
      x.id = id ∧ ∃ app, s.network.application? x.app = some app) :
    ((s.sensors.values.flatMap s.sensorOpening).filterMap fun b =>
      Queue.interval? (b.key 0, b.task)) = s.emitting := by
  rw [List.filterMap_flatMap, SortedMap.values, List.flatMap_map, emitting, List.map_eq_flatMap]
  refine List.flatMap_congr fun e he => ?_
  obtain ⟨hid, app, happ⟩ := hsensors e.1 e.2 ((SortedMap.mem_entries_iff _ _ _).mp he)
  rw [sensorOpening, happ, ← hid]
  cases s.network.topology.orchestratorFor e.2.gateway <;> rfl

/-- The start sets the timers. -/
theorem timed_of_start (hb : Topology.build l = .ok net.topology) (h : Ran net seed history s)
    (hfresh : s.started = false) (hstart : s.start = .ok s') :
    s'.Timed s.orchestrating s.emitting := by
  have hempty := (fresh_of_ran (Layout.forest_of_build hb) h hfresh).queue
  have hsensors (id : SensorId) (x : Sensor) (hx : s.sensors.get? id = some x) :=
    sensors_of_ran h hx
  rcases start_opens hstart with ⟨hstarted, _⟩ | ⟨_, hbooks⟩
  · rw [hstarted] at hfresh
    cases hfresh
  have hn : ∀ e ∈ s.queue.entries, e.1.sequence ≤ s.scheduled := by simp [hempty]
  constructor
  · exact hbooks.started
  · have hnone : ((s.sensors.values.flatMap s.sensorOpening).filterMap fun b =>
        Queue.cycle? (b.key 0, b.task)) = [] := by
      refine List.filterMap_eq_nil_iff.mpr fun b hb => ?_
      obtain ⟨x, _, hb⟩ := List.mem_flatMap.mp hb
      unfold sensorOpening at hb
      split at hb
      · cases hb
      · rcases List.mem_append.mp hb with hb | hb
        · obtain ⟨_, _, rfl⟩ := Option.map_eq_some_iff.mp (Option.mem_toList.mp hb)
          rfl
        · rw [List.mem_singleton.mp hb]
          rfl
    have hcycles := hbooks.cycles hn
    rw [openings, List.filterMap_append, cycles_machines (intact_of_ran hb h).arranged.id, hnone,
      List.append_nil] at hcycles
    rwa [show Queue.cycles s.queue = [] by rw [Queue.cycles, hempty]; rfl, List.append_nil]
      at hcycles
  · have hnone : ((s.machines.values.flatMap s.machineOpening).filterMap fun b =>
        Queue.interval? (b.key 0, b.task)) = [] := by
      rw [List.filterMap_flatMap]
      exact List.flatMap_eq_nil_iff.mpr fun m _ => intervals_booking? _ _ _
    have hintervals := hbooks.intervals hn
    rw [openings, List.filterMap_append, intervals_sensors hsensors, hnone, List.nil_append]
      at hintervals
    rwa [show Queue.intervals s.queue = [] by rw [Queue.intervals, hempty]; rfl, List.append_nil]
      at hintervals
  · intro d hd
    obtain ⟨m, hm, ho⟩ := mem_orchestrating.mp hd
    exact ⟨m, by rw [machine?, hbooks.machines]; exact hm, ho⟩
  · intro p hp
    obtain ⟨⟨id, x⟩, hx, rfl⟩ := List.mem_map.mp hp
    have hx := (SortedMap.mem_entries_iff _ _ _).mp hx
    obtain ⟨_, app, happ⟩ := hsensors id x hx
    exact ⟨x, app, by rw [hbooks.sensors]; exact hx, rfl, by rw [hbooks.network]; exact happ⟩

/-! ## Runs -/

namespace Timed

variable {orchestrators : List DeviceId} {emitters : List (SensorId × DeviceId)}

/-- A machine may change in all but its orchestrator, and sensors may be attached. -/
theorem insert (h : s.Timed orchestrators emitters) {g : DeviceId} {m m' : Machine}
    (hm : s.machine? g = some m) (ho : m'.orchestrator = m.orchestrator)
    (hmachines : s'.machines = s.machines.insert g m') (hnetwork : s'.network = s.network)
    (hstarted : s'.started = s.started) (hqueue : s'.queue = s.queue)
    (hsensors : ∀ id x, s.sensors.get? id = some x → s'.sensors.get? id = some x) :
    s'.Timed orchestrators emitters := by
  constructor
  · exact hstarted.trans h.started
  · exact hqueue ▸ h.cycles
  · exact hqueue ▸ h.intervals
  · intro d hd
    obtain ⟨m₁, hm₁, ho₁⟩ := h.orchestrated d hd
    rw [machine?, hmachines, SortedMap.get?_insert]
    split
    · next hg =>
      rw [hg, hm] at hm₁
      exact ⟨m', rfl, by rw [ho, Option.some.inj hm₁, ho₁]⟩
    · exact ⟨m₁, hm₁, ho₁⟩
  · intro p hp
    obtain ⟨x, app, hx, hgateway, happ⟩ := h.attached p hp
    exact ⟨x, app, hsensors _ _ hx, hgateway, hnetwork ▸ happ⟩

/-- Whatever happens after the start, no timer is lost and none comes twice. -/
theorem continues {earlier later : List Step} (h₀ : Ran net seed earlier s)
    (ht : s.Timed orchestrators emitters) (h : s.Continues later s') :
    s'.Timed orchestrators emitters := by
  induction h with
  | refl => exact ht
  | sensor _ hs ih =>
    obtain ⟨m, m', hplace, hregister, rfl⟩ := addSensor_ok_cases hs
    obtain ⟨hnew, hm⟩ := placeForSensor_ok_cases hplace
    obtain ⟨_, _, _, _, rfl⟩ := Machine.registerClient_ok_cases hregister
    refine ih.insert hm (by rfl) rfl rfl rfl rfl fun id x hx => ?_
    rw [← hx]
    refine SortedMap.get?_insert_ne _ _ fun hid => ?_
    rw [SortedMap.contains_eq, ← hid, hx] at hnew
    cases hnew
  | actuator _ hs ih =>
    obtain ⟨_, _, m, hm, rfl⟩ := addActuator_ok_cases hs
    exact ih.insert hm (by rfl) rfl rfl rfl rfl fun _ _ hx => hx
  | start _ hs ih =>
    rcases start_opens hs with ⟨_, rfl⟩ | ⟨hfresh, _⟩
    · exact ih
    · rw [ih.started] at hfresh
      cases hfresh
  | step h hq hp ih => exact ih.step (kept_of_ran (h₀.continues h)) hq hp
  | settle stop _ ih => exact ⟨ih.started, ih.cycles, ih.intervals, ih.orchestrated, ih.attached⟩

end Timed

/--
From the start on there is always one cycle to come for every device that orchestrates and none for
other devices, one emission at its gateway for every sensor that was attached before the start and
none for other sensors, and one end of a transmission for every link that is busy and none for an
idle link. What waits for a link waits for a busy one.
-/
theorem timers_in_order (hb : Topology.build l = .ok net.topology) {earlier later : List Step}
    {s₀ s₁ : Simulation} (h₀ : Ran net seed earlier s₀) (hfresh : s₀.started = false)
    (hstart : s₀.start = .ok s₁) (h : s₁.Continues later s) :
    (∀ d, s.queue.cycles.count d
        = if (net.device? d).any fun dev => dev.role.orchestrates then 1 else 0)
      ∧ (∀ id, (s.queue.intervals.filter fun p => p.1 = id)
          = ((s₀.sensors.get? id).map fun x => (id, x.gateway)).toList)
      ∧ ∀ d kind, (s.queue.freeTimes d kind).length
            = (if (s.linkQueue d kind).busy then 1 else 0)
          ∧ ((s.linkQueue d kind).waiting ≠ [] → (s.linkQueue d kind).busy = true) := by
  have ht := (timed_of_start hb h₀ hfresh hstart).continues (h₀.start hstart) h
  have hf := Layout.forest_of_build hb
  have harranged := (intact_of_ran hb h₀).arranged
  refine ⟨fun d => ?_, fun id => ?_, fun d kind => ?_⟩
  · have hnodup : s₀.orchestrating.Nodup :=
      (List.filter_sublist.map Prod.fst).nodup s₀.machines.keys_nodup
    have hmem : d ∈ s₀.orchestrating
        ↔ (net.device? d).any (fun dev => dev.role.orchestrates) = true := by
      rw [mem_orchestrating]
      constructor
      · rintro ⟨m, hm, ho⟩
        rw [← (fresh_of_ran hf h₀ hfresh).orchestrates d m hm, ho]
      · intro hd
        have hknown : (net.device? d).isSome = true := by
          cases hdev : net.device? d with
          | none => rw [hdev] at hd; cases hd
          | some _ => rfl
        obtain ⟨m, hm⟩ := Option.isSome_iff_exists.mp (harranged.machines d hknown)
        exact ⟨m, hm, by rw [(fresh_of_ran hf h₀ hfresh).orchestrates d m hm, hd]⟩
    rw [ht.cycles.count_eq, List.Nodup.count hnodup, if_congr hmem rfl rfl]
  · have hfilter := s₀.sensors.filter_entries id
    have hperm := ht.intervals.filter fun p => p.1 = id
    rw [emitting, List.filter_map] at hperm
    rw [show ((fun p : SensorId × DeviceId => decide (p.1 = id)) ∘ fun e : SensorId × Sensor =>
      (e.1, e.2.gateway)) = fun e => decide (e.1 = id) from rfl, hfilter] at hperm
    cases hx : s₀.sensors.get? id with
    | none => rw [hx] at hperm; exact hperm.eq_nil
    | some x => rw [hx] at hperm; exact hperm.eq_singleton
  · have hd : s.Disciplined (earlier ++ later) d kind :=
      disciplined_of_ran ((h₀.start hstart).continues h)
    cases hbusy : (s.linkQueue d kind).busy with
    | false =>
      obtain ⟨hwaiting, hfree, _⟩ := hd.idle hbusy
      exact ⟨by rw [hfree]; rfl, fun hne => absurd hwaiting hne⟩
    | true =>
      obtain ⟨_, hfree, _⟩ := hd.busy hbusy
      exact ⟨by rw [hfree]; rfl, fun _ => rfl⟩

/--
While the first question of the phone is on its link and the second waits, the end of this
transmission is to come, the cloud waits for its next cycle, and the sensor for its next emission.
-/
theorem timers_in_order_echo : ∃ s₁ later s, Ran echoNetwork 0 [] echoStart
    ∧ echoStart.started = false ∧ echoStart.start = .ok s₁ ∧ s₁.Continues later s
    ∧ s.queue.cycles.count 1 = 1 ∧ s.queue.cycles.count 2 = 0
    ∧ (s.queue.intervals.filter fun p => p.1 = 1) = [(1, 2)]
    ∧ (s.linkQueue 2 .uplink).waiting ≠ [] ∧ (s.linkQueue 2 .uplink).busy = true
    ∧ (s.queue.freeTimes 2 .uplink).length = 1 := by
  obtain ⟨s, hs, hwaiting⟩ := exists_of_finishesWith
    (p := fun s => !(s.linkQueue 2 .uplink).waiting.isEmpty)
    (show finishesWith _ (echoStart.runUntil 606050000 60) = true by decide +kernel)
  obtain ⟨s₁, hstart, hcontinues⟩ := continues_of_runUntil hs
  have hran : Ran echoNetwork 0 [] echoStart := ran_withSensors _ _ _
  have hfresh : echoStart.started = false := by decide +kernel
  obtain ⟨hcycles, hintervals, hlinks⟩ := timers_in_order build_phone hran hfresh hstart hcontinues
  have hwaiting : (s.linkQueue 2 .uplink).waiting ≠ [] := by simpa using hwaiting
  have hbusy := (hlinks 2 .uplink).2 hwaiting
  refine ⟨s₁, _, s, hran, hfresh, hstart, hcontinues, ?_, ?_, ?_, hwaiting, hbusy, ?_⟩
  · rw [hcycles 1]
    decide +kernel
  · rw [hcycles 2]
    decide +kernel
  · rw [hintervals 1]
    decide +kernel
  · rw [(hlinks 2 .uplink).1, if_pos hbusy]

end Simulation

end FogNet
