import FogNet.Proofs.Simulation.Tally

/-!
# Where the messages of a simulation are

Every message that was given a number is in one place: it is about to arrive, it waits for a link of
a device, it is processed, or it has come to one end, as an execution, a drop or a delivery. So the
statistics account for all messages.

## Main statements

* `create_arranged`, `addSensor_arranged`, `addActuator_arranged` — setup gives every device its
  machine, and every sensor its gateway
* `Conserved.numbers`, `Conserved.relays` — new messages, and what devices do about those there are
* `Intact.step`, `intact_of_ran` — steps, and so runs, keep every message in one place
* `messages_conserved` — where the messages of a reached simulation are
-/

namespace FogNet

open List (Perm)

namespace Simulation

variable {net : Network} {seed : UInt64} {s s' : Simulation} {l : Layout}
  {ended : List (MessageId × Fate)}

/-! ## Setup -/

theorem create_arranged (hf : net.topology.toLayout.Forest) :
    (create net seed).Arranged net where
  network := rfl
  machines d hd := by
    obtain ⟨dev, hdev⟩ := Option.isSome_iff_exists.mp hd
    obtain ⟨hmem, rfl⟩ := Layout.device?_some hdev
    have hone : ∀ e ∈ net.topology.devices.map fun d => (d.id, Machine.ofDevice net d),
        e.1 = dev.id → e.2 = Machine.ofDevice net dev := by
      intro e he hid
      obtain ⟨dev', hmem', rfl⟩ := List.mem_map.mp he
      have hsame := hf.device?_eq hmem'
      rw [show dev'.id = dev.id from hid, hdev, Option.some.injEq] at hsame
      rw [hsame]
    have hkey : dev.id ∈ (net.topology.devices.map fun d => (d.id, Machine.ofDevice net d)).map
        Prod.fst := List.mem_map.mpr ⟨_, List.mem_map.mpr ⟨dev, hmem, rfl⟩, rfl⟩
    rw [SortedMap.contains_eq, create, SortedMap.get?_ofList hone, if_pos hkey]
    rfl
  id d m hm := by
    obtain ⟨dev, _, rfl, rfl⟩ := machine?_create hm
    rfl
  sound d m hm := by
    obtain ⟨dev, _, rfl, rfl⟩ := machine?_create hm
    exact ⟨rfl, fun w hw => absurd hw List.not_mem_nil⟩
  actuators d m hm := by
    obtain ⟨dev, _, rfl, rfl⟩ := machine?_create hm
    exact fun a ha => absurd ha List.not_mem_nil
  sensors _ _ hx := by
    rw [create, SortedMap.get?_empty] at hx
    cases hx

/-- A machine may change while its device and what it needs stay. -/
theorem Arranged.insert (hs : s.Arranged net) {d : DeviceId} {m m' : Machine}
    (hm : s.machine? d = some m) (hdevice : m'.device = m.device) (hsound : m'.Sound net)
    (hactuators : ∀ a ∈ m'.actuators, s.actuators.contains a.id = true) :
    Arranged net { s with machines := s.machines.insert d m' } := by
  have hcases {e : DeviceId} {m₁ : Machine}
      (h : machine? { s with machines := s.machines.insert d m' } e = some m₁) :
      (e = d ∧ m₁ = m') ∨ s.machine? e = some m₁ := by
    rw [machine?, SortedMap.get?_insert] at h
    split at h
    · next he => exact Or.inl ⟨he, (Option.some.inj h).symm⟩
    · exact Or.inr h
  constructor
  · exact hs.network
  · exact fun e he => SortedMap.contains_insert (hs.machines e he)
  · intro e m₁ h
    rcases hcases h with ⟨rfl, rfl⟩ | h
    · rw [Machine.id, hdevice]
      exact hs.id e m hm
    · exact hs.id e m₁ h
  · intro e m₁ h
    rcases hcases h with ⟨_, rfl⟩ | h
    · exact hsound
    · exact hs.sound e m₁ h
  · intro e m₁ h
    rcases hcases h with ⟨_, rfl⟩ | h
    · exact hactuators
    · exact hs.actuators e m₁ h
  · intro id x hx
    obtain ⟨hgateway, hedge⟩ := hs.sensors id x hx
    exact ⟨SortedMap.contains_insert hgateway, hedge⟩

/-- What a sensor needs to be attached. -/
theorem placeForSensor_edge {sensor : Sensor} {m : Machine} (h : s.placeForSensor sensor = .ok m)
    {app : Application} (ha : s.network.application? sensor.app = some app) :
    (app.sensorEdge? sensor.tupleType).isSome = true := by
  cases hedge : app.sensorEdge? sensor.tupleType with
  | some _ => rfl
  | none =>
    simp only [placeForSensor, ha, hedge, Option.isNone_none, if_true] at h
    split at h
    · cases h
    · split at h <;> cases h

/-- A registered client module waits for its launch, and nothing else changes. -/
theorem registerClient_same {m m' : Machine} {app : AppId}
    (h : m.registerClient net app = .ok m') : m'.device = m.device ∧ m'.outbound = m.outbound
      ∧ m'.actuators = m.actuators ∧ m'.deployment.device = m.deployment.device := by
  obtain ⟨_, _, _, hd, rfl⟩ := Machine.registerClient_ok_cases h
  exact ⟨rfl, rfl, rfl, by rw [Deployment.registerClient_ok hd]⟩

theorem addSensor_arranged (hs : s.Arranged net) {sensor : Sensor}
    (h : s.addSensor sensor = .ok s') : s'.Arranged net := by
  obtain ⟨m, m', hplace, hregister, rfl⟩ := addSensor_ok_cases h
  obtain ⟨_, hm⟩ := placeForSensor_ok_cases hplace
  obtain ⟨hdevice, houtbound, hactuators, hinstances⟩ := registerClient_same hregister
  have hsound : m'.Sound net :=
    ⟨by rw [hinstances, Machine.id, hdevice]; exact (hs.sound _ m hm).instances,
      by rw [houtbound]; exact (hs.sound _ m hm).targets⟩
  have hinsert := hs.insert hm hdevice hsound (by rw [hactuators]; exact hs.actuators _ m hm)
  refine ⟨hinsert.network, hinsert.machines, hinsert.id, hinsert.sound, hinsert.actuators, ?_⟩
  intro id x hx
  rw [SortedMap.get?_insert] at hx
  split at hx
  · obtain rfl := Option.some.inj hx
    refine ⟨SortedMap.contains_insert (Option.isSome_iff_exists.mpr ⟨m, hm⟩), fun app ha => ?_⟩
    rw [← hs.network] at ha
    exact placeForSensor_edge hplace ha
  · exact hinsert.sensors id x hx

theorem addActuator_arranged (hs : s.Arranged net) {actuator : Actuator}
    (h : s.addActuator actuator = .ok s') : s'.Arranged net := by
  obtain ⟨_, _, m, hm, rfl⟩ := addActuator_ok_cases h
  have hknown : Arranged net { s with actuators := s.actuators.insert actuator.id actuator } :=
    ⟨hs.network, hs.machines, hs.id, hs.sound,
      fun d m hm a ha => SortedMap.contains_insert (hs.actuators d m hm a ha), hs.sensors⟩
  have hsound := hs.sound _ m hm
  refine hknown.insert (m := m) hm rfl ⟨hsound.instances, hsound.targets⟩ fun a ha => ?_
  rcases List.mem_append.mp ha with ha | ha
  · exact hknown.actuators _ m hm a ha
  · rw [List.mem_singleton.mp ha, SortedMap.contains_eq, SortedMap.get?_insert_self]
    rfl

/-! ## One place for every message -/

/-- The messages that wait for links, at all devices. -/
def waiting (s : Simulation) : List MessageId := s.machines.values.flatMap Machine.waiting

/-- When a machine changes, what it adds to a list over all machines changes with it. -/
theorem flatMap_insert {α : Type} (f : Machine → List α) {d : DeviceId} {m : Machine}
    (hm : s.machine? d = some m) (m' : Machine) : ∃ rest,
      (s.machines.values.flatMap f).Perm (f m ++ rest)
        ∧ ((s.machines.insert d m').values.flatMap f).Perm (f m' ++ rest) := by
  obtain ⟨rest, hold, hnew⟩ := SortedMap.entries_insert_some hm m'
  have hvalues {l : List (DeviceId × Machine)} {machines : SortedMap DeviceId Machine}
      (h : machines.entries.Perm l) :
      (machines.values.flatMap f).Perm ((l.map Prod.snd).flatMap f) :=
    (h.map Prod.snd).flatMap_right _
  exact ⟨(rest.map Prod.snd).flatMap f, hvalues hold, hvalues hnew⟩

/-- When a machine changes, what waited there goes, and what waits there now comes. -/
theorem waiting_insert {d : DeviceId} {m : Machine} (hm : s.machine? d = some m) (m' : Machine) :
    ∃ rest, s.waiting.Perm (m.waiting ++ rest)
      ∧ (waiting { s with machines := s.machines.insert d m' }).Perm (m'.waiting ++ rest) :=
  flatMap_insert Machine.waiting hm m'

/--
Every message that was given a number is in one place, and the statistics account for it. A message
in hand was taken from the queue, and its device has yet to do something about it.
-/
structure Conserved (s : Simulation) (held : List MessageId) (ended : List (MessageId × Fate)) :
    Prop where
  placed : (held ++ s.queue.arriving ++ s.waiting ++ s.queue.executing
    ++ ended.map Prod.fst).Perm (List.range' 1 s.lastMessage)
  executions : s.statistics.executions
    = s.queue.executing.length + ended.countP fun e => e.2.isExecuted
  drops : s.statistics.messagesDropped = ended.countP fun e => e.2.isDropped
  deliveries : s.statistics.actuatorDeliveries = sumOf (ended.map fun e => e.2.deliveries)
  delivered : ∀ id l, (id, .delivered l) ∈ ended → l ≠ []

theorem create_conserved (net : Network) (seed : UInt64) : (create net seed).Conserved [] [] where
  placed := by
    have hnone : (create net seed).waiting = [] := by
      rw [waiting, List.flatMap_eq_nil_iff]
      intro m hm
      obtain ⟨⟨d, m⟩, he, rfl⟩ := List.mem_map.mp hm
      obtain ⟨dev, _, _, rfl⟩ := machine?_create ((SortedMap.mem_entries_iff _ d m).mp he)
      rfl
    rw [hnone]
    exact List.Perm.refl _
  executions := rfl
  drops := rfl
  deliveries := rfl
  delivered _ _ h := absurd h List.not_mem_nil

/-- New messages arrive, and the others stay where they are. -/
theorem Conserved.numbers (h : s.Conserved [] ended) (hn : s.Numbers s') :
    s'.Conserved [] ended := by
  obtain ⟨count, generator, ha⟩ := hn
  have harriving : s'.queue.arriving.Perm
      (List.range' (1 + s.lastMessage) count ++ s.queue.arriving) :=
    Nat.add_comm s.lastMessage 1 ▸ ha.arriving
  have hexecuting : s'.queue.executing.Perm s.queue.executing := ha.executing
  have hwaiting : s'.waiting = s.waiting := by rw [waiting, ha.machines, waiting]
  have hlast : s'.lastMessage = s.lastMessage + count := ha.lastMessage
  constructor
  · rw [List.perm_iff_count]
    intro id
    have hplaced := h.placed.count_eq id
    have harriving := harriving.count_eq id
    have hexecuting := hexecuting.count_eq id
    rw [hwaiting, hlast, ← List.range'_append_1]
    simp only [List.count_append] at *
    omega
  · rw [ha.executions, hexecuting.length_eq]
    exact h.executions
  · exact ha.drops.trans h.drops
  · exact ha.deliveries.trans h.deliveries
  · exact h.delivered

/-- A machine may change as long as the same messages wait there. -/
theorem Conserved.insert (h : s.Conserved [] ended) {d : DeviceId} {m : Machine}
    (hm : s.machine? d = some m) (m' : Machine) (hw : m'.waiting = m.waiting) :
    Conserved { s with machines := s.machines.insert d m' } [] ended where
  placed := by
    obtain ⟨rest, hold, hnew⟩ := waiting_insert hm m'
    rw [hw] at hnew
    exact ((((hnew.trans hold.symm).append_left _).append_right _).append_right _).trans h.placed
  executions := h.executions
  drops := h.drops
  deliveries := h.deliveries
  delivered := h.delivered

/-! ## Steps -/

/-- When a task is taken, its message is in hand, or the message that it processed has ended. -/
theorem Conserved.take (h : s.Conserved [] ended) {key : Key} {task : Task}
    (hq : s.queue.first? = some (key, task)) : (s.take key task).Conserved task.arriving?.toList
      (ended ++ task.executing?.toList.map fun id => (id, .executed)) := by
  have harriving : s.queue.arriving = task.arriving?.toList ++ (s.take key task).queue.arriving :=
    Queue.filterMap_of_first Task.arriving? hq
  have hexecuting : s.queue.executing
      = task.executing?.toList ++ (s.take key task).queue.executing :=
    Queue.filterMap_of_first Task.executing? hq
  constructor
  · rw [List.perm_iff_count]
    intro id
    have hplaced := h.placed.count_eq id
    have hids : (task.executing?.toList.map fun id => (id, Fate.executed)).map Prod.fst
        = task.executing?.toList := by simp [Function.comp_def]
    rw [harriving, hexecuting] at hplaced
    rw [List.map_append, hids, show (s.take key task).waiting = s.waiting from rfl,
      show (s.take key task).lastMessage = s.lastMessage from rfl]
    simp only [List.count_append, List.count_nil] at *
    omega
  · have hexecutions := h.executions
    have hcount : (task.executing?.toList.map fun id => (id, Fate.executed)).countP
        (fun e => e.2.isExecuted) = task.executing?.toList.length := by
      rw [List.countP_map]
      exact List.countP_eq_length.mpr fun _ _ => rfl
    rw [hexecuting, List.length_append] at hexecutions
    rw [List.countP_append, hcount, show (s.take key task).statistics.executions
      = s.statistics.executions from rfl]
    omega
  · have hdrops : (s.take key task).statistics.messagesDropped = _ := h.drops
    cases task.executing? <;> simpa [Fate.isDropped] using hdrops
  · have hdeliveries : (s.take key task).statistics.actuatorDeliveries = _ := h.deliveries
    cases task.executing? <;> simpa [Fate.deliveries, sumOf_append] using hdeliveries
  · intro id l hl
    rcases List.mem_append.mp hl with hl | hl
    · exact h.delivered id l hl
    · obtain ⟨_, _, he⟩ := List.mem_map.mp hl
      cases he

/-- What a device does at an event, when its actions are carried out. -/
theorem Conserved.relays {arriving : Option MessageId} (h : s.Conserved arriving.toList ended)
    {d : DeviceId} {m m' : Machine} {actions : List Action} {log : List Metric}
    (hm : s.machine? d = some m) (hr : m.Relays net m' arriving actions)
    (ha : Adds { s with machines := s.machines.insert d m', log } s' (.ofActions actions)) :
    s'.Conserved [] (ended ++ endings actions) := by
  obtain ⟨rest, hold, hnew⟩ := waiting_insert hm m'
  have hwaiting : s'.waiting.Perm (m'.waiting ++ rest) := by
    rw [waiting, ha.machines]
    exact hnew
  have hlast : s'.lastMessage = s.lastMessage := ha.lastMessage
  have harriving : s'.queue.arriving.Perm (actions.filterMap Action.sent? ++ s.queue.arriving) :=
    ha.arriving
  have hexecuting : s'.queue.executing.Perm
      (actions.filterMap Action.processed? ++ s.queue.executing) := ha.executing
  constructor
  · rw [List.perm_iff_count, hlast]
    intro id
    have hplaced := h.placed.count_eq id
    have hflow := hr.flow.count_eq id
    have hold := hold.count_eq id
    have hwaiting := hwaiting.count_eq id
    have harriving := harriving.count_eq id
    have hexecuting := hexecuting.count_eq id
    rw [onward] at hflow
    rw [List.map_append]
    simp only [List.count_append, List.count_nil] at *
    omega
  · rw [ha.executions, hexecuting.length_eq, List.length_append, List.countP_append,
      countP_isExecuted_endings]
    have hexecutions := h.executions
    simp only [Tally.ofActions]
    omega
  · rw [ha.drops, List.countP_append, countP_isDropped_endings, ← h.drops]
    rfl
  · rw [ha.deliveries, List.map_append, sumOf_append, deliveries_endings, ← h.deliveries]
    rfl
  · intro id l hl
    rcases List.mem_append.mp hl with hl | hl
    · exact h.delivered id l hl
    · exact ne_nil_of_mem_endings actions hl

theorem take_orderly (ho : s.Orderly) {key : Key} {task : Task}
    (hq : s.queue.first? = some (key, task)) : (s.take key task).Orderly := by
  have hmem {e : Key × Task} (he : e ∈ (s.take key task).queue.entries) : e ∈ s.queue.entries := by
    rw [Queue.entries_of_first hq]
    exact List.mem_cons_of_mem _ he
  exact ⟨fun e he => ho.numbered e (hmem he), fun e he => ho.addressed e (hmem he)⟩

/-- There is a device where the message of the first task is. -/
theorem Orderly.first (ho : s.Orderly) {key : Key} {task : Task}
    (hq : s.queue.first? = some (key, task)) {d : DeviceId}
    (hd : task.addressee? key.device = some d) : s.machines.contains d = true := by
  have hfirst : (key, task) ∈ s.queue.entries := by
    rw [Queue.entries_of_first hq]
    exact List.mem_cons_self
  exact ho.addressed _ hfirst d hd

/-- A simulation in which all is where it should be, and so every message is in one place. -/
structure Intact (net : Network) (s : Simulation) (ended : List (MessageId × Fate)) : Prop where
  arranged : s.Arranged net
  orderly : s.Orderly
  conserved : s.Conserved [] ended

theorem Intact.numbers (hs : s.Arranged net) (hc : s.Conserved [] ended) (hn : s.Numbers s') :
    s'.Intact net ended := by
  have hconserved := hc.numbers hn
  obtain ⟨count, generator, ha⟩ := hn
  exact ⟨ha.arranged (hs.of_same rfl rfl rfl rfl), ha.orderly, hconserved⟩

/-- What a device does about its messages at an event, and what its actions come to. -/
theorem handled_adds (hf : net.topology.toLayout.Forest) (hs : s.Arranged net) (ho : s.Orderly)
    {event : Event} {d : DeviceId} {m m' : Machine} {actions : List Action} {log : List Metric}
    (hm : s.machine? d = some m)
    (hv : ({ m with now := s.now }.handle net event).value = some (actions, m'))
    (hall : ({ s with machines := s.machines.insert d m', log }.count
      fun t => t.countActions actions.length).performAll d actions = .ok s') :
    m.Relays net m' event.arriving? actions ∧ s'.Arranged net
      ∧ Adds { s with machines := s.machines.insert d m', log } s' (.ofActions actions) := by
  have hsound := hs.sound d m hm
  -- The time that a device is told matters neither to its links nor to its instances.
  have hnow : ({ m with now := s.now } : Machine).Sound net := ⟨hsound.instances, hsound.targets⟩
  have hrelays := Machine.relays_handle hf hnow hv
  have hr : m.Relays net m' event.arriving? actions :=
    ⟨hrelays.flow, hrelays.proper, hrelays.sound, hrelays.actuators⟩
  have hdevice := Machine.handle_device hv
  have hinsert := hs.insert hm hdevice hr.sound (by rw [hr.actuators]; exact hs.actuators d m hm)
  have hcount := count_adds (s := { s with machines := s.machines.insert d m', log })
    ⟨ho.numbered, fun e he d hd => SortedMap.contains_insert (ho.addressed e he d hd)⟩
    (fun t => t.countActions actions.length) (Nat.add_zero _).symm (Nat.add_zero _).symm
    (Nat.add_zero _).symm
  have hadds := hcount.trans (performAll_adds
    (hcount.arranged (hinsert.of_same rfl rfl rfl rfl)) hcount.orderly
    (SortedMap.get?_insert_self _ _ _) hr.proper hall)
  rw [Tally.empty_add] at hadds
  exact ⟨hr, hadds.arranged (hinsert.of_same rfl rfl rfl rfl), hadds⟩

/-- When a device handles an event and its actions are carried out, no message is left in hand. -/
theorem Intact.handled (hf : net.topology.toLayout.Forest) (hs : s.Arranged net) (ho : s.Orderly)
    {event : Event} (hc : s.Conserved event.arriving?.toList ended) {d : DeviceId}
    {m m' : Machine} {actions : List Action} {log : List Metric} (hm : s.machine? d = some m)
    (hv : ({ m with now := s.now }.handle net event).value = some (actions, m'))
    (hall : ({ s with machines := s.machines.insert d m', log }.count
      fun t => t.countActions actions.length).performAll d actions = .ok s') :
    s'.Intact net (ended ++ endings actions) := by
  obtain ⟨hr, harranged, hadds⟩ := handled_adds hf hs ho hm hv hall
  exact ⟨harranged, hadds.orderly, hc.relays hm hr hadds⟩

/-- No message is on its way to a device without a machine. -/
theorem Intact.arriving?_of_none (h : s.Intact net ended) {key : Key} {event : Event}
    (hq : s.queue.first? = some (key, .device event)) (hm : s.machine? key.device = none) :
    event.arriving? = none := by
  cases event with
  | messageArrived message =>
    obtain ⟨m, hsome⟩ := Option.isSome_iff_exists.mp (h.orderly.first hq rfl)
    exact absurd (hm.symm.trans hsome) (by simp)
  | _ => rfl

/-- An event to a device keeps every message in one place. -/
theorem Intact.happen (hf : net.topology.toLayout.Forest) (h : s.Intact net ended) {key : Key}
    {event : Event} (hq : s.queue.first? = some (key, .device event))
    (hp : (s.take key (.device event)).happen key.device event = .ok s') :
    s'.Intact net (ended ++ Step.ended ⟨s, key, .device event⟩) := by
  have hs : (s.take key (.device event)).Arranged net := h.arranged.of_same rfl rfl rfl rfl
  have ho := take_orderly h.orderly hq
  have hc : (s.take key (.device event)).Conserved event.arriving?.toList ended :=
    List.append_nil ended ▸ h.conserved.take hq
  rw [show Step.ended ⟨s, key, .device event⟩
    = endings (Step.actions ⟨s, key, .device event⟩ event) from rfl]
  rcases happen_cases hp with ⟨hm, rfl⟩ | ⟨m, actions, m', log, hm, hv, hall⟩
  · have hnone : s.machine? key.device = none := hm
    have harriving := h.arriving?_of_none hq hnone
    rw [harriving] at hc
    rw [Step.actions_of_none hnone, endings_commands (by simp), List.append_nil]
    exact ⟨hs, ho, hc⟩
  · have hknown : s.machine? key.device = some m := hm
    rw [Step.actions_of_handle hknown hv]
    rw [hs.network] at hv
    exact .handled hf hs ho hc hm hv hall

/-- A step keeps every message in one place. -/
theorem Intact.step (hf : net.topology.toLayout.Forest) (h : s.Intact net ended) {key : Key}
    {task : Task} (hq : s.queue.first? = some (key, task))
    (hp : (s.take key task).process key task = .ok s') :
    s'.Intact net (ended ++ Step.ended ⟨s, key, task⟩) := by
  have hs : (s.take key task).Arranged net := h.arranged.of_same rfl rfl rfl rfl
  have ho := take_orderly h.orderly hq
  cases task with
  | device event => exact h.happen hf hq hp
  | sensorTick id => exact .numbers hs (h.conserved.take hq) (tick_numbers hs ho hp)
  | executionCompleted target message =>
    rw [← Except.ok.inj hp]
    exact .numbers hs (h.conserved.take hq) (complete_numbers ho message (h.orderly.first hq rfl))

/-- The numbers that were given out stay so. -/
theorem Intact.lastMessage_le (hf : net.topology.toLayout.Forest) (h : s.Intact net ended)
    {key : Key} {task : Task} (hq : s.queue.first? = some (key, task))
    (hp : (s.take key task).process key task = .ok s') : s.lastMessage ≤ s'.lastMessage := by
  have hs : (s.take key task).Arranged net := h.arranged.of_same rfl rfl rfl rfl
  have ho := take_orderly h.orderly hq
  have hnumbers (hn : (s.take key task).Numbers s') : s.lastMessage ≤ s'.lastMessage := by
    obtain ⟨count, _, hadds⟩ := hn
    rw [hadds.lastMessage]
    exact Nat.le_add_right _ _
  cases task with
  | device event =>
    rcases happen_cases hp with ⟨_, rfl⟩ | ⟨_, _, _, _, hm, hv, hall⟩
    · exact Nat.le_refl _
    · rw [hs.network] at hv
      obtain ⟨_, _, hadds⟩ := handled_adds hf hs ho hm hv hall
      exact Nat.le_of_eq hadds.lastMessage.symm
  | sensorTick id => exact hnumbers (tick_numbers hs ho hp)
  | executionCompleted target message =>
    rw [← Except.ok.inj hp] at hnumbers ⊢
    exact hnumbers (complete_numbers ho message (h.orderly.first hq rfl))

/-! ## Runs -/

theorem create_intact (hf : net.topology.toLayout.Forest) : (create net seed).Intact net [] where
  arranged := create_arranged hf
  orderly := ⟨fun _ he => absurd he List.not_mem_nil, fun _ he => absurd he List.not_mem_nil⟩
  conserved := create_conserved net seed

theorem Intact.addSensor (h : s.Intact net ended) {sensor : Sensor}
    (hs : s.addSensor sensor = .ok s') : s'.Intact net ended := by
  have harranged := addSensor_arranged h.arranged hs
  obtain ⟨m, m', hplace, hregister, rfl⟩ := addSensor_ok_cases hs
  obtain ⟨_, hm⟩ := placeForSensor_ok_cases hplace
  obtain ⟨_, houtbound, _, _⟩ := registerClient_same hregister
  have hc := h.conserved.insert hm m' (by rw [Machine.waiting, houtbound, Machine.waiting])
  exact ⟨harranged, ⟨h.orderly.numbered,
    fun e he d hd => SortedMap.contains_insert (h.orderly.addressed e he d hd)⟩,
    ⟨hc.placed, hc.executions, hc.drops, hc.deliveries, hc.delivered⟩⟩

theorem Intact.addActuator (h : s.Intact net ended) {actuator : Actuator}
    (hs : s.addActuator actuator = .ok s') : s'.Intact net ended := by
  have harranged := addActuator_arranged h.arranged hs
  obtain ⟨_, _, m, hm, rfl⟩ := addActuator_ok_cases hs
  have hc := h.conserved.insert hm
    (m.attach ⟨actuator.id, actuator.app, actuator.actuatorType⟩) rfl
  exact ⟨harranged, ⟨h.orderly.numbered,
    fun e he d hd => SortedMap.contains_insert (h.orderly.addressed e he d hd)⟩,
    ⟨hc.placed, hc.executions, hc.drops, hc.deliveries, hc.delivered⟩⟩

theorem Intact.start (h : s.Intact net ended) (hs : s.start = .ok s') :
    s'.Intact net ended := by
  have hc : Conserved { s with started := s'.started } [] ended :=
    ⟨h.conserved.placed, h.conserved.executions, h.conserved.drops, h.conserved.deliveries,
      h.conserved.delivered⟩
  exact .numbers (s := { s with started := s'.started }) (h.arranged.of_same rfl rfl rfl rfl) hc
    (start_adds h.orderly hs).numbers

/-- In every reached simulation each message is in one place. -/
theorem intact_of_ran (hb : Topology.build l = .ok net.topology) {history : List Step}
    (h : Ran net seed history s) : s.Intact net (Simulation.ended history) := by
  have hf := Layout.forest_of_build hb
  induction h with
  | create => exact create_intact hf
  | sensor _ hs ih => exact ih.addSensor hs
  | actuator _ hs ih => exact ih.addActuator hs
  | start _ hs ih => exact ih.start hs
  | step _ hq hp ih =>
    rw [Simulation.ended, List.flatMap_append, List.flatMap_singleton]
    exact ih.step hf hq hp
  | settle stop _ ih =>
    have hc := ih.conserved
    exact ⟨ih.arranged.of_same rfl rfl rfl rfl, ⟨ih.orderly.numbered, ih.orderly.addressed⟩,
      ⟨hc.placed, hc.executions, hc.drops, hc.deliveries, hc.delivered⟩⟩

/-- A message ends in one of three ways. -/
theorem length_ended : ∀ ended : List (MessageId × Fate), ended.length
    = ended.countP (fun e => e.2.isExecuted) + ended.countP (fun e => e.2.isDropped)
      + ended.countP (fun e => e.2.isDelivered)
  | [] => rfl
  | (_, fate) :: ended => by
    have hone : (if fate.isExecuted = true then 1 else 0) + (if fate.isDropped = true then 1 else 0)
        + (if fate.isDelivered = true then 1 else 0) = 1 := by cases fate <;> rfl
    have ih := length_ended ended
    simp only [List.length_cons, List.countP_cons]
    omega

/--
Every message that was given a number is in exactly one place: it arrives, it waits for a link of a
device, it is processed, or it has ended, once. Executions are counted when they begin, so those
counted are under way or have ended; drops are counted one by one, and a message that is handed to
actuators counts once for each of them, of which there is one at least. So the numbers given out are
those of messages that arrive or wait, and of messages executed, dropped or delivered.
-/
theorem messages_conserved (hb : Topology.build l = .ok net.topology) {history : List Step}
    (h : Ran net seed history s) :
    (s.queue.arriving ++ s.waiting ++ s.queue.executing
        ++ (Simulation.ended history).map Prod.fst).Perm (List.range' 1 s.lastMessage)
      ∧ s.statistics.executions = s.queue.executing.length
          + (Simulation.ended history).countP (fun e => e.2.isExecuted)
      ∧ s.statistics.messagesDropped
          = (Simulation.ended history).countP (fun e => e.2.isDropped)
      ∧ s.statistics.actuatorDeliveries
          = sumOf ((Simulation.ended history).map fun e => e.2.deliveries)
      ∧ (∀ id actuators, (id, .delivered actuators) ∈ Simulation.ended history → actuators ≠ [])
      ∧ s.lastMessage = s.queue.arriving.length + s.waiting.length + s.statistics.executions
          + s.statistics.messagesDropped
          + (Simulation.ended history).countP fun e => e.2.isDelivered := by
  have hc := (intact_of_ran hb h).conserved
  refine ⟨hc.placed, hc.executions, hc.drops, hc.deliveries, hc.delivered, ?_⟩
  have hlength := hc.placed.length_eq
  have hended := length_ended (Simulation.ended history)
  have hexecutions := hc.executions
  have hdrops := hc.drops
  simp only [List.length_append, List.length_nil, List.length_map, List.length_range'] at hlength
  change @Eq Nat _ _
  omega

/-! ## A phone -/

/-- A phone below a cloud. -/
def phone : Layout :=
  { devices := [
      { id := 1, name := "cloud", role := .cloud, capacity := { cpuMips := 100 } },
      { id := 2, name := "phone", role := .client, parent := some 1,
        capacity := { cpuMips := 100 } }] }

/-- The topology of `phone`: its routes are settled after one sweep. -/
def phoneTopology : Topology :=
  { phone with routes := (Relaxation.firstSweep phone.linkLatency).sweep.table }

theorem build_phone : Topology.build phone = .ok phoneTopology :=
  Topology.build_eq_ok (by decide +kernel) (Relaxation.settle_of_still (by decide +kernel))
    (by decide +kernel) (by decide +kernel)

/-- One application has a client module on the phone, the other is only hosted by the cloud. -/
def phoneNetwork : Network :=
  { topology := phoneTopology
    applications := .ofList [
      { id := "a", user := 1, edges := [.ofSensor "t" "client" 1 1] },
      { id := "b", user := 1, microservices := [⟨"x", 45, 0, 0, []⟩],
        edges := [.ofSensor "t" "x" 1 1] }]
    policy := {} }

/-- Sensors at the phone, one for each application. -/
def phoneSensors : List Sensor :=
  [{ id := 1, gateway := 2, app := "a", tupleType := "t", interval := Duration.ofMillis 500 },
    { id := 2, gateway := 2, app := "b", tupleType := "t", interval := Duration.ofMillis 500 }]

/-- The phone, with its sensors, before the start. -/
def phoneStart : Simulation := withSensors phoneNetwork 0 phoneSensors

/-- What a run leaves behind has a property, if it comes to its end. -/
def finishesWith (p : Simulation → Bool) : Outcome → Bool
  | .finished s => p s
  | _ => false

theorem exists_of_finishesWith {o : Outcome} {p : Simulation → Bool} (h : finishesWith p o = true) :
    ∃ s, o = .finished s ∧ p s = true := by
  cases o with
  | finished s => exact ⟨s, rfl, h⟩
  | _ => exact absurd h Bool.false_ne_true

/--
After a little over a second each sensor of the phone has emitted twice: of the first two messages
one was executed and one dropped, for want of an instance, and the other two are about to arrive.
-/
theorem messages_conserved_phone : ∃ history s, Ran phoneNetwork 0 history s
    ∧ s.lastMessage = 4 ∧ s.queue.arriving = [3, 4]
    ∧ s.statistics.executions = 1 ∧ s.statistics.messagesDropped = 1
    ∧ (s.queue.arriving ++ s.waiting ++ s.queue.executing
        ++ (Simulation.ended history).map Prod.fst).Perm [1, 2, 3, 4]
    ∧ (Simulation.ended history).countP (fun e => e.2.isExecuted) = 1
    ∧ (Simulation.ended history).countP (fun e => e.2.isDropped) = 1
    ∧ (Simulation.ended history).countP (fun e => e.2.isDelivered) = 0 := by
  obtain ⟨s, hs, hp⟩ := exists_of_finishesWith (p := fun s => decide (s.lastMessage = 4
    ∧ s.queue.arriving = [3, 4] ∧ s.queue.executing = [] ∧ s.waiting = []
    ∧ s.statistics.executions = 1 ∧ s.statistics.messagesDropped = 1))
    (show finishesWith _ (phoneStart.runUntil (Duration.ofMillis 1003) 60) = true by decide +kernel)
  obtain ⟨hlast, harriving, hexecuting, hwaiting, hexecutions, hdrops⟩ := of_decide_eq_true hp
  obtain ⟨history, hr, _⟩ := (reached_of_runUntil (reached_withSensors _ _ _) hs).ran
  obtain ⟨hplaced, hexecuted, hdropped, _, _, hsum⟩ := messages_conserved build_phone hr
  rw [hlast] at hplaced hsum
  rw [hexecutions, hexecuting, List.length_nil, Nat.zero_add] at hexecuted
  rw [hdrops] at hdropped
  rw [harriving, hwaiting, hexecutions, hdrops] at hsum
  refine ⟨history, s, hr, hlast, harriving, hexecutions, hdrops, hplaced, hexecuted.symm,
    hdropped.symm, ?_⟩
  change @Eq Nat _ _ at hsum
  simp only [List.length_cons, List.length_nil] at hsum
  omega

/-! ## An echo -/

/-- The client of this application asks twice for each message of a sensor, and hears an echo. -/
def echo : Application :=
  { id := "a", user := 1
    microservices := [
      ⟨"client", 10, 0, 0, [⟨"t", "u", .ofFloat 1.0⟩, ⟨"t", "v", .ofFloat 1.0⟩]⟩,
      ⟨"m", 10, 0, 0, [⟨"u", "r", .ofFloat 1.0⟩, ⟨"v", "r", .ofFloat 1.0⟩]⟩]
    edges := [
      .ofSensor "t" "client" 1 1000,
      ⟨.module, "client", "m", "u", .up, 1, 1000⟩,
      ⟨.module, "client", "m", "v", .up, 1, 1000⟩,
      ⟨.module, "m", "client", "r", .down, 1, 1000⟩] }

/-- The client runs on the phone, so the cloud is what is left for the echo. -/
def echoNetwork : Network :=
  { topology := phoneTopology, applications := .ofList [echo], policy := {} }

/-- The phone with a sensor, before the start. -/
def echoStart : Simulation := withSensors echoNetwork 0
  [{ id := 1, gateway := 2, app := "a", tupleType := "t", interval := Duration.ofMillis 500 }]

end Simulation

end FogNet
