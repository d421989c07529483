import FogNet.Proofs.Machine.Lines
import FogNet.Proofs.Simulation.Links
import FogNet.Proofs.Simulation.Replies
import FogNet.Proofs.Simulation.Timers
import FogNet.Proofs.Topology.Path

/-!
# The loads of messages

What a message demands of devices and links is what the edge of its application says, wherever the
message is, and an answer is on an edge that the microservice may answer on. The bandwidths that a
device sends with are its own, and what waits for one of its links is on its way over this link.

## Main statements

* `answer_of_mem_outputs` — on which edges an instance answers
* `Laden.step`, `laden_of_ran` — every message under way is on an edge, along every run
* `lined_of_ran` — what waits for a link goes over this link
* `interval_of_ran` — sensors have intervals that are not zero
-/

namespace FogNet

/-! ## Edges and their messages -/

namespace Application

/-- Whether a microservice may answer messages of a tuple type on an edge. -/
structure Answers (app : Application) (name : Name) (input : TupleType) (e : Edge) : Prop where
  edge : e ∈ app.edges
  source : e.source = name
  selected : ∃ m fraction g, app.microservice? name = some m
    ∧ m.selectivity? input e.tupleType = some fraction ∧ (selects fraction.toFloat g).1 = true

/-- How long a message is processed, by its destination and its demand. -/
def processingTime? (app : Application) (name : Name) (cpuLength : Nat) : Option Duration :=
  if app.mipsOf name = 0 then some 0
  else Duration.ofSecondsFloat? (Float.ofNat cpuLength / Float.ofNat (app.mipsOf name))

end Application

/-- How long a link of a device is busy with a message of some size. -/
def Device.transmissionTime? (dev : Device) (kind : LinkKind) (size : Nat) : Option Duration :=
  Duration.ofSecondsFloat? (Float.ofNat size / dev.bandwidth.get kind)

/-- A message has the destination and the load of an edge of its application. -/
structure Message.OnEdge (net : Network) (message : Message) (app : Application) (e : Edge) :
    Prop where
  registered : net.application? message.app = some app
  edge : e ∈ app.edges
  destination : message.destination = e.destination
  tupleType : message.tupleType = e.tupleType
  cpuLength : message.cpuLength = e.cpuLength
  size : message.size = e.size

namespace Message.OnEdge

variable {net : Network} {message : Message} {app : Application} {e : Edge}

/-- Dispatch leaves the load alone. -/
theorem addressed (h : message.OnEdge net app e) {m : Machine} {d : DeviceId} {addressed : Message}
    (ha : m.addressed? message = some (d, addressed)) : addressed.OnEdge net app e := by
  rw [(Machine.bound_of_addressed? ha).2]
  exact ⟨h.registered, h.edge, h.destination, h.tupleType, h.cpuLength, h.size⟩

/-- So does the choice of an instance. -/
theorem processed (h : message.OnEdge net app e) (target : InstanceId) (d : DeviceId) :
    ((message.setPin message.destination target).recordTraversal d
      message.destination).OnEdge net app e :=
  ⟨h.registered, h.edge, h.destination, h.tupleType, h.cpuLength, h.size⟩

theorem executionTime {s : Simulation} (hnetwork : s.network = net)
    (h : message.OnEdge net app e) :
    s.executionTime message = app.processingTime? e.destination e.cpuLength := by
  simp only [Simulation.executionTime, Application.processingTime?, hnetwork, h.registered,
    Option.map_some, Option.getD_some, h.destination, h.cpuLength]

end Message.OnEdge

/-! ## Departures -/

namespace Outbound

variable {o o' : Outbound} {kind : LinkKind} {w : Waiting} {actions : List Action}

/-- A message that is sent joins the line, or is put on the link. -/
theorem departs_of_send (h : (o.send kind w).value = some (actions, o')) :
    (actions = [] ∧ o'.waits.Perm (w :: o.waits))
      ∨ ((o.transmit kind w).value = some actions ∧ o'.waits.Perm o.waits) := by
  rcases send_cases h with hjoins | ⟨_, _, hwaits⟩
  · exact Or.inl hjoins
  · unfold send at h
    simp only at h
    split at h
    · next hactions _ =>
      simp only [Recorded.value_pure, Option.some.injEq, Prod.mk.injEq] at h
      rw [hactions] at h
      cases h.1
    · simp only [Recorded.value_bind, Option.bind_eq_some_iff, Recorded.value_pure,
        Option.some.injEq, Prod.mk.injEq] at h
      obtain ⟨_, ht, rfl, _⟩ := h
      exact Or.inr ⟨ht, hwaits⟩

/-- A link that is free again takes a message from the line, if there is one. -/
theorem departs_of_freed (h : (o.freed kind).value = some (actions, o')) :
    (actions = [] ∧ o'.waits.Perm o.waits)
      ∨ ∃ w ∈ (o.queue kind).waiting, (o.transmit kind w).value = some actions
        ∧ o.waits.Perm (w :: o'.waits) := by
  cases hq : (o.queue kind).waiting with
  | nil =>
    rcases freed_cases h with hidle | ⟨w, _, rfl, _⟩
    · exact Or.inl hidle
    · simp only [freed, hq, Recorded.value_pure, Option.some.injEq, Prod.mk.injEq] at h
      cases h.1
  | cons w rest =>
    obtain ⟨ht, rfl⟩ := freed_waiting hq h
    have hw := o.waits_setQueue kind { busy := true, waiting := rest }
    rw [hq] at hw
    exact Or.inr ⟨w, List.mem_cons_self, ht,
      ((List.perm_append_left_iff rest).mp (List.perm_middle.trans hw)).symm⟩

end Outbound

/-! ## Answers -/

/-- An answer is put on an edge that is selected. -/
theorem Application.resultant_of_mem {app : Application} {m : Microservice}
    {input output : Message} : ∀ {edges : List Edge} {id : MessageId} {g : Generator},
      output ∈ (app.resultantsFrom m input edges id g).1 → ∃ e ∈ edges, ∃ id fraction g,
        output = app.resultant input e id
          ∧ m.selectivity? input.tupleType e.tupleType = some fraction
          ∧ (selects fraction.toFloat g).1 = true
  | [], _, _, h => absurd h List.not_mem_nil
  | e :: edges, id, g, h => by
    have hlater {id : MessageId} {g : Generator}
        (h : output ∈ (app.resultantsFrom m input edges id g).1) :
        ∃ e' ∈ e :: edges, ∃ id fraction g, output = app.resultant input e' id
          ∧ m.selectivity? input.tupleType e'.tupleType = some fraction
          ∧ (selects fraction.toFloat g).1 = true := by
      obtain ⟨e', he', hrest⟩ := resultant_of_mem h
      exact ⟨e', List.mem_cons_of_mem e he', hrest⟩
    unfold resultantsFrom at h
    split at h
    · exact hlater h
    · next fraction hfraction =>
      split at h
      · exact hlater h
      · next hselected =>
        rcases List.mem_cons.mp h with rfl | h
        · exact ⟨e, List.mem_cons_self, id, fraction, g, rfl, hfraction, by rw [hselected]⟩
        · exact hlater h

namespace Simulation

variable {net : Network} {seed : UInt64} {s s' : Simulation} {l : Layout} {history : List Step}
  {apps : List Application} {d : DeviceId} {message : Message} {bookings : List Booking}
  {key : Key} {task : Task}

/-- An instance answers on edges of the application, with what belongs on them. -/
theorem answer_of_mem_outputs (ha : net.applications = .ofList apps) (hnetwork : s.network = net)
    {app : Application} (happ : net.application? message.app = some app) {output : Message}
    (h : output ∈ s.outputs message) : ∃ e,
      app.Answers message.destination message.tupleType e ∧ output.OnEdge net app e
        ∧ ∃ id, output = app.resultant message e id := by
  unfold outputs at h
  rw [hnetwork, happ] at h
  simp only [Application.resultants] at h
  split at h
  · cases h
  · next m hm =>
    obtain ⟨e, he, id, fraction, g, rfl, hfraction, hselected⟩ := Application.resultant_of_mem h
    obtain ⟨he, hsource⟩ := List.mem_filter.mp he
    have hid : app.id = message.app := Network.id_of_application? ha happ
    refine ⟨e, ⟨he, beq_iff_eq.mp hsource, m, fraction, g, hm, hfraction, hselected⟩,
      ⟨?_, he, rfl, rfl, rfl, rfl⟩, id, rfl⟩
    rw [show (app.resultant message e id).app = message.app from hid]
    exact happ

/-- A sensor emits on the edge of its tuple type. -/
theorem onEdge_of_sensorMessage? (ha : net.applications = .ofList apps) {id : AppId}
    {app : Application} (happ : net.application? id = some app) {tupleType : TupleType}
    {number : MessageId} {now : Duration}
    (h : app.sensorMessage? tupleType number now = some message) :
    ∃ e, message.OnEdge net app e := by
  obtain ⟨e, he, rfl⟩ := Option.map_eq_some_iff.mp h
  refine ⟨e, ?_, List.mem_of_find?_eq_some he, rfl, rfl, rfl, rfl⟩
  rw [Network.id_of_application? ha happ]
  exact happ

/-! ## Steps -/

/-- A machine sends with the bandwidths of its device, and orchestrates if its device does. -/
def Equipped (net : Network) (d : DeviceId) (m : Machine) : Prop :=
  ∃ dev, net.device? d = some dev ∧ m.outbound.bandwidth = dev.bandwidth
    ∧ m.orchestrator.isSome = dev.role.orchestrates

/-- Messages under way are on edges, and machines are what their devices are. -/
structure Laden (net : Network) (s : Simulation) : Prop where
  edges : ∀ d message, s.Live d message → ∃ app e, message.OnEdge net app e
  machines : ∀ d m, s.machine? d = some m → Equipped net d m

/-- A machine takes as long as its device to put a message on a link. -/
theorem Equipped.transmissionTime {m : Machine} {dev : Device} {app : Application} {e : Edge}
    (h : Equipped net d m) (hdev : net.device? d = some dev) (hedge : message.OnEdge net app e)
    (kind : LinkKind) :
    m.outbound.transmissionTime kind message = dev.transmissionTime? kind e.size := by
  obtain ⟨dev', hdev', hbandwidth, _⟩ := h
  rw [hdev, Option.some.injEq] at hdev'
  rw [Outbound.transmissionTime, Device.transmissionTime?, hbandwidth, hedge.size, hdev']

theorem bandwidth_of_effect {m m' : Machine} {e : Event} {actions : List Action}
    (h : m.Effect net e actions m') : m'.outbound.bandwidth = m.outbound.bandwidth := by
  cases h with
  | freed ho => exact Outbound.call_bandwidth (c := .freed _) ho
  | received _ hrest =>
    rcases Machine.sent_of_dispatched hrest with ⟨_, rfl, _⟩ | ⟨_, _, _, hsend⟩
    · rfl
    · exact Outbound.call_bandwidth (c := .send _ _) hsend
  | _ => rfl

namespace Laden

theorem still (h : s.Laden net) (hs : s.Still s') : s'.Laden net where
  edges d message hlive := h.edges d message (hlive.of_still hs)
  machines d m' hm' := by
    obtain ⟨m, hm, houtbound, _, horchestrator⟩ := hs.machine d m' hm'
    obtain ⟨dev, hdev, hbandwidth, ho⟩ := h.machines d m hm
    exact ⟨dev, hdev, houtbound ▸ hbandwidth, horchestrator ▸ ho⟩

/-- A step puts no message under way that is on no edge. -/
theorem edge (ha : net.applications = .ofList apps) (hnetwork : s.network = net)
    (h : s.Laden net) (hq : s.queue.first? = some (key, task)) (ho : s.Origin key task d message) :
    ∃ app e, message.OnEdge net app e := by
  have hfirst {d : DeviceId} {message : Message}
      (hcarried : task.carried? key.device = some (d, message)) :
      ∃ app e, message.OnEdge net app e :=
    h.edges d message (.queued (Queue.mem_of_first hq) hcarried)
  cases ho with
  | kept hlive => exact h.edges _ _ hlive
  | emitted happ hmessage =>
    obtain ⟨e, hedge⟩ := onEdge_of_sensorMessage? ha (hnetwork ▸ happ) hmessage
    exact ⟨_, e, hedge.registered, hedge.edge, hedge.destination, hedge.tupleType,
      hedge.cpuLength, hedge.size⟩
  | answered hanswer =>
    obtain ⟨app, _, hedge⟩ := hfirst rfl
    obtain ⟨e, _, hedge, _⟩ := answer_of_mem_outputs ha hnetwork hedge.registered hanswer
    exact ⟨app, e, hedge⟩
  | sentOn _ haddressed _ =>
    obtain ⟨app, e, hedge⟩ := hfirst rfl
    exact ⟨app, e, hedge.addressed haddressed⟩
  | chosen _ haddressed _ =>
    obtain ⟨app, e, hedge⟩ := hfirst rfl
    exact ⟨app, e, (hedge.addressed haddressed).processed _ _⟩

/-- An event changes only what a device sends and what it waits with. -/
theorem equipped (h : s.Laden net) (hp : (s.take key task).process key task = .ok s') {m' : Machine}
    (hm' : s'.machine? d = some m') : Equipped net d m' := by
  cases task with
  | sensorTick id =>
    obtain ⟨_, hbooks, _⟩ := tick_books hp
    rw [machine?, hbooks.machines] at hm'
    exact h.machines d m' hm'
  | executionCompleted target input =>
    rw [← Except.ok.inj hp, machine?, (complete_books _ target input).machines] at hm'
    exact h.machines d m' hm'
  | device event =>
    rcases happen_books hp with ⟨_, rfl⟩ | ⟨m, actions, m₁, hm, hv, hbooks⟩
    · exact h.machines d m' hm'
    rw [machine?, hbooks.machines, SortedMap.get?_insert] at hm'
    split at hm'
    · next hd =>
      obtain rfl := Option.some.inj hm'
      have heffect := Machine.effect_of_handle hv
      obtain ⟨dev, hdev, hb, ho⟩ := h.machines key.device m hm
      exact hd ▸ ⟨dev, hdev, (bandwidth_of_effect heffect).trans hb,
        (Machine.orchestrates_of_effect heffect).trans ho⟩
    · exact h.machines d m' hm'

theorem step (ha : net.applications = .ofList apps) (hnetwork : s.network = net) (h : s.Laden net)
    (hq : s.queue.first? = some (key, task))
    (hp : (s.take key task).process key task = .ok s') : s'.Laden net where
  edges _ _ hlive := h.edge ha hnetwork hq (hlive.origin hq hp)
  machines _ _ hm := h.equipped hp hm

end Laden

/-! ## Runs -/

/-- In every reached simulation the messages under way are on edges. -/
theorem laden_of_ran (hb : Topology.build l = .ok net.topology)
    (ha : net.applications = .ofList apps) (h : Ran net seed history s) : s.Laden net := by
  refine invariant_of_ran (P := fun _ s => s.Laden net) h ?create (fun ih hs _ _ => ih.still hs)
    ?start fun h ih hq hp => ih.step ha (intact_of_ran hb h).arranged.network hq hp
  case create =>
    refine ⟨fun d message hlive => hlive.not_create.elim, fun d m hm => ?_⟩
    obtain ⟨dev, hdev, rfl, rfl⟩ := machine?_create hm
    refine ⟨dev, (Layout.forest_of_build hb).device?_eq hdev, rfl, ?_⟩
    rw [Machine.ofDevice]
    cases dev.role.orchestrates <;> rfl
  case start =>
    intro history s s' bookings _ _ ih hbooks hopening
    refine ⟨fun d message hlive => ih.edges d message (hlive.of_start hbooks hopening), ?_⟩
    intro d m hm
    rw [machine?, hbooks.machines] at hm
    exact ih.machines d m hm

/-- A message that waits at a device for a link is on its way over this link. -/
structure Lined (net : Network) (d : DeviceId) (kind : LinkKind) (w : Waiting) (goal : DeviceId) :
    Prop where
  bound : w.message.destinationDevice = some goal
  hop : net.topology.HopsTo goal d w.target
  link : ∃ link, net.topology.link? d w.target = some link ∧ link.kind = kind
    ∧ link.latency = w.latency

/-- What dispatch hands to a link is on its way over it. -/
theorem lined_of_handed? {m : Machine} {kind : LinkKind} {w : Waiting}
    (h : m.handed? net message = some (kind, w)) : ∃ goal, Lined net m.id kind w goal := by
  obtain ⟨_, goal, link, haddressed, hne, hnext, hlink, hkind, hlatency⟩ :=
    Machine.handed?_cases h
  exact ⟨goal, (Machine.bound_of_addressed? haddressed).1, ⟨Ne.symm hne, hnext⟩, link, hlink,
    hkind, hlatency⟩

/-- What waits for a link was handed to it, so it is on its way over it. -/
theorem lined_of_ran (hb : Topology.build l = .ok net.topology) (h : Ran net seed history s)
    {kind : LinkKind} {w : Waiting} (hw : w ∈ (s.linkQueue d kind).waiting) :
    ∃ goal, Lined net d kind w goal := by
  have hd : s.Disciplined history d kind := disciplined_of_ran h
  have hmem : w ∈ handed history d kind := by
    rw [hd.handed]
    exact List.mem_append_right _ hw
  obtain ⟨x, hx, hw⟩ := List.mem_filterMap.mp hmem
  obtain ⟨_, hran, _⟩ := h.mem hx
  have harranged := (intact_of_ran hb hran).arranged
  unfold Step.handed? at hw
  split at hw
  · next event _ =>
    split at hw
    · obtain ⟨m, hm, hw⟩ := Option.bind_eq_some_iff.mp hw
      rw [harranged.network] at hw
      cases event with
      | messageArrived message =>
        obtain ⟨⟨kind', w⟩, hhanded, rfl⟩ := Option.map_eq_some_iff.mp hw
        obtain ⟨hhanded, hkind⟩ := Option.filter_eq_some_iff.mp hhanded
        rw [show kind' = kind from beq_iff_eq.mp hkind] at hhanded
        exact harranged.id d m hm ▸ lined_of_handed? hhanded
      | _ => cases hw
    · cases hw
  · cases hw

/-- The interval of a sensor is not zero: setup refuses such sensors. -/
theorem interval_of_ran (h : Ran net seed history s) {id : SensorId} {x : Sensor}
    (hx : s.sensors.get? id = some x) : x.interval ≠ 0 := by
  induction h with
  | create =>
    rw [create, SortedMap.get?_empty] at hx
    cases hx
  | @sensor _ s _ sensor _ hs ih =>
    obtain ⟨m, m', hplace, _, rfl⟩ := addSensor_ok_cases hs
    rw [SortedMap.get?_insert] at hx
    split at hx
    · rw [← Option.some.inj hx]
      intro hzero
      simp only [placeForSensor, hzero, if_true] at hplace
      split at hplace <;> cases hplace
    · exact ih hx
  | actuator _ hs ih =>
    obtain ⟨_, _, m, hm, rfl⟩ := addActuator_ok_cases hs
    exact ih hx
  | start _ hs ih => exact ih ((start_sameSetup hs).2 ▸ hx)
  | step _ _ hp ih => exact ih ((process_sameSetup hp).2 ▸ hx)
  | settle stop _ ih => exact ih hx

end Simulation

end FogNet
