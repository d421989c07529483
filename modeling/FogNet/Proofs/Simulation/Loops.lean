import FogNet.Proofs.Simulation.Roots

/-!
# Loops and the ways of messages

A message that reaches an actuator came there on some way: a sensor emitted its root, and on the
stops of the way instances answered, each on an edge of the application. Its ledger names these
stops. A sample is taken for every loop that ends at the actuator, whichever way the message came,
so a loop can be measured on messages that never went round it. That does not happen where all ways
to the end of the loop go round it.

## Main statements

* `follows_of_ran` — the ledger of every message under way names its stops
* `posted_of_ran` — an actuator at a device has the application and the type it was attached with
* `samples_routed` — the loops that samples are taken for, and when they were closed
-/

namespace FogNet

/-! ## Ways through an application -/

namespace Application

variable {app : Application} {e : Edge} {stops : List Name} {last : Name}

/-- The ways that messages take through an application: where they stopped, and on which edge. -/
inductive Route (app : Application) : List Name → Edge → Prop
  | sensed {tupleType : TupleType} {e : Edge} : app.sensorEdge? tupleType = some e → Route app [] e
  | answered {stops : List Name} {e e' : Edge} : Route app stops e →
      app.Answers e.destination e.tupleType e' → Route app (stops ++ [e.destination]) e'

/-- All ways to the end of a loop go round the loop, from its second element to the last but one. -/
def OnlyWay (app : Application) (loop : List Name) : Prop :=
  ∀ stops e, app.Route stops e → e.outputDirection = .actuator →
    loop.getLast? = some e.destination → stops = loop.tail.dropLast

theorem mem_loopsEndingAt {i : LoopId} :
    i ∈ app.loopsEndingAt last
      ↔ ∃ loop, app.loops[i]? = some loop ∧ loop.getLast? = some last := by
  simp only [loopsEndingAt, numberedLoops, List.mem_map, List.mem_filter, beq_iff_eq, Prod.exists,
    exists_and_right, exists_eq_right]
  constructor
  · rintro ⟨loop, hmem, hlast⟩
    obtain ⟨j, hj, he⟩ := List.mem_mapIdx.mp hmem
    obtain ⟨rfl, rfl⟩ := Prod.mk.inj he
    exact ⟨_, List.getElem?_eq_getElem hj, hlast⟩
  · rintro ⟨loop, hloop, hlast⟩
    obtain ⟨hi, rfl⟩ := List.getElem?_eq_some_iff.mp hloop
    exact ⟨_, List.mem_mapIdx.mpr ⟨i, hi, rfl⟩, hlast⟩

end Application

/-- Where a message was processed, in this order. -/
def Message.stops (message : Message) : List Name := message.traversed.map Prod.snd

/-- The message of a sample went round the loop that the sample is taken for. -/
def Sample.Closes (net : Network) (z : Sample) : Prop :=
  ∃ app loop, net.application? z.loop.app = some app ∧ app.loops[z.loop.loop]? = some loop
    ∧ z.message.stops = loop.tail.dropLast

/-! ## Actuators at devices -/

/-- Messages are handed to actuators of the device that take them. -/
theorem Machine.takes_of_handle {net : Network} {m m' : Machine} {message handed : Message}
    {actions : List Action} {id : ActuatorId}
    (h : (m.handle net (.messageArrived message)).value = some (actions, m'))
    (ha : .deliverToActuator id handed ∈ actions) :
    message.direction = .actuator ∧ ∃ a ∈ m.actuators, a.id = id ∧ a.takes message = true := by
  have h : (m.receive net message).value = some (actions, m') := h
  have hdirection : message.direction = .actuator := by
    obtain ⟨counted, rest, rfl, hcounted, hrest⟩ := dispatched_of_receive h
    rcases List.mem_append.mp ha with ha | ha
    · cases hcounted _ ha
    · exact (deliver_of_dispatched hrest ha).2
  refine ⟨hdirection, ?_⟩
  unfold receive at h
  split at h
  · simp only [Recorded.value_bind, Recorded.value_pure, Option.bind_eq_some_iff, Option.some.injEq,
      Prod.mk.injEq] at h
    obtain ⟨_, hactuate, rfl, _⟩ := h
    unfold actuate at hactuate
    split at hactuate
    · rw [drop_value, Option.some.injEq] at hactuate
      rw [← hactuate] at ha
      cases List.mem_singleton.mp ha
    · rw [Recorded.value_pure, Option.some.injEq] at hactuate
      rw [← hactuate] at ha
      obtain ⟨a, hmem, he⟩ := List.mem_map.mp ha
      obtain ⟨hmem, htakes⟩ := List.mem_filter.mp hmem
      exact ⟨a, hmem, (Action.deliverToActuator.inj he).1, htakes⟩
  · next hother => exact absurd hdirection hother

theorem Machine.actuators_of_effect {net : Network} {m m' : Machine} {event : Event}
    {actions : List Action} (h : m.Effect net event actions m') : m'.actuators = m.actuators := by
  cases h <;> rfl

namespace Simulation

variable {net : Network} {seed : UInt64} {s s' : Simulation} {l : Layout} {history : List Step}
  {apps : List Application} {message : Message} {key : Key} {task : Task} {stops : List Name}

/-- What is attached to devices are actuators of the simulation. -/
def Posted (s : Simulation) : Prop :=
  ∀ d m, s.machine? d = some m → ∀ a ∈ m.actuators, ∃ x, s.actuators.get? a.id = some x
    ∧ x.app = a.app ∧ x.actuatorType = a.actuatorType

namespace Posted

/-- A machine may change in all but what is attached to it. -/
theorem insert (h : s.Posted) {d : DeviceId} {m m' : Machine} (hm : s.machine? d = some m)
    (hactuators : m'.actuators = m.actuators) :
    Posted { s with machines := s.machines.insert d m' } := by
  intro e m₁ hm₁ a ha
  rw [machine?, SortedMap.get?_insert] at hm₁
  split at hm₁
  · rw [← Option.some.inj hm₁, hactuators] at ha
    exact h d m hm a ha
  · exact h e m₁ hm₁ a ha

end Posted

/-- Nothing but the call that attaches an actuator has to do with what is attached. -/
theorem invariant_posted : Invariant Posted := by
  refine .of_setup (fun hs h => ?_) (fun {s _ x} hs h => ?_)
    (fun h _ hmachines _ hactuators d m hm => ?_)
    (fun h hm heffect => ?_)
  · obtain ⟨m, m', hplace, hregister, rfl⟩ := addSensor_ok_cases hs
    obtain ⟨_, hm⟩ := placeForSensor_ok_cases hplace
    obtain ⟨_, _, hactuators, _⟩ := registerClient_same hregister
    exact h.insert hm hactuators
  · obtain ⟨hnew, _, m, hm, rfl⟩ := addActuator_ok_cases hs
    have hknown {id : ActuatorId} {y : Actuator} (hy : s.actuators.get? id = some y) :
        (s.actuators.insert x.id x).get? id = some y := by
      rw [SortedMap.get?_insert_ne, hy]
      rintro rfl
      rw [SortedMap.contains_eq, hy] at hnew
      cases hnew
    intro d m₁ hm₁ a ha
    rw [machine?, SortedMap.get?_insert] at hm₁
    split at hm₁
    · rw [← Option.some.inj hm₁] at ha
      rcases List.mem_append.mp ha with ha | ha
      · obtain ⟨y, hy, hsame⟩ := h _ m hm a ha
        exact ⟨y, hknown hy, hsame⟩
      · rw [List.mem_singleton.mp ha]
        exact ⟨x, SortedMap.get?_insert_self _ _ _, rfl, rfl⟩
    · obtain ⟨y, hy, hsame⟩ := h d m₁ hm₁ a ha
      exact ⟨y, hknown hy, hsame⟩
  · rw [machine?, hmachines] at hm
    rw [hactuators]
    exact h d m hm
  · have hsame := Machine.actuators_of_effect heffect
    exact h.insert hm hsame

theorem posted_of_ran (h : Ran net seed history s) : s.Posted := by
  refine invariant_posted.ran (fun d m hm a ha => ?_) h
  obtain ⟨_, _, _, rfl⟩ := machine?_create hm
  exact absurd ha List.not_mem_nil

/-! ## Stops -/

/-- A message names no actuator, and is on an edge after some stops. -/
structure Follows (net : Network) (stops : List Name) (message : Message) (app : Application)
    (e : Edge) : Prop where
  edge : message.OnEdge net app e
  route : app.Route stops e
  unnamed : message.actuator = none
  direction : message.direction = .actuator → e.outputDirection = .actuator

/-- What sensors emit has not stopped anywhere. -/
theorem follows_of_emitted (ha : net.applications = .ofList apps) (hnetwork : s.network = net)
    {e : Emitted} (he : e ∈ Step.emitted ⟨s, key, task⟩) :
    ∃ app edge, Follows net e.message.stops e.message app edge := by
  obtain ⟨y, app, edge, _, _, happ, hedge, _, hmessage⟩ := Step.emitted_cases he
  rw [hnetwork] at happ
  rw [hmessage]
  refine ⟨app, edge, ⟨?_, List.mem_of_find?_eq_some hedge, rfl, rfl, rfl, rfl⟩, .sensed hedge, rfl,
    nofun⟩
  rw [Network.id_of_application? ha happ]
  exact happ

/-- An answer has stopped where what it answers was processed. -/
theorem follows_of_answer (ha : net.applications = .ofList apps) (hnetwork : s.network = net)
    {input output : Message} {app : Application} {e : Edge} (hinput : Follows net stops input app e)
    (hstops : input.stops = stops ++ [e.destination]) (hanswer : output ∈ s.outputs input) :
    ∃ app e, Follows net output.stops output app e := by
  obtain ⟨e', hanswers, hedge, id, rfl⟩ :=
    answer_of_mem_outputs ha hnetwork hinput.edge.registered hanswer
  rw [hinput.edge.destination, hinput.edge.tupleType] at hanswers
  refine ⟨app, e', hedge, ?_, rfl, fun h => h⟩
  rw [show (app.resultant input e' id).stops = input.stops from rfl, hstops]
  exact .answered hinput.route hanswers

/--
In every reached simulation the ledger of a message on its way names the stops of a way through its
application. While it is processed, it also names where that is.
-/
theorem follows_of_ran (hb : Topology.build l = .ok net.topology)
    (ha : net.applications = .ofList apps) (h : Ran net seed history s) :
    s.Carries (fun message => ∃ app e, Follows net message.stops message app e)
      (fun message => ∃ app e stops, Follows net stops message app e
        ∧ message.stops = stops ++ [e.destination]) := by
  refine invariant_of_ran (P := fun _ s => s.Carries _ _) h (.create net seed)
    (fun ih hs _ _ => ih.still hs) (fun _ _ ih hbooks hopening => ih.start hbooks hopening)
    fun h ih hq hp => ?_
  have hnetwork := (intact_of_ran hb h).arranged.network
  refine ih.step hq hp (fun e he => follows_of_emitted ha hnetwork he) ?_ ?_ ?_
  · rintro input output ⟨app, e, stops, hinput, hstops⟩ hanswer
    exact follows_of_answer ha hnetwork hinput hstops hanswer
  · rintro m d message addressed ⟨app, e, hfollows⟩ haddressed
    have hedge := hfollows.edge.addressed haddressed
    rw [(Machine.bound_of_addressed? haddressed).2] at hedge ⊢
    exact ⟨app, e, hedge, hfollows.route, hfollows.unnamed, hfollows.direction⟩
  · rintro message target d ⟨app, e, hfollows⟩
    refine ⟨app, e, message.stops, ⟨hfollows.edge.processed target d, hfollows.route,
      hfollows.unnamed, hfollows.direction⟩, ?_⟩
    rw [← hfollows.edge.destination]
    exact List.map_append

/-! ## Samples -/

/-- The actuator that takes the message of a sample has the type that is its destination. -/
theorem Step.Takes.destination {x : Step} {z : Sample} (h : x.Takes net z)
    (hposted : x.before.Posted) (hunnamed : z.message.actuator = none) :
    z.message.direction = .actuator ∧ z.actuator.actuatorType = z.message.destination := by
  obtain ⟨id, hdelivered, hactuator⟩ := h.delivered
  unfold Step.actions at hdelivered
  split at hdelivered
  · cases hdelivered
  · next m hm =>
    split at hdelivered
    · cases hdelivered
    · next actions m' hv =>
      obtain ⟨hdirection, a, ha, rfl, htakes⟩ := Machine.takes_of_handle hv hdelivered
      obtain ⟨y, hy, _, htype⟩ := hposted _ m hm a ha
      rw [hactuator, Option.some.injEq] at hy
      rw [AttachedActuator.takes, hunnamed] at htakes
      simp only [Bool.and_eq_true, beq_iff_eq] at htakes
      exact ⟨hdirection, hy ▸ htype.trans htakes.2⟩

/-- A sample is taken for every loop that ends at the actuator. -/
theorem Step.mem_samples_of_ends {x : Step} {z : Sample} (hz : z ∈ x.samples) {i : LoopId}
    {app : Application} (happ : x.before.network.application? z.message.app = some app)
    (hi : i ∈ app.loopsEndingAt z.actuator.actuatorType) :
    { z with loop := ⟨app.id, i⟩ } ∈ x.samples := by
  unfold Step.samples at hz ⊢
  split at hz
  · obtain ⟨a, ha, hz⟩ := List.mem_flatMap.mp hz
    obtain ⟨id, _, rfl, hactuator, _, _, _, htaken⟩ := mem_samples.mp hz
    exact List.mem_flatMap.mpr ⟨_, ha,
      mem_samples.mpr ⟨id, app, rfl, hactuator, happ, rfl, hi, htaken⟩⟩
  · cases hz

/--
A sample is taken from a message to actuators, for a loop of its application that ends where the
message goes to. The ledger of the message names the stops of a way through the application that
ends there. Samples are taken from it for all loops that end there. If all ways to the end of the
loop go round it, then the message went round the loop.
-/
theorem samples_routed (hb : Topology.build l = .ok net.topology)
    (ha : net.applications = .ofList apps) (h : Ran net seed history s) {x : Step}
    (hx : x ∈ history) {z : Sample} (hz : z ∈ x.samples) : ∃ app loop e,
      net.application? z.message.app = some app ∧ z.loop.app = app.id
      ∧ app.loops[z.loop.loop]? = some loop ∧ z.message.direction = .actuator
      ∧ loop.getLast? = some z.message.destination
      ∧ z.message.OnEdge net app e ∧ app.Route z.message.stops e
      ∧ (∀ i other, app.loops[i]? = some other →
          other.getLast? = some z.message.destination → { z with loop := ⟨app.id, i⟩ } ∈ x.samples)
      ∧ (app.OnlyWay loop → z.Closes net) := by
  have htakes := takes_of_mem hb h hx hz
  obtain ⟨_, hran, hq, _⟩ := h.mem hx
  obtain ⟨app, e, hfollows⟩ :=
    (follows_of_ran hb ha hran).arriving _ (Queue.mem_of_first hq) _ htakes.arrived
  obtain ⟨hdirection, htype⟩ := htakes.destination (posted_of_ran hran) hfollows.unnamed
  obtain ⟨_, happ, hid, hloop⟩ := htakes.loop
  rw [hfollows.edge.registered, Option.some.injEq] at happ
  subst happ
  rw [htype] at hloop
  obtain ⟨loop, hloop, hlast⟩ := Application.mem_loopsEndingAt.mp hloop
  refine ⟨app, loop, e, hfollows.edge.registered, hid, hloop, hdirection, hlast, hfollows.edge,
    hfollows.route, fun i other hother hends => ?_, fun honly => ?_⟩
  · rw [← htype] at hends
    refine Step.mem_samples_of_ends hz ?_ (Application.mem_loopsEndingAt.mpr ⟨other, hother, hends⟩)
    rw [(intact_of_ran hb hran).arranged.network]
    exact hfollows.edge.registered
  · refine ⟨app, loop, ?_, hloop, honly _ e hfollows.route ?_ (hfollows.edge.destination ▸ hlast)⟩
    · rw [hid, Network.id_of_application? ha hfollows.edge.registered]
      exact hfollows.edge.registered
    · exact hfollows.direction hdirection

/--
The lamp of the phone shines for the first time when a message comes straight from the client. A
sample is taken from it for the second loop too, although the message never went past the other
module, which belongs to this loop.
-/
theorem not_closes_lamp : ∃ (s : Simulation) (x : Step) (z : Sample),
    Ran (lampNetwork lamp) 0 ((lampStart lamp).stepsUntil (Duration.ofMillis 606) 60) s
    ∧ x ∈ (lampStart lamp).stepsUntil (Duration.ofMillis 606) 60 ∧ z ∈ x.samples
    ∧ z.loop = ⟨"a", 1⟩ ∧ s.statistics.loopLatency.contains ⟨"a", 1⟩ = true
    ∧ z.message.stops = ["client"] ∧ ¬ z.Closes (lampNetwork lamp) := by
  obtain ⟨s, hs, hrecorded⟩ := exists_of_finishesWith
    (p := fun s => s.statistics.loopLatency.contains ⟨"a", 1⟩)
    (show finishesWith _ ((lampStart lamp).runUntil (Duration.ofMillis 606) 60) = true by
      decide +kernel)
  obtain ⟨x, hx, hsampled⟩ := List.any_eq_true.mp
    (show ((lampStart lamp).stepsUntil (Duration.ofMillis 606) 60).any
        (fun x => x.samples.any fun z => z.loop = ⟨"a", 1⟩ ∧ z.message.stops = ["client"]) = true by
      decide +kernel)
  obtain ⟨z, hz, hsampled⟩ := List.any_eq_true.mp hsampled
  obtain ⟨hloop, hstops⟩ := of_decide_eq_true hsampled
  refine ⟨s, x, z, ran_of_runUntil (ran_lampStart lamp) hs, hx, hz, hloop, hrecorded, hstops, ?_⟩
  rintro ⟨app, loop, happ, hfound, hcloses⟩
  rw [hloop] at happ hfound
  obtain rfl : lamp = app := Option.some.inj happ
  obtain rfl : ["t", "client", "m", "client", "lamp"] = loop := Option.some.inj hfound
  rw [hstops] at hcloses
  exact absurd hcloses (by decide)

/-- The client of this application lets the lamp shine, and does no more. -/
def plainLamp : Application :=
  { id := "a", user := 1
    microservices := [⟨"client", 10, 0, 0, [⟨"t", "s", .ofFloat 1.0⟩]⟩]
    edges := [.ofSensor "t" "client" 1 1000, .toActuator "client" "lamp" "s" 1 1000]
    loops := [["t", "client", "lamp"]] }

/-- Messages come from the sensor, or have stopped at the client once. -/
theorem route_plainLamp {stops : List Name} {e : Edge} (h : plainLamp.Route stops e) :
    (stops = [] ∧ e = .ofSensor "t" "client" 1 1000)
      ∨ (stops = ["client"] ∧ e = .toActuator "client" "lamp" "s" 1 1000) := by
  have hedges {e : Edge} (he : e ∈ plainLamp.edges) :
      e = .ofSensor "t" "client" 1 1000 ∨ e = .toActuator "client" "lamp" "s" 1 1000 := by
    simpa [plainLamp] using he
  induction h with
  | sensed he =>
    have hsensor := List.find?_some he
    rcases hedges (List.mem_of_find?_eq_some he) with rfl | rfl
    · exact Or.inl ⟨rfl, rfl⟩
    · cases hsensor
  | answered _ hanswers ih =>
    have hsource := hanswers.source
    rcases ih with ⟨rfl, rfl⟩ | ⟨rfl, rfl⟩ <;> rcases hedges hanswers.edge with rfl | rfl
    · exact absurd hsource (by decide)
    · exact Or.inr ⟨rfl, rfl⟩
    · exact absurd hsource (by decide)
    · exact absurd hsource (by decide)

theorem onlyWay_plainLamp : plainLamp.OnlyWay ["t", "client", "lamp"] := by
  intro stops e hroute hactuator _
  rcases route_plainLamp hroute with ⟨_, rfl⟩ | ⟨rfl, _⟩
  · cases hactuator
  · rfl

/-- Only one way leads to the plain lamp, so its loop is measured on messages that went round it. -/
theorem samples_routed_plainLamp : ∃ (s : Simulation) (x : Step) (z : Sample),
    Ran (lampNetwork plainLamp) 0 ((lampStart plainLamp).stepsUntil (Duration.ofMillis 606) 60) s
    ∧ x ∈ (lampStart plainLamp).stepsUntil (Duration.ofMillis 606) 60 ∧ z ∈ x.samples
    ∧ z.loop = ⟨"a", 0⟩ ∧ z.message.direction = .actuator
    ∧ plainLamp.OnlyWay ["t", "client", "lamp"] ∧ z.Closes (lampNetwork plainLamp) := by
  obtain ⟨s, hs, _⟩ := exists_of_finishesWith (p := fun _ => true)
    (show finishesWith _ ((lampStart plainLamp).runUntil (Duration.ofMillis 606) 60) = true by
      decide +kernel)
  have hran : Ran (lampNetwork plainLamp) 0
      ((lampStart plainLamp).stepsUntil (Duration.ofMillis 606) 60) s :=
    ran_of_runUntil (ran_lampStart plainLamp) hs
  obtain ⟨x, hx, hsampled⟩ := List.any_eq_true.mp
    (show ((lampStart plainLamp).stepsUntil (Duration.ofMillis 606) 60).any
        (fun x => x.samples.any fun z => z.loop = ⟨"a", 0⟩ ∧ z.message.app = "a") = true by
      decide +kernel)
  obtain ⟨z, hz, hsampled⟩ := List.any_eq_true.mp hsampled
  obtain ⟨hloop, happ⟩ := of_decide_eq_true hsampled
  obtain ⟨app, loop, _, hregistered, _, hfound, hdirection, _, _, _, _, hcloses⟩ :=
    samples_routed build_phone
      (show (lampNetwork plainLamp).applications = .ofList [plainLamp] from rfl) hran hx hz
  rw [happ] at hregistered
  rw [hloop] at hfound
  obtain rfl : plainLamp = app := Option.some.inj hregistered
  obtain rfl : ["t", "client", "lamp"] = loop := Option.some.inj hfound
  exact ⟨s, x, z, hran, hx, hz, hloop, hdirection, onlyWay_plainLamp, hcloses onlyWay_plainLamp⟩

end Simulation

end FogNet
