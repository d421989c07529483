import FogNet.Proofs.Simulation.Directories
import FogNet.Proofs.Simulation.Replies
import FogNet.Proofs.Topology.Path

/-!
# The journeys of messages

Each device on the way of a message decides by its own row of the routing table where the message
goes next, and between two devices the message waits for links and passes the queue. All the same
the devices that it comes to are those of the path that the topology answers for the device where
its destination was found and this destination: every hop is the one towards the destination, and
the latencies of the links that it was put on are what the distance has lost since then.

## Main statements

* `Arriving.handled`, `Bound.departs` — what a device, and what a link, adds to a journey
* `Journeying.step`, `journeying_of_ran` — every message is on its journey, along every run
* `Journey.ends` — how journeys end
* `messages_follow_paths` — a message comes to the devices of its path, in this order
-/

namespace FogNet

open List (Perm)

/-- Hops from one device towards a goal are the beginning of the hops that reach it. -/
theorem Topology.prefix_of_hops {t : Topology} {goal : DeviceId} : ∀ {a : DeviceId}
    {q p : List DeviceId}, (a :: q).IsChain (t.HopsTo goal) → (a :: p).IsChain (t.HopsTo goal) →
      (a :: p).getLast? = some goal → a :: q <+: a :: p
  | a, [], p, _, _, _ => ⟨p, rfl⟩
  | a, b :: q, [], hq, _, hlast => by
    obtain rfl : a = goal := by simpa using hlast
    exact ((List.isChain_cons_cons.mp hq).1.goal_false).elim
  | a, b :: q, c :: p, hq, hp, hlast => by
    obtain ⟨hb, hq⟩ := List.isChain_cons_cons.mp hq
    obtain ⟨hc, hp⟩ := List.isChain_cons_cons.mp hp
    obtain rfl := hopsTo_rightUnique t goal hb hc
    exact (List.prefix_cons_inj a).mpr (prefix_of_hops hq hp (by simpa using hlast))

/-- Hops to a goal end where they meet it. -/
theorem Topology.last_of_hops {t : Topology} {goal : DeviceId} : ∀ {q : List DeviceId},
    q.IsChain (t.HopsTo goal) → goal ∈ q → q.getLast? = some goal
  | [_], _, hgoal => congrArg some (List.mem_singleton.mp hgoal).symm
  | a :: b :: q, hq, hgoal => by
    obtain ⟨hhop, hq⟩ := List.isChain_cons_cons.mp hq
    have hne : goal ≠ a := Ne.symm hhop.1
    rw [List.getLast?_cons_cons]
    exact last_of_hops hq ((List.mem_cons.mp hgoal).resolve_left hne)

/-- Along hops that reach a goal there is a link towards it everywhere. -/
theorem Topology.link_of_hops {l : Layout} {t : Topology} (hb : build l = .ok t) {goal : DeviceId} :
    ∀ {q : List DeviceId}, q.IsChain (t.HopsTo goal) → q.getLast? = some goal → ∀ d ∈ q,
      goal ≠ d → ∃ hop k, t.nextHop d goal = .ok hop ∧ t.link? d hop = some k
  | [a], _, hlast, d, hd, hne => by
    obtain rfl : a = goal := by simpa using hlast
    exact absurd (List.mem_singleton.mp hd).symm hne
  | a :: b :: q, hq, hlast, d, hd, hne => by
    obtain ⟨hhop, hq⟩ := List.isChain_cons_cons.mp hq
    rcases List.mem_cons.mp hd with rfl | hd
    · obtain ⟨k, _, hk, _⟩ := hhop.distance hb
      exact ⟨b, k, hhop.2, hk⟩
    · exact link_of_hops hb hq (by rwa [List.getLast?_cons_cons] at hlast) d hd hne

namespace Simulation

variable {net : Network} {seed : UInt64} {s s' : Simulation} {l : Layout} {history : List Step}
  {apps : List Application} {bookings : List Booking} {key : Key} {task : Task}

/-! ## What a history tells of a message -/

namespace Step

/-- Whether the message arrived. -/
def brings (x : Step) (id : MessageId) : Bool := x.task.arriving? == some id

/--
The device that a message that arrived is bound for, and the message then. A message to actuators
is bound for none.
-/
def resolved? (x : Step) : Option (DeviceId × Message) :=
  match x.task with
  | .device (.messageArrived message) =>
    if message.direction = .actuator then none
    else (x.before.machine? x.key.device).bind fun m => m.addressed? message
  | _ => none

/-- A message arrived that was bound for no device yet, or for this one. -/
def Begins (x : Step) : Prop := ∃ message, x.task = .device (.messageArrived message)
  ∧ (message.destinationDevice = none ∨ message.destinationDevice = some x.key.device)

/-- What was put on links. -/
def departing (x : Step) : List Waiting :=
  match x.task with
  | .device event => (x.actions event).filterMap Action.travelling?
  | _ => []

/-- The latencies of the links that the message was put on. -/
def propagations (x : Step) (id : MessageId) : List Duration :=
  (x.departing.filter fun w => w.message.id == id).map Waiting.latency

theorem resolved?_cases {x : Step} {d : DeviceId} {resolved : Message}
    (h : x.resolved? = some (d, resolved)) : ∃ message m,
      x.task = .device (.messageArrived message) ∧ message.direction ≠ .actuator
        ∧ x.before.machine? x.key.device = some m ∧ m.addressed? message = some (d, resolved) := by
  unfold resolved? at h
  split at h
  · next message ht =>
    split at h
    · cases h
    · next hdirection =>
      obtain ⟨m, hm, haddressed⟩ := Option.bind_eq_some_iff.mp h
      exact ⟨message, m, ht, hdirection, hm, haddressed⟩
  · cases h

end Step

/-- The steps in which a message arrived. -/
def arrivals (history : List Step) (id : MessageId) : List Step :=
  history.filter fun x => x.brings id

/-- The latencies of the links that a message was put on. -/
def propagations (history : List Step) (id : MessageId) : List Duration :=
  history.flatMap fun x => x.propagations id

theorem arrivals_append (history : List Step) (x : Step) (id : MessageId) :
    arrivals (history ++ [x]) id
      = arrivals history id ++ if x.task.arriving? = some id then [x] else [] := by
  rw [arrivals, List.filter_append, arrivals]
  by_cases h : x.task.arriving? = some id <;> simp [Step.brings, h]

theorem propagations_append (history : List Step) (x : Step) (id : MessageId) :
    propagations (history ++ [x]) id = propagations history id ++ x.propagations id := by
  rw [propagations, List.flatMap_append, List.flatMap_singleton, propagations]

/-! ## Journeys -/

/--
A message that is bound for the device `goal` was handled at devices, each the next hop of the one
before, and at `last` at last. On the way it stayed what it was when its destination was found. The
latencies of the links that it was put on are what the distance has lost, so that `rest` is left.
-/
structure Journey (net : Network) (visits : List Step) (sent : List Duration) (message : Message)
    (goal last : DeviceId) (rest : Duration) : Prop where
  first : ∃ x later, visits = x :: later ∧ x.resolved? = some (goal, message) ∧ x.Begins
    ∧ (∀ y ∈ later, y.task = .device (.messageArrived message))
    ∧ net.topology.distance? x.key.device goal = some (sumOf sent + rest)
  hops : (visits.map fun x => x.key.device).IsChain (net.topology.HopsTo goal)
  last : (visits.map fun x => x.key.device).getLast? = some last

/-- A message is about to arrive at a device: for the first time, or on its journey. -/
inductive Arriving (net : Network) (visits : List Step) (sent : List Duration) :
    DeviceId → Message → Prop
  | fresh {d : DeviceId} {message : Message} : visits = [] → sent = [] →
      (message.destinationDevice = none ∨ message.destinationDevice = some d) →
      Arriving net visits sent d message
  | hop {d goal last : DeviceId} {message : Message} {rest : Duration} :
      Journey net visits sent message goal last rest → net.topology.HopsTo goal last d →
      net.topology.distance? d goal = some rest → Arriving net visits sent d message

/-- A message on its journey, at a device that is about to put it on the link to the next hop. -/
def Bound (net : Network) (visits : List Step) (sent : List Duration) (d : DeviceId)
    (w : Waiting) : Prop :=
  ∃ goal rest link, Journey net visits sent w.message goal d rest
    ∧ net.topology.HopsTo goal d w.target ∧ net.topology.distance? d goal = some rest
    ∧ net.topology.link? d w.target = some link ∧ link.latency = w.latency

variable {visits : List Step} {sent : List Duration} {message : Message} {d goal last : DeviceId}
  {rest : Duration}

theorem Journey.bound (h : Journey net visits sent message goal last rest) :
    message.destinationDevice = some goal ∧ message.direction ≠ .actuator := by
  obtain ⟨x, _, _, hresolved, _⟩ := h.first
  obtain ⟨arrived, m, _, hdirection, _, haddressed⟩ := Step.resolved?_cases hresolved
  obtain ⟨hbound, hsame⟩ := Machine.bound_of_addressed? haddressed
  refine ⟨hbound, ?_⟩
  rw [hsame]
  exact hdirection

/-- A device that a message arrives at is the next one of its journey. -/
theorem Arriving.handled {x : Step} {addressed : Message}
    (h : Arriving net visits sent x.key.device message)
    (ht : x.task = .device (.messageArrived message)) (hr : x.resolved? = some (goal, addressed))
    (hroute : message.destinationDevice = none ∨ message.destinationDevice = some x.key.device →
      ∃ total, net.topology.distance? x.key.device goal = some total) :
    ∃ rest, Journey net (visits ++ [x]) sent addressed goal x.key.device rest
      ∧ net.topology.distance? x.key.device goal = some rest := by
  cases h with
  | fresh hvisits hsent hpreset =>
    obtain ⟨total, htotal⟩ := hroute hpreset
    rw [hvisits, hsent]
    refine ⟨total, ⟨⟨x, [], rfl, hr, ⟨message, ht, hpreset⟩, by simp, ?_⟩,
      List.isChain_singleton _, rfl⟩, htotal⟩
    rw [sumOf_nil, Nat.zero_add]
    exact htotal
  | @hop goal' _ _ _ hjourney hhop hrest =>
    obtain ⟨hbound, hdirection⟩ := hjourney.bound
    -- The destination was written on the message, so it is not looked for again.
    have hsame : goal = goal' ∧ addressed = message := by
      obtain ⟨arrived, m, ht', _, _, haddressed⟩ := Step.resolved?_cases hr
      obtain rfl : message = arrived := by
        rw [ht] at ht'
        exact Event.messageArrived.inj (Task.device.inj ht')
      rw [Machine.addressed?_of_bound hbound, Option.some.injEq, Prod.mk.injEq] at haddressed
      exact ⟨haddressed.1.symm, haddressed.2.symm⟩
    obtain ⟨rfl, rfl⟩ := hsame
    obtain ⟨x₀, later, rfl, hfirst, hbegins, hlater, htotal⟩ := hjourney.first
    refine ⟨_, ⟨⟨x₀, later ++ [x], rfl, hfirst, hbegins, ?_, htotal⟩, ?_, ?_⟩, hrest⟩
    · refine List.forall_mem_append.mpr ⟨hlater, fun y hy => ?_⟩
      rw [List.mem_singleton.mp hy, ht]
    · rw [List.map_append]
      refine List.isChain_append.mpr ⟨hjourney.hops, List.isChain_singleton _, fun a ha b hb => ?_⟩
      rw [hjourney.last] at ha
      obtain rfl := Option.some.inj ha
      obtain rfl := Option.some.inj hb
      exact hhop
    · rw [List.map_append]
      exact List.getLast?_concat

/-- What is put on the link to the next hop arrives there. -/
theorem Bound.departs (hb : Topology.build l = .ok net.topology) {w : Waiting}
    (h : Bound net visits sent d w) : ∃ goal rest,
      Journey net visits (sent ++ [w.latency]) w.message goal d rest
        ∧ net.topology.HopsTo goal d w.target
        ∧ net.topology.distance? w.target goal = some rest := by
  obtain ⟨goal, rest, link, hjourney, hhop, hrest, hlink, hlatency⟩ := h
  obtain ⟨k, left, hk, hleft, hsum⟩ := hhop.distance hb
  rw [hlink] at hk
  obtain rfl := Option.some.inj hk
  rw [hrest, Option.some.injEq, hlatency] at hsum
  refine ⟨goal, left, ⟨?_, hjourney.hops, hjourney.last⟩, hhop, hleft⟩
  obtain ⟨x, later, hvisits, hfirst, hbegins, hlater, htotal⟩ := hjourney.first
  refine ⟨x, later, hvisits, hfirst, hbegins, hlater, ?_⟩
  rw [htotal, sumOf_append, sumOf_cons, sumOf_nil, hsum]
  simp only [Nat.add_zero, Nat.add_assoc]

/-- At the destination there is no distance left. -/
theorem rest_of_goal (hb : Topology.build l = .ok net.topology)
    (h : net.topology.distance? goal goal = some rest) : rest = 0 := by
  obtain ⟨hsame, _⟩ := Topology.latencyAlong_hops (q := []) hb (List.isChain_singleton goal) rfl
    ⟨rest, h⟩
  exact Option.some.inj (h.symm.trans hsame)

/-! ## Steps -/

/-- Every message is on its journey, and the messages to come are new. -/
structure Journeying (net : Network) (history : List Step) (s : Simulation) : Prop where
  arriving : ∀ e ∈ s.queue.entries, ∀ message, e.2 = .device (.messageArrived message) →
    Arriving net (arrivals history message.id) (propagations history message.id) e.1.device message
  waiting : ∀ d m, s.machine? d = some m → ∀ w ∈ m.outbound.waits,
    Bound net (arrivals history w.message.id) (propagations history w.message.id) d w
  told : ∀ id x later goal resolved, arrivals history id = x :: later →
    x.resolved? = some (goal, resolved) →
    ∃ last rest, Journey net (x :: later) (propagations history id) resolved goal last rest
      ∧ (last = goal → rest = 0)
  numbered : ∀ id, s.lastMessage < id → arrivals history id = [] ∧ propagations history id = []

namespace Journeying

theorem still (h : s.Journeying net history) (hs : s.Still s')
    (hlast : s.lastMessage ≤ s'.lastMessage) : s'.Journeying net history := by
  refine ⟨fun e he => h.arriving e (hs.queue e he), fun d m' hm' w hw => ?_, h.told,
    fun id hid => h.numbered id (Nat.lt_of_le_of_lt hlast hid)⟩
  obtain ⟨m, hm, houtbound, _⟩ := hs.machine d m' hm'
  rw [houtbound] at hw
  exact h.waiting d m hm w hw

/-- New messages begin their journeys where they are scheduled to arrive. -/
theorem books (h : s.Journeying net history) (hb : s.Books s' bookings)
    (hlast : s.lastMessage ≤ s'.lastMessage)
    (hnew : ∀ b ∈ bookings, ∀ message, b.task = .device (.messageArrived message) →
      s.lastMessage < message.id
        ∧ (message.destinationDevice = none ∨ message.destinationDevice = some b.device)) :
    s'.Journeying net history := by
  refine ⟨fun e he message ht => ?_, fun d m hm => ?_, h.told,
    fun id hid => h.numbered id (Nat.lt_of_le_of_lt hlast hid)⟩
  · rcases hb.mem he with ⟨b, hmem, _, _, rfl⟩ | he
    · obtain ⟨hid, hpreset⟩ := hnew b hmem message ht
      obtain ⟨harrivals, hpropagations⟩ := h.numbered message.id hid
      exact .fresh harrivals hpropagations hpreset
    · exact h.arriving e he message ht
  · rw [machine?, hb.machines] at hm
    exact h.waiting d m hm

/-- A step may pass in which no message arrives or is put on a link. -/
theorem pass (h : s.Journeying net history) {x : Step} (harriving : x.task.arriving? = none)
    (hdeparting : x.departing = []) : s.Journeying net (history ++ [x]) := by
  have hsame (id : MessageId) : arrivals (history ++ [x]) id = arrivals history id
      ∧ propagations (history ++ [x]) id = propagations history id := by
    rw [arrivals_append, propagations_append, harriving, Step.propagations, hdeparting]
    simp
  constructor
  · intro e he message ht
    rw [(hsame message.id).1, (hsame message.id).2]
    exact h.arriving e he message ht
  · intro d m hm w hw
    rw [(hsame w.message.id).1, (hsame w.message.id).2]
    exact h.waiting d m hm w hw
  · intro id x later goal resolved hx
    rw [(hsame id).1] at hx
    rw [(hsame id).2]
    exact h.told id x later goal resolved hx
  · intro id hid
    rw [(hsame id).1, (hsame id).2]
    exact h.numbered id hid

end Journeying

/-! ### The places of messages -/

/-- A machine stands for a device of the network. -/
theorem contains_of_machine? (h : Ran net seed history s)
    {d : DeviceId} {m : Machine} (hm : s.machine? d = some m) :
    net.topology.contains d = true := by
  induction h generalizing m with
  | create =>
    obtain ⟨dev, hdev, rfl, _⟩ := machine?_create hm
    exact Layout.contains_iff.mpr (Layout.mem_ids.mpr ⟨dev, hdev, rfl⟩)
  | sensor _ hs ih =>
    obtain ⟨_, hm, _⟩ := (addSensor_still hs).machine d m hm
    exact ih hm
  | actuator _ hs ih =>
    obtain ⟨_, hm, _⟩ := (addActuator_still hs).machine d m hm
    exact ih hm
  | start _ hs ih =>
    obtain ⟨_, hbooks, _⟩ := start_books hs
    rw [machine?, hbooks.machines] at hm
    exact ih hm
  | @step _ s s₁ key task _ _ hp ih =>
    have hold {machines : SortedMap DeviceId Machine} {bookings : List Booking}
        (hb : Books { s.take key task with machines } s₁ bookings)
        (hmachines : ∀ m, machines.get? d = some m → ∃ m, s.machine? d = some m) :
        net.topology.contains d = true := by
      rw [machine?, hb.machines] at hm
      obtain ⟨_, hm⟩ := hmachines m hm
      exact ih hm
    cases task with
    | sensorTick id =>
      obtain ⟨_, hbooks, _⟩ := tick_books hp
      exact hold hbooks fun m hm => ⟨m, hm⟩
    | executionCompleted target message =>
      rw [← Except.ok.inj hp] at hold
      exact hold (complete_books _ target message) fun m hm => ⟨m, hm⟩
    | device event =>
      rcases happen_books hp with ⟨_, rfl⟩ | ⟨m₁, _, m', hm₁, _, hbooks⟩
      · exact ih hm
      · refine hold hbooks fun m hm => ?_
        have hm : (s.machines.insert key.device m').get? d = some m := hm
        rw [SortedMap.get?_insert] at hm
        split at hm
        · next hd => exact ⟨m₁, hd ▸ hm₁⟩
        · exact ⟨m, hm⟩
  | settle stop _ ih => exact ih hm

/-- From where the destination of a message is found there is a route to it. -/
theorem route_of_addressed (hb : Topology.build l = .ok net.topology)
    (ha : net.applications = .ofList apps) (h : Ran net seed history s)
    (hq : s.queue.first? = some (key, .device (.messageArrived message))) {m : Machine}
    (hm : s.machine? key.device = some m) {addressed : Message}
    (haddressed : m.addressed? message = some (goal, addressed))
    (hpreset : message.destinationDevice = none ∨ message.destinationDevice = some key.device) :
    ∃ total, net.topology.distance? key.device goal = some total := by
  have hids : key.device ∈ net.topology.ids :=
    Layout.contains_iff.mp (contains_of_machine? h hm)
  have hjoined (hj : net.topology.Joined key.device goal) :
      ∃ total, net.topology.distance? key.device goal = some total :=
    Topology.nextHop_ok_iff.mp (Topology.exists_nextHop hb hids hj)
  rcases Machine.addressed?_cases haddressed with ⟨hbound, _⟩ | ⟨_, ⟨turns, hr⟩, _⟩
  · rcases hpreset with hnone | hhere
    · rw [hnone] at hbound
      cases hbound
    · rw [hhere] at hbound
      obtain rfl := Option.some.inj hbound
      exact hjoined (.refl _ _)
  · rcases Machine.resolve_some_cases hr with ⟨_, hhost⟩ | ⟨hdown, _⟩
    · obtain ⟨⟨name, host⟩, hmem, rfl⟩ := List.mem_map.mp hhost
      obtain ⟨_, hhop⟩ := truthful_of_ran hb ha h key.device name host
        (.known hm (List.mem_filter.mp hmem).1)
      exact Topology.nextHop_ok_iff.mp hhop
    · have htraced := traced_of_ran hb ha h key.device message
        (.queued (Queue.mem_of_first hq) rfl)
      obtain ⟨_, _, _, _, _, _, hj⟩ := htraced.pinned hdown haddressed
      exact hjoined hj

/-- An answer is a new message, and bound for no device yet. -/
theorem new_of_mem_outputs {output : Message} (h : output ∈ s.outputs message) :
    s.lastMessage < output.id ∧ output.destinationDevice = none := by
  unfold outputs at h
  split at h
  · cases h
  · next app _ =>
    constructor
    · have hid : output.id ∈ (app.resultants message.destination message (s.lastMessage + 1)
          s.generator).1.map Message.id := List.mem_map.mpr ⟨output, h, rfl⟩
      rw [resultants_ids] at hid
      exact (List.mem_range'_1.mp hid).1
    · unfold Application.resultants at h
      split at h
      · cases h
      · exact (inherit_of_mem_resultantsFrom h).2.2.2

/-- No message waits at two devices. -/
theorem waiting_apart (hn : s.waiting.Nodup) {d e : DeviceId} {m m' : Machine}
    (hm : s.machine? d = some m) (hm' : s.machine? e = some m') (hne : d ≠ e) {id : MessageId}
    (hid : id ∈ m.waiting) : id ∉ m'.waiting := by
  rw [waiting, SortedMap.values, List.flatMap_map, List.nodup_flatMap] at hn
  have : Std.Symm (Function.onFun List.Disjoint fun e : DeviceId × Machine => e.2.waiting) :=
    ⟨fun _ _ h => h.symm⟩
  exact List.disjoint_left.mp (hn.2.forall ((SortedMap.mem_entries_iff _ d m).mpr hm)
    ((SortedMap.mem_entries_iff _ e m').mpr hm') fun he => hne (congrArg Prod.fst he)) hid

/-- The messages that an event is about are at its device, and nowhere else. -/
theorem Intact.apart {ended : List (MessageId × Fate)} (h : s.Intact net ended) {event : Event}
    (hq : s.queue.first? = some (key, .device event)) {m : Machine}
    (hm : s.machine? key.device = some m) : (event.arriving?.toList ++ m.waiting).Nodup
      ∧ (∀ id ∈ event.arriving?.toList ++ m.waiting,
          id ≤ s.lastMessage ∧ id ∉ (s.take key (.device event)).queue.arriving)
      ∧ ∀ d m', s.machine? d = some m' → d ≠ key.device →
          ∀ id ∈ event.arriving?.toList ++ m.waiting, id ∉ m'.waiting := by
  have hsub {d : DeviceId} {m : Machine} (hm : s.machine? d = some m) :
      m.waiting.Sublist s.waiting :=
    List.sublist_flatten_of_mem (List.mem_map.mpr
      ⟨m, List.mem_map.mpr ⟨_, (SortedMap.mem_entries_iff _ d m).mpr hm, rfl⟩, rfl⟩)
  have hplaced := (h.conserved.take hq).placed
  have hwaiting : (s.take key (.device event)).waiting = s.waiting := rfl
  have hall := (List.nodup_append.mp (List.nodup_append.mp
    (hplaced.nodup_iff.mpr List.nodup_range')).1).1
  rw [hwaiting, show (Task.device event).arriving? = event.arriving? from rfl] at hall
  obtain ⟨hqueue, hmachines, hapart⟩ := List.nodup_append.mp hall
  obtain ⟨hheld, _, hfirst⟩ := List.nodup_append.mp hqueue
  refine ⟨List.nodup_append.mpr ⟨hheld, hmachines.sublist (hsub hm), fun id hid id' hid' =>
    hapart id (List.mem_append_left _ hid) id' ((hsub hm).subset hid')⟩, fun id hid => ⟨?_, ?_⟩,
    fun d m' hm' hne id hid hid' => ?_⟩
  · have hmem : id ∈ List.range' 1 s.lastMessage := by
      refine hplaced.mem_iff.mp (List.mem_append_left _ (List.mem_append_left _ ?_))
      rcases List.mem_append.mp hid with hid | hid
      · exact List.mem_append_left _ (List.mem_append_left _ hid)
      · exact List.mem_append_right _ ((hsub hm).subset hid)
    exact Nat.lt_one_add_iff.mp (List.mem_range'_1.mp hmem).2
  · intro harriving
    rcases List.mem_append.mp hid with hid | hid
    · exact hfirst id hid id harriving rfl
    · exact hapart id (List.mem_append_right _ harriving) id ((hsub hm).subset hid) rfl
  · rcases List.mem_append.mp hid with hid | hid
    · exact hapart id (List.mem_append_left _ hid) id ((hsub hm').subset hid') rfl
    · exact waiting_apart hmachines hm hm' (Ne.symm hne) hid hid'

namespace Journeying

/-! ### Events -/

variable {event : Event} {m : Machine}

/-- A message that arrives goes on with its journey, or begins it. -/
theorem visited (hb : Topology.build l = .ok net.topology) (ha : net.applications = .ofList apps)
    (h₀ : Ran net seed history s) (h : s.Journeying net history)
    (hq : s.queue.first? = some (key, .device (.messageArrived message))) {addressed : Message}
    (hr : Step.resolved? ⟨s, key, .device (.messageArrived message)⟩ = some (goal, addressed)) :
    ∃ rest, Journey net
        (arrivals (history ++ [⟨s, key, .device (.messageArrived message)⟩]) message.id)
        (propagations history message.id) addressed goal key.device rest
      ∧ net.topology.distance? key.device goal = some rest := by
  obtain ⟨arrived, m, ht, _, hm, haddressed⟩ := Step.resolved?_cases hr
  obtain rfl := Event.messageArrived.inj (Task.device.inj ht)
  have hbrings : (Task.device (.messageArrived message)).arriving? = some message.id := rfl
  rw [arrivals_append, if_pos hbrings]
  exact (h.arriving _ (Queue.mem_of_first hq) message rfl).handled rfl hr
    fun hpreset => route_of_addressed hb ha h₀ hq hm haddressed hpreset

/-- A message that was handled before is bound for a device. -/
theorem resolved?_of_visited (hb : Topology.build l = .ok net.topology)
    (h₀ : Ran net seed history s) (h : s.Journeying net history)
    (hq : s.queue.first? = some (key, .device (.messageArrived message)))
    (hvisits : arrivals history message.id ≠ []) :
    ∃ goal, Step.resolved? ⟨s, key, .device (.messageArrived message)⟩ = some (goal, message) := by
  have harriving := h.arriving _ (Queue.mem_of_first hq) message rfl
  cases harriving with
  | fresh hnone _ _ => exact absurd hnone hvisits
  | @hop goal _ _ _ hjourney _ _ =>
    obtain ⟨hbound, hdirection⟩ := hjourney.bound
    refine ⟨goal, ?_⟩
    cases hm : s.machine? key.device with
    | none => cases (intact_of_ran hb h₀).arriving?_of_none hq hm
    | some m =>
      rw [Step.resolved?]
      simp only [if_neg hdirection, hm, Option.bind_some]
      exact Machine.addressed?_of_bound hbound

/-- What waits at the device of an event, or is handed to a link there, is on its journey. -/
theorem bound (hb : Topology.build l = .ok net.topology) (ha : net.applications = .ofList apps)
    (h₀ : Ran net seed history s) (h : s.Journeying net history)
    (hq : s.queue.first? = some (key, .device event)) (hm : s.machine? key.device = some m)
    {now : Duration} {w : Waiting} (hw : w ∈ (Machine.handedAt? net { m with now } event).toList
      ++ m.outbound.waits) :
    w.message.id ∈ event.arriving?.toList ++ m.waiting
      ∧ Bound net (arrivals (history ++ [⟨s, key, .device event⟩]) w.message.id)
          (propagations history w.message.id) key.device w := by
  have hintact := intact_of_ran hb h₀
  have hid : m.id = key.device := hintact.arranged.id _ m hm
  rcases List.mem_append.mp hw with hw | hw
  · cases event with
    | messageArrived message =>
      obtain ⟨⟨_, w⟩, hhanded, rfl⟩ := Option.map_eq_some_iff.mp (Option.mem_toList.mp hw)
      obtain ⟨hdirection, goal, link, haddressed, hne, hnext, hlink, _, hlatency⟩ :=
        Machine.handed?_cases hhanded
      have hr : Step.resolved? ⟨s, key, .device (.messageArrived message)⟩
          = some (goal, w.message) := by
        rw [Step.resolved?]
        simp only [if_neg hdirection, hm, Option.bind_some]
        exact haddressed
      obtain ⟨rest, hjourney, hrest⟩ := h.visited hb ha h₀ hq hr
      have hmessage := Machine.arriving?_of_handedAt? (Option.mem_toList.mp hw)
      rw [← Option.some.inj hmessage]
      refine ⟨List.mem_append_left _ (Option.mem_toList.mpr rfl), goal, rest, link, hjourney,
        ⟨?_, ?_⟩, hrest, ?_, hlatency⟩
      · exact fun he => hne (he.symm.trans hid.symm)
      · rw [← hid]
        exact hnext
      · rw [← hid]
        exact hlink
    | _ => cases hw
  · have hmem : w.message.id ∈ m.waiting := List.mem_map.mpr ⟨w, hw, rfl⟩
    have harriving : (Task.device event).arriving? ≠ some w.message.id := by
      intro he
      obtain ⟨hnodup, _⟩ := hintact.apart hq hm
      exact (List.nodup_append.mp hnodup).2.2 _ (Option.mem_toList.mpr he) _ hmem rfl
    rw [arrivals_append, if_neg harriving, List.append_nil]
    exact ⟨List.mem_append_right _ hmem, h.waiting _ m hm w hw⟩

/-- What a history tells stays true when an event to a device is added. -/
theorem told_of_event (hb : Topology.build l = .ok net.topology)
    (ha : net.applications = .ofList apps) (h₀ : Ran net seed history s)
    (h : s.Journeying net history) (hq : s.queue.first? = some (key, .device event))
    {put : Option Waiting} (hput : Step.departing ⟨s, key, .device event⟩ = put.toList)
    (hbound : ∀ w ∈ put.toList,
      Bound net (arrivals (history ++ [⟨s, key, .device event⟩]) w.message.id)
        (propagations history w.message.id) key.device w)
    {id : MessageId} {x : Step} {later : List Step} {goal : DeviceId} {resolved : Message}
    (hx : arrivals (history ++ [⟨s, key, .device event⟩]) id = x :: later)
    (hr : x.resolved? = some (goal, resolved)) :
    ∃ last rest, Journey net (x :: later)
        (propagations (history ++ [⟨s, key, .device event⟩]) id) resolved goal last rest
      ∧ (last = goal → rest = 0) := by
  -- The first step of a journey tells where it goes.
  have hfirst {sent : List Duration} {message : Message} {goal' last : DeviceId} {rest : Duration}
      (hjourney : Journey net (x :: later) sent message goal' last rest) :
      goal' = goal ∧ message = resolved := by
    obtain ⟨x', later', hvisits, hr', _⟩ := hjourney.first
    obtain ⟨rfl, rfl⟩ := List.cons.inj hvisits
    rw [hr, Option.some.injEq, Prod.mk.injEq] at hr'
    exact ⟨hr'.1.symm, hr'.2.symm⟩
  rw [propagations_append, Step.propagations, hput]
  by_cases hdeparts : ∃ w, put = some w ∧ w.message.id = id
  · obtain ⟨w, rfl, rfl⟩ := hdeparts
    have hw := hbound w List.mem_cons_self
    rw [hx] at hw
    obtain ⟨goal', rest, hjourney, hhop, _⟩ := hw.departs hb
    obtain ⟨rfl, rfl⟩ := hfirst hjourney
    refine ⟨key.device, rest, by simpa using hjourney, fun hgoal => ?_⟩
    exact absurd hgoal hhop.1
  · have hsent : (put.toList.filter fun w => w.message.id == id) = [] := by
      refine List.filter_eq_nil_iff.mpr fun w hw he => hdeparts ⟨w, ?_, beq_iff_eq.mp he⟩
      exact Option.mem_toList.mp hw
    rw [hsent, List.map_nil, List.append_nil]
    by_cases harriving : (Task.device event).arriving? = some id
    · cases event with
      | messageArrived message =>
        obtain rfl := Option.some.inj harriving
        cases hthis : Step.resolved? ⟨s, key, .device (.messageArrived message)⟩ with
        | some bound =>
          obtain ⟨rest, hjourney, hrest⟩ := h.visited hb ha h₀ hq hthis
          rw [hx] at hjourney
          obtain ⟨rfl, rfl⟩ := hfirst hjourney
          refine ⟨key.device, rest, hjourney, fun hgoal => ?_⟩
          rw [← hgoal] at hrest
          exact rest_of_goal hb hrest
        | none =>
          cases hvisits : arrivals history message.id with
          | nil =>
            rw [arrivals_append, if_pos harriving, hvisits, List.nil_append] at hx
            rw [← (List.cons.inj hx).1, hthis] at hr
            cases hr
          | cons _ _ =>
            obtain ⟨_, hsome⟩ := h.resolved?_of_visited hb h₀ hq (by simp [hvisits])
            cases hthis.symm.trans hsome
      | _ => cases harriving
    · rw [arrivals_append, if_neg harriving, List.append_nil] at hx
      exact h.told id x later goal resolved hx hr

/-- What is scheduled to arrive is put on a link. -/
theorem travelling_of_booked {device : DeviceId} {actions : List Action}
    (hactions : ∀ a ∈ actions, a.LetsInternal) {b : Booking}
    (hb : b ∈ actions.filterMap (s.booking? device)) {message : Message}
    (ht : b.task = .device (.messageArrived message)) : ∃ target transmission latency,
      (⟨target, latency, message⟩ : Waiting) ∈ actions.filterMap Action.travelling?
        ∧ b = ⟨target, s.now + (transmission + latency), .device (.messageArrived message)⟩ := by
  obtain ⟨a, ha, hb⟩ := List.mem_filterMap.mp hb
  have hinternal := hactions a ha
  cases booked_of_booking? hb with
  | transmit target link arrived transmission latency =>
    obtain rfl := Event.messageArrived.inj (Task.device.inj ht)
    exact ⟨target, transmission, latency, List.mem_filterMap.mpr ⟨_, ha, rfl⟩, rfl⟩
  | deliver arrived _ | enqueueInternal arrived =>
    obtain rfl := Task.device.inj ht
    cases hinternal
  | setTimer timer _ => cases timer <;> cases ht
  | execute _ => cases ht

/-- A message that an event neither brings nor puts on a link is told of as before. -/
theorem untouched_of_event {put : Option Waiting}
    (hdeparting : Step.departing ⟨s, key, .device event⟩ = put.toList) {id : MessageId}
    (harriving : event.arriving? ≠ some id) (hput : ∀ w ∈ put.toList, w.message.id ≠ id) :
    arrivals (history ++ [⟨s, key, .device event⟩]) id = arrivals history id
      ∧ propagations (history ++ [⟨s, key, .device event⟩]) id = propagations history id := by
  have hnone : (put.toList.filter fun w => w.message.id == id) = [] :=
    List.filter_eq_nil_iff.mpr fun w hw he => hput w hw (beq_iff_eq.mp he)
  have harriving : (Task.device event).arriving? ≠ some id := harriving
  rw [arrivals_append, if_neg harriving, propagations_append, Step.propagations, hdeparting, hnone]
  simp

/-- An event to a device keeps every message on its journey. -/
theorem happen (hb : Topology.build l = .ok net.topology) (ha : net.applications = .ofList apps)
    (h₀ : Ran net seed history s) (h : s.Journeying net history)
    (hq : s.queue.first? = some (key, .device event))
    (hp : (s.take key (.device event)).happen key.device event = .ok s') :
    s'.Journeying net (history ++ [⟨s, key, .device event⟩]) := by
  have hintact := intact_of_ran hb h₀
  have hlast : s.lastMessage ≤ s'.lastMessage :=
    hintact.lastMessage_le (Layout.forest_of_build hb) hq hp
  rcases happen_books hp with ⟨hm, rfl⟩ | ⟨m, actions, m', hm, hv, hbooks⟩
  · have hm : s.machine? key.device = none := hm
    refine (h.still (take_still hq) hlast).pass (hintact.arriving?_of_none hq hm) ?_
    simp [Step.departing, Step.actions_of_none hm]
  have hm : s.machine? key.device = some m := hm
  have hactions : Step.actions ⟨s, key, .device event⟩ event = actions :=
    Step.actions_of_handle hm hv
  have heffect := Machine.effect_of_handle hv
  obtain ⟨put, hput, hflow⟩ := Machine.flow_of_effect heffect
  obtain ⟨hnodup, hhere, hother⟩ := hintact.apart hq hm
  have hdeparting : Step.departing ⟨s, key, .device event⟩ = put.toList := by
    rw [← hput, ← hactions]
    rfl
  have hbound {w : Waiting} (hw : w ∈ put.toList ++ m'.outbound.waits) :=
    h.bound hb ha h₀ hq hm (hintact.arranged.network ▸ hflow.mem_iff.mp hw)
  have hids : ((put.toList ++ m'.outbound.waits).map fun w => w.message.id).Nodup := by
    refine (hflow.map _).nodup_iff.mpr ?_
    rw [List.map_append]
    cases hhanded : Machine.handedAt? (s.take key (.device event)).network
      { m with now := (s.take key (.device event)).now } event with
    | none => exact (List.nodup_append.mp hnodup).2.1
    | some w =>
      rw [Machine.arriving?_of_handedAt? hhanded] at hnodup
      exact hnodup
  have huntouched {id : MessageId} (hid : id ∉ event.arriving?.toList ++ m.waiting) :
      arrivals (history ++ [⟨s, key, .device event⟩]) id = arrivals history id
        ∧ propagations (history ++ [⟨s, key, .device event⟩]) id = propagations history id := by
    refine untouched_of_event hdeparting (fun he => hid (List.mem_append_left _
      (Option.mem_toList.mpr he))) fun w hw he => hid ?_
    rw [← he]
    exact (hbound (List.mem_append_left _ hw)).1
  constructor
  · intro e he message ht
    rcases hbooks.mem he with ⟨b, hb', _, _, rfl⟩ | he
    · obtain ⟨target, transmission, latency, hmem, rfl⟩ :=
        travelling_of_booked (Machine.internal_of_effect heffect) hb' ht
      rw [hput] at hmem
      obtain ⟨goal, rest, hjourney, hhop, hrest⟩ :=
        (hbound (List.mem_append_left _ hmem)).2.departs hb
      refine .hop ?_ hhop hrest
      rw [propagations_append, Step.propagations, hdeparting, Option.mem_toList.mp hmem]
      simpa using hjourney
    · have harriving : message.id ∈ (s.take key (.device event)).queue.arriving :=
        List.mem_filterMap.mpr ⟨e, he, by rw [ht]; rfl⟩
      obtain ⟨harrivals, hpropagations⟩ := huntouched fun hid => (hhere _ hid).2 harriving
      rw [harrivals, hpropagations]
      refine h.arriving e ?_ message ht
      rw [Queue.entries_of_first hq]
      exact List.mem_cons_of_mem _ he
  · intro d m₁ hm₁ w hw
    rw [machine?, hbooks.machines] at hm₁
    have hm₁ : (s.machines.insert key.device m').get? d = some m₁ := hm₁
    rw [SortedMap.get?_insert] at hm₁
    split at hm₁
    · next hd =>
      obtain rfl := Option.some.inj hm₁
      have hother : (put.toList.filter fun p => p.message.id == w.message.id) = [] := by
        rw [List.map_append] at hids
        refine List.filter_eq_nil_iff.mpr fun p hp he => (List.nodup_append.mp hids).2.2
          _ (List.mem_map.mpr ⟨p, hp, rfl⟩) _ (List.mem_map.mpr ⟨w, hw, rfl⟩) (beq_iff_eq.mp he)
      rw [propagations_append, Step.propagations, hdeparting, hother, List.map_nil,
        List.append_nil, hd]
      exact (hbound (List.mem_append_right _ hw)).2
    · next hd =>
      obtain ⟨harrivals, hpropagations⟩ := huntouched fun hid =>
        hother d m₁ hm₁ hd _ hid (List.mem_map.mpr ⟨w, hw, rfl⟩)
      rw [harrivals, hpropagations]
      exact h.waiting d m₁ hm₁ w hw
  · intro id x later goal resolved hx hr
    exact h.told_of_event hb ha h₀ hq hdeparting
      (fun w hw => (hbound (List.mem_append_left _ hw)).2) hx hr
  · intro id hid
    have hnew : s.lastMessage < id := Nat.lt_of_le_of_lt hlast hid
    obtain ⟨harrivals, hpropagations⟩ := huntouched fun hid =>
      absurd (hhere id hid).1 (Nat.not_le_of_lt hnew)
    rw [harrivals, hpropagations]
    exact h.numbered id hnew

/-- A step keeps every message on its journey. -/
theorem step (hb : Topology.build l = .ok net.topology) (ha : net.applications = .ofList apps)
    (h₀ : Ran net seed history s) (h : s.Journeying net history)
    (hq : s.queue.first? = some (key, task))
    (hp : (s.take key task).process key task = .ok s') :
    s'.Journeying net (history ++ [⟨s, key, task⟩]) := by
  have hlast : s.lastMessage ≤ s'.lastMessage :=
    (intact_of_ran hb h₀).lastMessage_le (Layout.forest_of_build hb) hq hp
  have htaken : (s.take key task).Journeying net history :=
    h.still (take_still hq) (Nat.le_refl _)
  cases task with
  | device event => exact h.happen hb ha h₀ hq hp
  | sensorTick id =>
    obtain ⟨bookings, hbooks, hemission⟩ := tick_books hp
    refine (htaken.books hbooks hlast fun b hmem message ht => ?_).pass rfl rfl
    cases hemission b hmem with
    | arrival _ _ hmessage =>
      obtain ⟨e, _, rfl⟩ := Option.map_eq_some_iff.mp hmessage
      obtain rfl := Event.messageArrived.inj (Task.device.inj ht)
      exact ⟨Nat.lt_succ_self _, Or.inr rfl⟩
    | interval _ => cases ht
  | executionCompleted target message =>
    rw [← Except.ok.inj hp] at hlast ⊢
    refine (htaken.books (complete_books _ target message) hlast fun b hmem output ht => ?_).pass
      rfl rfl
    obtain ⟨answer, hanswer, rfl⟩ := List.mem_map.mp hmem
    obtain rfl := Event.messageArrived.inj (Task.device.inj ht)
    obtain ⟨hid, hnone⟩ := new_of_mem_outputs hanswer
    exact ⟨hid, Or.inl hnone⟩

end Journeying

/-! ## Runs -/

/-- In every reached simulation all messages are on their journeys. -/
theorem journeying_of_ran (hb : Topology.build l = .ok net.topology)
    (ha : net.applications = .ofList apps) (h : Ran net seed history s) :
    s.Journeying net history := by
  refine invariant_of_ran (P := fun history s => s.Journeying net history) h ?create
    (fun ih hs _ hlast => ih.still hs (Nat.le_of_eq hlast.symm)) ?start
    fun h ih hq hp => ih.step hb ha h hq hp
  case create =>
    refine ⟨fun e he => absurd he List.not_mem_nil, fun d m hm w hw => ?_,
      fun _ _ _ _ _ hx => (List.cons_ne_nil _ _ hx.symm).elim, fun _ _ => ⟨rfl, rfl⟩⟩
    obtain ⟨_, _, _, rfl⟩ := machine?_create hm
    exact absurd hw List.not_mem_nil
  case start =>
    intro history s s' bookings h hs ih hbooks hopening
    have hlast : s.lastMessage = s'.lastMessage :=
      (start_adds (intact_of_ran hb h).orderly hs).lastMessage.symm
    refine ih.books hbooks (Nat.le_of_eq hlast) fun b hmem message ht => ?_
    have hnone := (hopening b hmem).carried?
    rw [ht] at hnone
    cases hnone

/-- What becomes of a message on its journey: there is always a link on, up to its goal. -/
theorem Journey.ends (hb : Topology.build l = .ok net.topology) (h : Ran net seed history s)
    {id : MessageId} (hjourney : Journey net (arrivals history id) sent message goal last rest)
    {path : List DeviceId} (hchain : path.IsChain (net.topology.HopsTo goal))
    (hlast : path.getLast? = some goal)
    (hpath : (arrivals history id).map (fun x => x.key.device) ⊆ path) {y : Step}
    (hy : y ∈ arrivals history id) {event : Event} (ht : y.task = .device event) :
    (∀ target processed, .execute target processed ∈ y.actions event → y.key.device = goal
        ∧ processed = (message.setPin message.destination target).recordTraversal goal
            message.destination)
      ∧ ∀ dropped reason, .recordDrop dropped reason ∈ y.actions event → y.key.device = goal
        ∧ reason ≠ .missingRoute ∧ reason ≠ .notAdjacent := by
  have hmem : y ∈ history := (List.mem_filter.mp hy).1
  obtain ⟨_, hran, _⟩ := h.mem hmem
  rcases effect_of_mem hb h hmem ht with ⟨_, hnil⟩ | ⟨m, m', hm, heffect⟩
  · rw [hnil]
    exact ⟨fun _ _ hmem => absurd hmem List.not_mem_nil,
      fun _ _ hmem => absurd hmem List.not_mem_nil⟩
  have hid : m.id = y.key.device := (intact_of_ran hb hran).arranged.id _ m hm
  -- The device comes to the same destination as the first one, and leaves the message alone.
  obtain ⟨arrived, rfl, hdirection, haddressed⟩ : ∃ arrived, event = .messageArrived arrived
      ∧ arrived.direction ≠ .actuator ∧ m.addressed? arrived = some (goal, message) := by
    obtain ⟨hbound, hdirection⟩ := hjourney.bound
    obtain ⟨x, later, hvisits, hresolved, _, hlater, _⟩ := hjourney.first
    rw [hvisits] at hy
    rcases List.mem_cons.mp hy with rfl | hy
    · obtain ⟨arrived, m₁, ht', hdirection', hm₁, haddressed⟩ := Step.resolved?_cases hresolved
      rw [hm, Option.some.injEq] at hm₁
      exact ⟨arrived, Task.device.inj (ht.symm.trans ht'), hdirection', hm₁ ▸ haddressed⟩
    · exact ⟨message, Task.device.inj (ht.symm.trans (hlater y hy)), hdirection,
        Machine.addressed?_of_bound hbound⟩
  have hroute : goal ≠ m.id → ∃ hop k,
      net.topology.nextHop m.id goal = .ok hop ∧ net.topology.link? m.id hop = some k := by
    rw [hid]
    exact Topology.link_of_hops hb hchain hlast _
      (hpath (List.mem_map.mpr ⟨y, hy, rfl⟩))
  generalize y.actions (.messageArrived arrived) = actions at heffect ⊢
  cases heffect with
  | @received _ counted _ _ _ hcounted hrest =>
    obtain ⟨hexecute, hdrop⟩ := Machine.ends_of_dispatched hrest hdirection haddressed hroute
    rw [← hid]
    refine ⟨fun target processed hmem => ?_, fun dropped reason hmem => ?_⟩
    · refine hexecute target processed ((List.mem_append.mp hmem).resolve_left fun hmem => ?_)
      cases hcounted _ hmem
    · refine hdrop dropped reason ((List.mem_append.mp hmem).resolve_left fun hmem => ?_)
      cases hcounted _ hmem

/--
Where every link has a latency, the devices that a message comes to are those of the path of the
topology, in this order, from the device where its destination is found, which may be written on it
from the start, to this destination; as long as it is under way they are the first of them. On the
way nothing is done to the message, and when it has come to its destination, the latencies of the
links that it was put on add up to the distance. It is processed or dropped nowhere else, and never
dropped for want of a route or a link.
-/
theorem messages_follow_paths (hb : Topology.build l = .ok net.topology)
    (ha : net.applications = .ofList apps)
    (hpos : ∀ a b k, net.topology.link? a b = some k → 0 < k.latency)
    (h : Ran net seed history s) {id : MessageId} {x : Step} {later : List Step}
    (hx : arrivals history id = x :: later) {d : DeviceId} {resolved : Message}
    (hr : x.resolved? = some (d, resolved)) :
    (∃ message, x.task = .device (.messageArrived message) ∧ message.direction ≠ .actuator
        ∧ (message.destinationDevice = none ∨ message.destinationDevice = some x.key.device)
        ∧ resolved = { message with
            destinationDevice := some d, sourceDevice := resolved.sourceDevice })
      ∧ (∀ y ∈ later, y.task = .device (.messageArrived resolved))
      ∧ (∃ path, net.topology.path x.key.device d = .ok path
        ∧ (x :: later).map (fun y => y.key.device) <+: path
        ∧ ∀ y ∈ x :: later, y.key.device = d →
            (x :: later).map (fun y => y.key.device) = path
              ∧ net.topology.distance? x.key.device d = some (sumOf (propagations history id)))
      ∧ ∀ y ∈ x :: later, ∀ event, y.task = .device event →
          (∀ target processed, .execute target processed ∈ y.actions event → y.key.device = d
            ∧ processed = (resolved.setPin resolved.destination target).recordTraversal d
                resolved.destination)
          ∧ ∀ dropped reason, .recordDrop dropped reason ∈ y.actions event → y.key.device = d
            ∧ reason ≠ .missingRoute ∧ reason ≠ .notAdjacent := by
  obtain ⟨last, rest, hjourney, hend⟩ :=
    (journeying_of_ran hb ha h).told id x later d resolved hx hr
  obtain ⟨x', later', hvisits, _, hbegins, hlater, htotal⟩ := hjourney.first
  obtain ⟨rfl, rfl⟩ := List.cons.inj hvisits
  obtain ⟨message, ht, hpreset⟩ := hbegins
  obtain ⟨arrived, m, ht', hdirection, _, haddressed⟩ := Step.resolved?_cases hr
  obtain rfl := Event.messageArrived.inj (Task.device.inj (ht'.symm.trans ht))
  obtain ⟨path, hpath, _⟩ := Topology.path_leads_of_pos hb hpos
    (Topology.nextHop_ok_iff.mpr ⟨_, htotal⟩)
  obtain ⟨⟨q, rfl⟩, hchain, hlast⟩ := Topology.follow_hops hpath
  have hfirst : (x :: later).map (fun y => y.key.device) <+: x.key.device :: q :=
    Topology.prefix_of_hops hjourney.hops hchain hlast
  refine ⟨⟨arrived, ht, hdirection, hpreset, (Machine.bound_of_addressed? haddressed).2⟩, hlater,
    ⟨_, hpath, hfirst, fun y hy hyd => ?_⟩, fun y hy event hevent => ?_⟩
  · have hreached : ((x :: later).map fun y => y.key.device).getLast? = some d :=
      Topology.last_of_hops hjourney.hops (List.mem_map.mpr ⟨y, hy, hyd⟩)
    have hrest : rest = 0 := hend (Option.some.inj (hjourney.last.symm.trans hreached))
    refine ⟨hfirst.eq_of_length_le (Topology.prefix_of_hops hchain hjourney.hops
      hreached).length_le, ?_⟩
    rw [htotal, hrest]
    rfl
  · rw [← hx] at hjourney hy hfirst
    exact hjourney.ends hb h hchain hlast hfirst.subset hy hevent

/-- A phone below a gateway that has no room, below a cloud; signals take time on both links. -/
def relay : Layout :=
  { devices := [
      { id := 1, name := "cloud", role := .cloud, capacity := { cpuMips := 100 } },
      { id := 2, name := "gw", role := .fcn, parent := some 1, capacity := { cpuMips := 5 },
        uplinkLatency := Duration.ofMillis 4 },
      { id := 3, name := "phone", role := .client, parent := some 2,
        capacity := { cpuMips := 100 }, uplinkLatency := Duration.ofMillis 2 }] }

/-- The topology of `relay`: its routes are settled after two sweeps. -/
def relayTopology : Topology :=
  { relay with routes := (Relaxation.firstSweep relay.linkLatency).sweep.sweep.table }

theorem build_relay : Topology.build relay = .ok relayTopology := by
  refine Topology.build_eq_ok (by decide +kernel) ?_ (by decide +kernel) (by decide +kernel)
  rw [Relaxation.routes, Relaxation.settle_of_changed (by decide +kernel),
    Relaxation.settle_of_still (by decide +kernel)]

/-- The echo comes from the cloud, past the gateway. -/
def relayNetwork : Network :=
  { topology := relayTopology, applications := .ofList [echo], policy := {} }

/-- The phone with its sensor, before the start. -/
def relayStart : Simulation := withSensors relayNetwork 0
  [{ id := 1, gateway := 3, app := "a", tupleType := "t", interval := Duration.ofMillis 500 }]

/-- Every link of the relay takes some time. -/
theorem relay_latency (a b : DeviceId) (k : Link) (hk : relayTopology.link? a b = some k) :
    0 < k.latency := by
  have hall : ∀ a ∈ relay.ids, ∀ b ∈ relay.ids, ∀ k ∈ relay.link? a b, 0 < k.latency := by
    decide +kernel
  obtain ⟨hmem, hmem'⟩ := (Layout.forest_of_build build_relay).mem_ids_of_link? hk
  exact hall a hmem b hmem' k hk

/--
After six tenths of a second and a little more, the first question of the phone has come past the
gateway to the cloud.
-/
theorem messages_follow_paths_relay : ∃ history s x later resolved, Ran relayNetwork 0 history s
    ∧ arrivals history 2 = x :: later ∧ x.resolved? = some (1, resolved)
    ∧ (x :: later).map (fun y => y.key.device) = [3, 2, 1]
    ∧ relayTopology.path 3 1 = .ok [3, 2, 1]
    ∧ relayTopology.distance? 3 1 = some (sumOf (propagations history 2))
    ∧ ∀ y ∈ later, y.task = .device (.messageArrived resolved) := by
  obtain ⟨s, hs, _⟩ := exists_of_finishesWith (p := fun _ => true)
    (show finishesWith _ (relayStart.runUntil 613000000 40) = true by decide +kernel)
  have hran : Ran relayNetwork 0 (relayStart.stepsUntil 613000000 40) s :=
    ran_of_runUntil (ran_withSensors _ _ _) hs
  have hseen : (arrivals (relayStart.stepsUntil 613000000 40) 2).map
      (fun y => (y.key.device, y.resolved?.map Prod.fst))
        = [(3, some 1), (2, some 1), (1, some 1)] := by decide +kernel
  obtain ⟨x, later, hx, hfirst, hlater⟩ := List.map_eq_cons_iff.mp hseen
  obtain ⟨hdevice, hbound⟩ := Prod.mk.inj hfirst
  obtain ⟨⟨d, resolved⟩, hr, rfl⟩ := Option.map_eq_some_iff.mp hbound
  have hvisits : (x :: later).map (fun y => y.key.device) = [3, 2, 1] := by
    have hdevices := congrArg (List.map Prod.fst) hseen
    rw [List.map_map] at hdevices
    rw [← hx]
    exact hdevices
  obtain ⟨_, hsame, ⟨path, hpath, _, hend⟩, _⟩ := messages_follow_paths build_relay
    (show relayNetwork.applications = .ofList [echo] from rfl) relay_latency hran hx hr
  obtain ⟨y, hy, hyd⟩ := List.mem_map.mp
    (show (1 : DeviceId) ∈ (x :: later).map (fun y => y.key.device) by rw [hvisits]; decide)
  obtain ⟨hall, hsum⟩ := hend y hy hyd
  rw [hdevice] at hpath hsum
  exact ⟨_, s, x, later, resolved, hran, hx, hr, hvisits, by rw [← hvisits, hall]; exact hpath,
    hsum, hsame⟩

end Simulation

end FogNet
