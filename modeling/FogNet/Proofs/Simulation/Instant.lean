import FogNet.Proofs.Simulation.Loads
import Mathlib.Data.Multiset.DershowitzManna
import Mathlib.Data.Prod.Lex
import Mathlib.Data.Set.Card
import Mathlib.Order.RelClasses
import Mathlib.Tactic.Abel

/-!
# What is left of an instant

Tasks may lead to tasks at the same instant: a message may be processed in no time, its answers may
go over links in no time, and so on. Each task has a weight, and so has each message that waits for
a link: the edges of its application that its answers may still come to at this instant, and the
hops that it may still make. Where neither edges nor hops circle in no time, a step replaces a task
of the instant, and what leaves a line with it, by lighter ones. There is no infinite series of such
steps.

## Main statements

* `ahead_lt` — on the way along a relation that does not circle less is ahead
* `Weight.Traded.lighter` — weights for which lighter ones come
* `weights_of_depart`, `weights_of_effect` — what a device does at an instant is lighter
* `lighter_of_process` — a step makes lighter what is left of the instant
-/

namespace FogNet

open List (Perm)

open Relation (TransGen ReflTransGen)

/-! ## What is ahead -/

section Ahead

variable {α : Type} {r : α → α → Prop} {all : List α} {p : α → Prop} {x : α}

/-- How many elements of a list can be come to from those with a property, these included. -/
noncomputable def ahead (r : α → α → Prop) (all : List α) (p : α → Prop) : Nat :=
  {y | y ∈ all ∧ ∃ x, p x ∧ ReflTransGen r x y}.ncard

theorem finite_ahead (r : α → α → Prop) (all : List α) (p : α → Prop) :
    {y | y ∈ all ∧ ∃ x, p x ∧ ReflTransGen r x y}.Finite :=
  all.finite_toSet.subset fun _ hy => hy.1

/-- After a step to an element that does not come back to itself less is ahead. -/
theorem ahead_lt (hx : x ∈ all) (hp : p x) (hno : ¬ TransGen r x x) :
    ahead r all (r x) < ahead r all p := by
  refine Set.ncard_lt_ncard ⟨?_, fun hle => ?_⟩ (finite_ahead r all p)
  · rintro y ⟨hy, z, hz, hrest⟩
    exact ⟨hy, x, hp, .head hz hrest⟩
  · obtain ⟨_, z, hz, hback⟩ := hle ⟨hx, x, hp, .refl⟩
    exact hno (TransGen.head' hz hback)

/-- No more is ahead than there is. -/
theorem ahead_le_length (r : α → α → Prop) (all : List α) (p : α → Prop) :
    ahead r all p ≤ all.length := by
  classical
  refine (Set.ncard_le_ncard (t := ↑all.toFinset) ?_ (Finset.finite_toSet _)).trans ?_
  · exact fun y hy => List.mem_toFinset.mpr hy.1
  · rw [Set.ncard_coe_finset]
    exact all.toFinset_card_le

end Ahead

/-! ## Steps that take no time -/

/-- What is on one edge is processed in no time, and may be answered on the other. -/
def Application.Follows (app : Application) (e e' : Edge) : Prop :=
  app.processingTime? e.destination e.cpuLength = some 0
    ∧ app.Answers e.destination e.tupleType e'

namespace Network

/-- A hop over a link without latency, by a message that the link carries in no time. -/
def InstantHop (net : Network) (goal a b : DeviceId) : Prop :=
  net.topology.HopsTo goal a b ∧ ∃ link dev id app e, net.topology.link? a b = some link
    ∧ link.latency = 0 ∧ net.device? a = some dev ∧ net.application? id = some app
    ∧ e ∈ app.edges ∧ dev.transmissionTime? link.kind e.size = some 0

/-- Neither the answers of an application nor the hops towards a device circle in no time. -/
structure Flowing (net : Network) : Prop where
  edges : ∀ id app, net.application? id = some app → ∀ e, ¬ TransGen app.Follows e e
  hops : ∀ goal d, ¬ TransGen (net.InstantHop goal) d d

/-- Placement cycles take their time, unless there is no device that orchestrates. -/
def Paced (net : Network) : Prop := net.policy.placementInterval = 0 →
  ∀ d dev, net.device? d = some dev → dev.role.orchestrates = false

end Network

/-! ## Weights -/

/-- What a task of an instant may still lead to, at this instant. -/
abbrev Weight := Nat ×ₗ Nat ×ₗ Nat

namespace Weight

/-- The weight of what comes to nothing more, or only lets the next message on its link. -/
def least : Weight := toLex (0, toLex (0, 0))

/-- The weight of a message, by the edges and the hops that are ahead of it. -/
def ofMessage (edges hops : Nat) : Weight := toLex (1, toLex (edges, hops))

/-- The weight of what sends out messages of any kind, or commands. -/
def most : Weight := toLex (2, toLex (0, 0))

variable {edges edges' hops hops' : Nat}

theorem least_lt_ofMessage : least < ofMessage edges hops :=
  Prod.Lex.toLex_lt_toLex.mpr (Or.inl Nat.zero_lt_one)

theorem ofMessage_lt_most : ofMessage edges hops < most :=
  Prod.Lex.toLex_lt_toLex.mpr (Or.inl (Nat.lt_succ_self 1))

theorem least_lt_most : least < most := Prod.Lex.toLex_lt_toLex.mpr (Or.inl Nat.zero_lt_two)

theorem ofMessage_lt_of_edges (h : edges < edges') :
    ofMessage edges hops < ofMessage edges' hops' :=
  Prod.Lex.toLex_lt_toLex.mpr (Or.inr ⟨rfl, Prod.Lex.toLex_lt_toLex.mpr (Or.inl h)⟩)

theorem ofMessage_lt_of_hops (h : hops < hops') : ofMessage edges hops < ofMessage edges hops' :=
  Prod.Lex.toLex_lt_toLex.mpr (Or.inr ⟨rfl, Prod.Lex.toLex_lt_toLex.mpr (Or.inr ⟨rfl, h⟩)⟩)

/-- Some of the old weights are gone, and what came for them is lighter. -/
def Lighter (new old : List Weight) : Prop :=
  Multiset.IsDershowitzMannaLT (new : Multiset Weight) (old : Multiset Weight)

theorem wellFounded_lighter : WellFounded Lighter :=
  InvImage.wf (fun l : List Weight => (l : Multiset Weight))
    Multiset.wellFounded_isDershowitzMannaLT

/--
For the weight `z`, and for some of the old weights, there come the booked ones and some new ones,
and these are lighter.
-/
def Traded (z : Weight) (old new booked : List Weight) : Prop := ∃ gone come stay,
  old.Perm (gone ++ stay) ∧ new.Perm (come ++ stay)
    ∧ ∀ y ∈ come ++ booked, y < z ∨ ∃ z' ∈ gone, y < z'

namespace Traded

variable {z : Weight} {old new booked : List Weight}

theorem of_perm (h : new.Perm old) (hless : ∀ y ∈ booked, y < z) : Traded z old new booked :=
  ⟨[], [], old, .refl _, h, fun y hy => Or.inl (hless y hy)⟩

/-- Weights may be traded among others, which stay. -/
theorem among (h : Traded z old new booked) {rest old' new' : List Weight}
    (hold : old'.Perm (old ++ rest)) (hnew : new'.Perm (new ++ rest)) :
    Traded z old' new' booked := by
  obtain ⟨gone, come, stay, hold', hnew', hless⟩ := h
  refine ⟨gone, come, stay ++ rest, ?_, ?_, hless⟩
  · rw [← List.append_assoc]
    exact hold.trans (hold'.append_right rest)
  · rw [← List.append_assoc]
    exact hnew.trans (hnew'.append_right rest)

theorem lighter (h : Traded z old new booked) {queued queued' : List Weight}
    (hqueued : queued'.Perm (booked ++ queued)) :
    Lighter (queued' ++ new) (z :: queued ++ old) := by
  obtain ⟨gone, come, stay, hold, hnew, hless⟩ := h
  refine ⟨↑queued + ↑stay, ↑(come ++ booked), ↑(z :: gone), by simp, ?_, ?_, fun y hy => ?_⟩
  · rw [← Multiset.coe_add, Multiset.coe_eq_coe.mpr hqueued, Multiset.coe_eq_coe.mpr hnew]
    simp only [← Multiset.coe_add]
    abel
  · rw [← Multiset.coe_add, Multiset.coe_eq_coe.mpr hold]
    simp only [← Multiset.coe_add, ← Multiset.cons_coe, ← Multiset.singleton_add]
    abel
  · rcases hless y (Multiset.mem_coe.mp hy) with hlt | ⟨z', hz', hlt⟩
    · exact ⟨z, by simp, hlt⟩
    · exact ⟨z', by simp [hz'], hlt⟩

end Traded

end Weight

namespace Message

variable {net : Network} {message output : Message} {app : Application} {e e' : Edge}

/-- The edges that the answers to a message may come to at an instant, once it is processed. -/
noncomputable def answersAhead (net : Network) (message : Message) : Nat :=
  match net.application? message.app with
  | none => 0
  | some app => ahead app.Follows app.edges (app.Answers message.destination message.tupleType)

/-- The edges that a message may still lead to at an instant. -/
noncomputable def edgesAhead (net : Network) (message : Message) : Nat :=
  match net.application? message.app with
  | none => 0
  | some app => ahead app.Follows app.edges fun e =>
      app.processingTime? message.destination message.cpuLength = some 0
        ∧ app.Answers message.destination message.tupleType e

/-- The hops that a message may still make at an instant. -/
noncomputable def hopsAhead (net : Network) (d goal : DeviceId) : Nat :=
  ahead (net.InstantHop goal) net.topology.ids (net.InstantHop goal d)

theorem edgesAhead_eq (h : message.OnEdge net app e) :
    message.edgesAhead net = ahead app.Follows app.edges (app.Follows e) := by
  simp only [edgesAhead, h.registered, h.destination, h.tupleType, h.cpuLength]
  rfl

/-- An answer has fewer edges ahead than what is answered. -/
theorem edgesAhead_lt (hf : net.Flowing) (happ : net.application? message.app = some app)
    (ho : output.OnEdge net app e)
    (ha : app.Answers message.destination message.tupleType e) :
    output.edgesAhead net < message.answersAhead net := by
  rw [edgesAhead_eq ho, answersAhead, happ]
  exact ahead_lt ho.edge ha (hf.edges _ _ happ e)

/-- A message that is processed in no time is as good as processed. -/
theorem edgesAhead_of_instant (h : message.OnEdge net app e) (ho : output.OnEdge net app e)
    (hzero : app.processingTime? e.destination e.cpuLength = some 0) :
    message.edgesAhead net = output.answersAhead net := by
  simp only [edgesAhead, answersAhead, h.registered, ho.registered, h.destination,
    ho.destination, h.tupleType, ho.tupleType, h.cpuLength, hzero, true_and]

/-- After a hop that takes no time there are fewer of them ahead. -/
theorem hopsAhead_lt (hf : net.Flowing) {a b goal : DeviceId} (hb : b ∈ net.topology.ids)
    (h : net.InstantHop goal a b) : hopsAhead net b goal < hopsAhead net a goal :=
  ahead_lt hb h (hf.hops goal b)

/--
The weight of a message that arrives at a device. Where it is bound for no device yet, it may have
all hops ahead; otherwise it outweighs the wait for the next link, and this outweighs the arrival
there.
-/
noncomputable def weight (net : Network) (d : DeviceId) (message : Message) : Weight :=
  .ofMessage (message.edgesAhead net) <| match message.destinationDevice with
    | none => 2 * net.topology.ids.length + 2
    | some goal => 2 * hopsAhead net d goal + 1

end Message

/-- The weight of a message that waits at a device for a link. -/
noncomputable def Waiting.weight (net : Network) (d : DeviceId) (w : Waiting) : Weight :=
  .ofMessage (w.message.edgesAhead net) <| match w.message.destinationDevice with
    | none => 0
    | some goal => 2 * Message.hopsAhead net d goal

/-- The weight of a task of a device at its instant. -/
noncomputable def Task.weight (net : Network) (d : DeviceId) : Task → Weight
  | .sensorTick _ | .device .placementTimer => .most
  | .executionCompleted _ message => .ofMessage (message.answersAhead net) 0
  | .device (.messageArrived message) => message.weight net d
  | .device _ => .least

/-- The weight that an entry of the queue has at an instant: none, if it is due at another time. -/
noncomputable def Queue.weight? (net : Network) (now : Duration) (e : Key × Task) :
    Option Weight := if e.1.time = now then some (e.2.weight net e.1.device) else none

/-- The weights of what waits at a device. -/
noncomputable def Machine.weights (net : Network) (m : Machine) : List Weight :=
  m.outbound.waits.map (Waiting.weight net m.id)

/-- A message that arrives outweighs itself when it is processed, and when it waits for a link. -/
theorem Message.ofMessage_zero_lt_weight (net : Network) (d : DeviceId) (message : Message) :
    Weight.ofMessage (message.edgesAhead net) 0 < message.weight net d := by
  rw [weight]
  refine Weight.ofMessage_lt_of_hops ?_
  split <;> exact Nat.succ_pos _

theorem Waiting.weight_lt {net : Network} {d : DeviceId} {m : Machine} {message : Message}
    {app : Application} {e : Edge} (h : message.OnEdge net app e) {goal : DeviceId} {w : Waiting}
    (ha : m.addressed? message = some (goal, w.message)) :
    w.weight net d < message.weight net d := by
  rw [Waiting.weight, Message.weight, Message.edgesAhead_eq h,
    Message.edgesAhead_eq (h.addressed ha), (Machine.bound_of_addressed? ha).1]
  refine Weight.ofMessage_lt_of_hops ?_
  rcases Machine.addressed?_cases ha with ⟨hbound, _⟩ | ⟨hnone, _⟩
  · rw [hbound]
    exact Nat.lt_succ_self _
  · rw [hnone]
    have hle : Message.hopsAhead net d goal ≤ net.topology.ids.length := ahead_le_length _ _ _
    change 2 * Message.hopsAhead net d goal < 2 * net.topology.ids.length + 2
    omega

theorem Task.weight_of_isInternal {event : Event} (h : event.isInternal = true) (net : Network)
    (d : DeviceId) : (Task.device event).weight net d = .least := by
  cases event <;> first | rfl | exact absurd h Bool.false_ne_true

namespace Simulation

variable {net : Network} {seed : UInt64} {s s' : Simulation} {l : Layout} {history : List Step}
  {apps : List Application} {d : DeviceId} {message : Message} {bookings : List Booking}
  {key : Key} {task : Task} {y : Weight}

/-- The weights of bookings that are for the present instant. -/
noncomputable def weights (net : Network) (s : Simulation) (bookings : List Booking) :
    List Weight := bookings.filterMap fun b => Queue.weight? net s.now (b.key 0, b.task)

theorem mem_weights : y ∈ s.weights net bookings
    ↔ ∃ b ∈ bookings, b.time = s.now ∧ b.task.weight net b.device = y := by
  have hone (b : Booking) : Queue.weight? net s.now (b.key 0, b.task) = some y
      ↔ b.time = s.now ∧ b.task.weight net b.device = y := by
    rw [Queue.weight?]
    exact Option.ite_none_right_eq_some.trans (and_congr Iff.rfl (Option.some_inj))
  simp only [weights, List.mem_filterMap, hone]

/-- The weights of what is left of an instant: of what is due, and of all that waits for links. -/
noncomputable def left (net : Network) (s : Simulation) : List Weight :=
  s.queue.entries.filterMap (Queue.weight? net s.now)
    ++ s.machines.values.flatMap (Machine.weights net)

/-! ## What a device does at an instant -/

/-- What is put on a link is lighter, at its arrival and in its end, than it was in the line. -/
theorem weights_of_depart (hf : net.Flowing) (hforest : net.topology.toLayout.Forest)
    {m : Machine} (hm : Equipped net d m) {kind : LinkKind} {w : Waiting} {goal : DeviceId}
    (hw : Lined net d kind w goal) {app : Application} {e : Edge}
    (hedge : w.message.OnEdge net app e) {actions : List Action}
    (h : (m.outbound.transmit kind w).value = some actions)
    (hy : y ∈ s.weights net (actions.filterMap (s.booking? d))) : y < w.weight net d := by
  obtain ⟨transmission, ht, rfl⟩ := Outbound.transmit_actions h
  obtain ⟨b, hb, htime, rfl⟩ := mem_weights.mp hy
  obtain ⟨a, ha, hb⟩ := List.mem_filterMap.mp hb
  rcases List.mem_pair.mp ha with rfl | rfl
  · cases booked_of_booking? hb
    exact Weight.least_lt_ofMessage
  · cases booked_of_booking? hb
    have hzero : transmission + w.latency = 0 := Nat.add_eq_left.mp htime
    obtain ⟨hnone, hlatency⟩ := Nat.add_eq_zero_iff.mp hzero
    obtain ⟨link, hlink, rfl, hsame⟩ := hw.link
    obtain ⟨dev, hdev, _⟩ := id hm
    have hhop : net.InstantHop goal d w.target := by
      refine ⟨hw.hop, link, dev, _, app, e, hlink, hsame.trans hlatency, hdev, hedge.registered,
        hedge.edge, ?_⟩
      rw [← hm.transmissionTime hdev hedge, ht, hnone]
    have hless := Message.hopsAhead_lt hf (hforest.mem_ids_of_link? hlink).2 hhop
    simp only [Task.weight, Message.weight, Waiting.weight, hw.bound]
    exact Weight.ofMessage_lt_of_hops (by omega)

/-- A message that arrives outweighs what a device does about it. -/
theorem weights_of_dispatched (hf : net.Flowing) (hforest : net.topology.toLayout.Forest)
    (hnetwork : s.network = net) {m : Machine} (hid : m.id = d) (hm : Equipped net d m)
    {app : Application} {e : Edge} (hedge : message.OnEdge net app e) {actions : List Action}
    {o : Outbound} (h : m.Dispatched net message actions o) :
    Weight.Traded (message.weight net d) (m.weights net) (o.waits.map (Waiting.weight net m.id))
      (s.weights net (actions.filterMap (s.booking? d))) := by
  cases h with
  | @executed addressed target _ haddressed _ =>
    refine .of_perm (.refl _) fun y hy => ?_
    obtain ⟨b, hb, htime, rfl⟩ := mem_weights.mp hy
    obtain ⟨a, ha, hb⟩ := List.mem_filterMap.mp hb
    obtain rfl := List.mem_singleton.mp ha
    have hprocessed := (hedge.addressed haddressed).processed target m.id
    cases booked_of_booking? hb with
    | @execute _ _ delay hdelay =>
      rw [hprocessed.executionTime hnetwork, Nat.add_eq_left.mp htime] at hdelay
      change Weight.ofMessage (Message.answersAhead net _) 0 < message.weight net d
      rw [← Message.edgesAhead_of_instant hedge hprocessed hdelay]
      exact message.ofMessage_zero_lt_weight net d
  | @sent goal next addressed link _ _ hdirection haddressed hne hnext hlink hsend =>
    have hline : Lined net d link.kind ⟨next, link.latency, addressed⟩ goal :=
      ⟨(Machine.bound_of_addressed? haddressed).1, ⟨hid ▸ Ne.symm hne, hid ▸ hnext⟩, link,
        hid ▸ hlink, rfl, rfl⟩
    have hless : Waiting.weight net d ⟨next, link.latency, addressed⟩ < message.weight net d :=
      Waiting.weight_lt hedge haddressed
    rcases Outbound.departs_of_send hsend with ⟨rfl, hwaits⟩ | ⟨htransmit, hwaits⟩
    · refine ⟨[], [Waiting.weight net d ⟨next, link.latency, addressed⟩], m.weights net, .refl _,
        ?_, fun y hy => Or.inl ?_⟩
      · rw [← hid]
        exact hwaits.map _
      · rw [List.mem_singleton.mp hy]
        exact hless
    · refine .of_perm (hwaits.map _) fun y hy => lt_trans ?_ hless
      exact weights_of_depart hf hforest hm hline (hedge.addressed haddressed) htransmit hy
  | delivered targets _ =>
    refine .of_perm (.refl _) fun y hy => ?_
    obtain ⟨b, hb, _, _⟩ := mem_weights.mp hy
    obtain ⟨a, ha, hb⟩ := List.mem_filterMap.mp hb
    obtain ⟨_, _, rfl⟩ := List.mem_map.mp ha
    cases hb
  | _ => exact .of_perm (.refl _) fun y hy => absurd hy List.not_mem_nil

/--
What waits for links and what comes to the queue, when a device is at an event: all that is new is
lighter than the event, or than what left a line.
-/
theorem weights_of_effect (hf : net.Flowing) (hpaced : net.Paced)
    (hforest : net.topology.toLayout.Forest) (hnetwork : s.network = net) {m m' : Machine}
    (hid : m.id = d) (hm : Equipped net d m)
    (hlined : ∀ kind, ∀ w ∈ (m.outbound.queue kind).waiting, ∃ goal, Lined net d kind w goal)
    (hwaiting : ∀ w ∈ m.outbound.waits, ∃ app e, w.message.OnEdge net app e) {event : Event}
    (harrived : ∀ message, event = .messageArrived message → ∃ app e, message.OnEdge net app e)
    {actions : List Action} (h : m.Effect net event actions m') :
    Weight.Traded ((Task.device event).weight net d) (m.weights net) (m'.weights net)
      (s.weights net (actions.filterMap (s.booking? d))) := by
  cases h with
  | @cycle o o' actions ho ht =>
    refine .of_perm (.refl _) fun y hy => ?_
    obtain ⟨b, hb, htime, rfl⟩ := mem_weights.mp hy
    obtain ⟨a, ha, hb⟩ := List.mem_filterMap.mp hb
    rcases Orchestrator.tick_actions ht ha with rfl | ⟨target, e, rfl, hinternal, _⟩
    · cases booked_of_booking? hb
      obtain ⟨dev, hdev, _, horchestrates⟩ := hm
      have hnone := hpaced (Nat.add_eq_left.mp htime) d dev hdev
      rw [hnone, ho] at horchestrates
      cases horchestrates
    · cases booked_of_booking? hb
      exact Task.weight_of_isInternal hinternal net target ▸ Weight.least_lt_most
  | @freed kind actions o ho =>
    rcases Outbound.departs_of_freed ho with ⟨rfl, hwaits⟩ | ⟨w, hw, htransmit, hwaits⟩
    · exact .of_perm (hwaits.map _) fun y hy => absurd hy List.not_mem_nil
    · obtain ⟨goal, hline⟩ := hlined kind w hw
      obtain ⟨app, e, hedge⟩ := hwaiting w (Outbound.mem_waits.mpr ⟨kind, hw⟩)
      refine ⟨[w.weight net d], [], o.waits.map (Waiting.weight net m.id), ?_, .refl _,
        fun y hy => Or.inr ⟨_, List.mem_singleton_self _, ?_⟩⟩
      · rw [← hid]
        exact hwaits.map _
      · exact weights_of_depart hf hforest hm hline hedge htransmit hy
  | @received message counted rest turns o hcounted hrest =>
    obtain ⟨app, e, hedge⟩ := harrived message rfl
    have hcounting : counted.filterMap (s.booking? d) = [] :=
      List.filterMap_eq_nil_iff.mpr fun a ha => by rw [hcounted a ha]; rfl
    rw [List.filterMap_append, hcounting, List.nil_append]
    exact weights_of_dispatched hf hforest hnetwork hid hm hedge hrest
  | _ => exact .of_perm (.refl _) fun y hy => absurd hy List.not_mem_nil

/-! ## Steps -/

/-- A step at the present instant takes its task away, and what it schedules comes for it. -/
theorem lighter_of_books (hk : s.Kept history) (hq : s.queue.first? = some (key, task))
    (hkey : key.time = s.now) {machines : SortedMap DeviceId Machine}
    (hb : Books { s.take key task with machines } s' bookings)
    (h : Weight.Traded (task.weight net key.device)
      (s.machines.values.flatMap (Machine.weights net))
      (machines.values.flatMap (Machine.weights net)) ((s.take key task).weights net bookings)) :
    Weight.Lighter (s'.left net) (s.left net) := by
  have hqueue : (s'.queue.entries.filterMap (Queue.weight? net key.time)).Perm
      ((s.take key task).weights net bookings
        ++ (SortedMap.entries s.queue.dropFirst).filterMap (Queue.weight? net key.time)) :=
    hb.filterMap_entries (fun e he => (hk.take hq).sequence_le he) fun _ _ => rfl
  have hnow : s'.now = key.time := hb.now
  have hfirst : s.queue.entries.filterMap (Queue.weight? net key.time)
      = task.weight net key.device
        :: (SortedMap.entries s.queue.dropFirst).filterMap (Queue.weight? net key.time) := by
    rw [Queue.entries_of_first hq]
    exact List.filterMap_cons_some (if_pos rfl)
  rw [left, left, hnow, hb.machines, ← hkey, hfirst]
  exact h.lighter hqueue

/-- A step at the present instant makes lighter what is left of it. -/
theorem lighter_of_process (hb : Topology.build l = .ok net.topology)
    (ha : net.applications = .ofList apps) (hf : net.Flowing) (hpaced : net.Paced)
    (h : Ran net seed history s) (hq : s.queue.first? = some (key, task))
    (hkey : key.time = s.now) (hp : (s.take key task).process key task = .ok s') :
    Weight.Lighter (s'.left net) (s.left net) := by
  have hk := kept_of_ran h
  have harranged := (intact_of_ran hb h).arranged
  have hnetwork : (s.take key task).network = net := harranged.network
  have hladen := laden_of_ran hb ha h
  have hedges {d : DeviceId} {message : Message}
      (hcarried : task.carried? key.device = some (d, message)) :
      ∃ app e, message.OnEdge net app e :=
    hladen.edges d message (.queued (Queue.mem_of_first hq) hcarried)
  -- Where no machine changes, only what is scheduled counts.
  have hsame {s' : Simulation} {bookings : List Booking}
      (hbooks : (s.take key task).Books s' bookings)
      (hless : ∀ y ∈ (s.take key task).weights net bookings, y < task.weight net key.device) :
      Weight.Lighter (s'.left net) (s.left net) :=
    lighter_of_books hk hq hkey hbooks (.of_perm (.refl _) hless)
  cases task with
  | sensorTick id =>
    obtain ⟨bookings, hbooks, hemission⟩ := tick_books hp
    refine hsame hbooks fun y hy => ?_
    obtain ⟨b, hmem, htime, rfl⟩ := mem_weights.mp hy
    cases hemission b hmem with
    | arrival _ _ _ => exact Weight.ofMessage_lt_most
    | interval hx => exact absurd (Nat.add_eq_left.mp htime) (interval_of_ran h hx)
  | executionCompleted target message =>
    rw [← Except.ok.inj hp]
    refine hsame (complete_books _ target message) fun y hy => ?_
    obtain ⟨b, hmem, _, rfl⟩ := mem_weights.mp hy
    obtain ⟨output, hanswer, rfl⟩ := List.mem_map.mp hmem
    obtain ⟨app, _, hedge⟩ := hedges rfl
    obtain ⟨e, hanswers, houtput, _⟩ := answer_of_mem_outputs ha hnetwork hedge.registered hanswer
    exact Weight.ofMessage_lt_of_edges
      (Message.edgesAhead_lt hf hedge.registered houtput hanswers)
  | device event =>
    rcases happen_books hp with ⟨_, rfl⟩ | ⟨m, actions, m', hm, hv, hbooks⟩
    · exact hsame (.refl _) fun y hy => absurd hy List.not_mem_nil
    rw [hnetwork] at hv
    have hm : s.machine? key.device = some m := hm
    have harrived (message : Message) (he : event = .messageArrived message) :
        ∃ app e, message.OnEdge net app e := by
      subst he
      exact hedges rfl
    have htraded := weights_of_effect (s := s.take key (.device event))
      (m := { m with now := key.time }) hf hpaced (Layout.forest_of_build hb) hnetwork
      (harranged.id _ m hm) (hladen.machines _ m hm)
      (fun kind w hw => lined_of_ran hb h (linkQueue_eq hm ▸ hw))
      (fun w hw => hladen.edges _ _ (.waiting hm hw)) harrived (Machine.effect_of_handle hv)
    obtain ⟨rest, hold, hnew⟩ := flatMap_insert (Machine.weights net) hm m'
    exact lighter_of_books hk hq hkey hbooks (htraded.among hold hnew)

end Simulation

end FogNet
