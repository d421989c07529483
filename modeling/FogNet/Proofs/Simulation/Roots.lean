import FogNet.Proofs.Simulation.Loads
import FogNet.Proofs.Simulation.Samples

/-!
# The roots of messages

A message that a sensor emits is its own root. Answers take over the root of what they answer, and
when it was emitted, and nothing on the way changes them. So every message under way goes back to
the emission of a sensor of its application, however long the chain of answers is. What is measured
when it reaches an actuator is therefore the time since that emission, with the latency of the
actuator.

## Main statements

* `Carries.step` — what a step has to keep of messages on their way and of those being processed
* `rooted_of_ran` — every message under way goes back to an emission
* `loops_measured` — so what is recorded for a loop is the time since an emission
-/

namespace FogNet

namespace Simulation

variable {net : Network} {seed : UInt64} {s s' : Simulation} {l : Layout} {history : List Step}
  {apps : List Application} {d : DeviceId} {message : Message} {bookings : List Booking}
  {key : Key} {task : Task} {P P' Q Q' : Message → Prop}

/-! ## Messages on their way and in process -/

/-- One thing holds of all messages that arrive or wait, another one of all that are processed. -/
structure Carries (s : Simulation) (P Q : Message → Prop) : Prop where
  arriving : ∀ e ∈ s.queue.entries, ∀ message, e.2 = .device (.messageArrived message) → P message
  waiting : ∀ d m, s.machine? d = some m → ∀ w ∈ m.outbound.waits, P w.message
  processed : ∀ e ∈ s.queue.entries, ∀ target message,
    e.2 = .executionCompleted target message → Q message

namespace Carries

theorem imp (h : s.Carries P Q) (hP : ∀ message, P message → P' message)
    (hQ : ∀ message, Q message → Q' message) : s.Carries P' Q' where
  arriving e he message ht := hP message (h.arriving e he message ht)
  waiting d m hm w hw := hP w.message (h.waiting d m hm w hw)
  processed e he target message ht := hQ message (h.processed e he target message ht)

/-- What holds of all these messages holds of all that are under way. -/
theorem live (h : s.Carries P P) (hlive : s.Live d message) : P message := by
  cases hlive with
  | @queued e _ _ he hcarried =>
    cases ht : e.2 with
    | device event =>
      rw [ht] at hcarried
      cases event with
      | messageArrived arrived =>
        obtain ⟨_, rfl⟩ := Prod.mk.inj (Option.some.inj hcarried)
        exact h.arriving e he _ ht
      | _ => cases hcarried
    | sensorTick id =>
      rw [ht] at hcarried
      cases hcarried
    | executionCompleted target input =>
      rw [ht] at hcarried
      obtain ⟨_, rfl⟩ := Prod.mk.inj (Option.some.inj hcarried)
      exact h.processed e he _ _ ht
  | waiting hm hw => exact h.waiting _ _ hm _ hw

theorem create (net : Network) (seed : UInt64) : (create net seed).Carries P Q where
  arriving _ he := absurd he List.not_mem_nil
  waiting d m hm w hw := by
    obtain ⟨_, _, _, rfl⟩ := machine?_create hm
    exact absurd hw List.not_mem_nil
  processed _ he := absurd he List.not_mem_nil

theorem still (h : s.Carries P Q) (hs : s.Still s') : s'.Carries P Q where
  arriving e he := h.arriving e (hs.queue e he)
  waiting d m' hm' w hw := by
    obtain ⟨m, hm, houtbound, _⟩ := hs.machine d m' hm'
    exact h.waiting d m hm w (houtbound ▸ hw)
  processed e he := h.processed e (hs.queue e he)

theorem books (h : s.Carries P Q) (hb : s.Books s' bookings)
    (harriving : ∀ b ∈ bookings, ∀ message, b.task = .device (.messageArrived message) → P message)
    (hprocessed : ∀ b ∈ bookings, ∀ target message,
      b.task = .executionCompleted target message → Q message) : s'.Carries P Q where
  arriving e he message ht := by
    rcases hb.mem he with ⟨b, hmem, _, _, rfl⟩ | he
    · exact harriving b hmem message ht
    · exact h.arriving e he message ht
  waiting d m hm := h.waiting d m (by rw [machine?, ← hb.machines]; exact hm)
  processed e he target message ht := by
    rcases hb.mem he with ⟨b, hmem, _, _, rfl⟩ | he
    · exact hprocessed b hmem target message ht
    · exact h.processed e he target message ht

/-- The start puts no message under way. -/
theorem start {s₀ : Simulation} (h : s.Carries P Q) (hb : s.Books s' bookings)
    (hopening : ∀ b ∈ bookings, s₀.Opening b) : s'.Carries P Q := by
  refine h.books hb (fun b hmem message ht => ?_) fun b hmem target message ht => ?_
  all_goals
    have hnone := (hopening b hmem).carried?
    rw [ht] at hnone
    cases hnone

/-- What a machine waits with may change. -/
theorem insert (h : s.Carries P Q) {m' : Machine} (hwaits : ∀ w ∈ m'.outbound.waits, P w.message) :
    Carries { s with machines := s.machines.insert d m' } P Q where
  arriving := h.arriving
  waiting e m₁ hm₁ w hw := by
    rw [machine?, SortedMap.get?_insert] at hm₁
    split at hm₁
    · rw [← Option.some.inj hm₁] at hw
      exact hwaits w hw
    · exact h.waiting e m₁ hm₁ w hw
  processed := h.processed

/-- A message arrives because it was put on a link. -/
theorem transmit_of_booking? {device : DeviceId} {a : Action} {b : Booking} (ha : a.LetsInternal)
    (hb : s.booking? device a = some b) (ht : b.task = .device (.messageArrived message)) :
    ∃ target link transmission latency, a = .transmit target link message transmission latency := by
  cases booked_of_booking? hb with
  | transmit target link message transmission latency =>
    obtain rfl := Event.messageArrived.inj (Task.device.inj ht)
    exact ⟨target, link, transmission, latency, rfl⟩
  | deliver event _ | enqueueInternal event =>
    obtain rfl := Task.device.inj ht
    cases ha
  | setTimer timer _ => cases timer <;> cases ht
  | execute _ => cases ht

/-- A message is processed because an instance was chosen for it. -/
theorem execute_of_booking? {device : DeviceId} {a : Action} {b : Booking} {target : InstanceId}
    (hb : s.booking? device a = some b) (ht : b.task = .executionCompleted target message) :
    a = .execute target message := by
  cases booked_of_booking? hb with
  | execute _ =>
    obtain ⟨rfl, rfl⟩ := Task.executionCompleted.inj ht
    rfl
  | _ => cases ht

/-- What an event puts under way was handed to a link before, or has just arrived. -/
theorem happen {event : Event} (h : s.Carries P Q)
    (hq : s.queue.first? = some (key, .device event))
    (hp : (s.take key (.device event)).happen key.device event = .ok s')
    (haddressed : ∀ {m : Machine} {d : DeviceId} {message addressed : Message}, P message →
      m.addressed? message = some (d, addressed) → P addressed)
    (hchosen : ∀ {message : Message} (target : InstanceId) (d : DeviceId), P message →
      Q ((message.setPin message.destination target).recordTraversal d message.destination)) :
    s'.Carries P Q := by
  have htaken := h.still (take_still hq)
  rcases happen_books hp with ⟨_, rfl⟩ | ⟨m, actions, m', hm, hv, hbooks⟩
  · exact htaken
  have heffect := Machine.effect_of_handle hv
  have hknown : s.machine? key.device = some m := hm
  have harrived {arrived : Message} (he : event = .messageArrived arrived) : P arrived :=
    h.arriving _ (Queue.mem_of_first hq) arrived (congrArg Task.device he)
  have hhanded {w : Waiting} (hw : w ∈ m.outbound.waits ∨ ∃ kind,
      ({ m with now := key.time } : Machine).handedTo? s.network kind event = some w) :
      P w.message := by
    rcases hw with hw | ⟨_, hw⟩
    · exact h.waiting _ m hknown w hw
    · obtain ⟨arrived, _, _, rfl, hw, _⟩ := Machine.handedTo?_cases hw
      exact haddressed (harrived rfl) hw
  have hinsert : Carries { s.take key (.device event) with
      machines := s.machines.insert key.device m' } P Q :=
    htaken.insert fun w hw => hhanded (Machine.waits_of_effect heffect hw)
  refine hinsert.books hbooks (fun b hb message ht => ?_) fun b hb target message ht => ?_
  · obtain ⟨a, ha, hb⟩ := List.mem_filterMap.mp hb
    obtain ⟨_, _, _, _, rfl⟩ :=
      transmit_of_booking? (Machine.internal_of_effect heffect a ha) hb ht
    exact hhanded (Machine.transmit_of_effect heffect ha)
  · obtain ⟨a, ha, hb⟩ := List.mem_filterMap.mp hb
    obtain rfl := execute_of_booking? hb ht
    obtain ⟨arrived, rest, o, he, hrest, hmem⟩ :=
      Machine.dispatched_of_effect heffect ha (fun hc => hc.elim) rfl
    obtain ⟨addressed, hbound, _, rfl⟩ := Machine.execute_of_dispatched hrest hmem
    exact hchosen target _ (haddressed (harrived he) hbound)

/--
What a step keeps: it holds of what is emitted, of the answers to what was processed, and of
messages that dispatch has bound for a device; and when an instance is chosen, the other thing
holds.
-/
theorem step (h : s.Carries P Q) (hq : s.queue.first? = some (key, task))
    (hp : (s.take key task).process key task = .ok s')
    (hemitted : ∀ e ∈ Step.emitted ⟨s, key, task⟩, P e.message)
    (hanswered : ∀ {input output : Message}, Q input → output ∈ (s.take key task).outputs input →
      P output)
    (haddressed : ∀ {m : Machine} {d : DeviceId} {message addressed : Message}, P message →
      m.addressed? message = some (d, addressed) → P addressed)
    (hchosen : ∀ {message : Message} (target : InstanceId) (d : DeviceId), P message →
      Q ((message.setPin message.destination target).recordTraversal d message.destination)) :
    s'.Carries P Q := by
  have htaken := h.still (take_still hq)
  cases task with
  | device event => exact h.happen hq hp haddressed hchosen
  | executionCompleted target input =>
    rw [← Except.ok.inj hp]
    have hinput := h.processed _ (Queue.mem_of_first hq) target input rfl
    refine htaken.books (complete_books _ target input) (fun b hb message ht => ?_)
      fun b hb _ message ht => ?_
    · obtain ⟨output, houtput, rfl⟩ := List.mem_map.mp hb
      cases ht
      exact hanswered hinput houtput
    · obtain ⟨_, _, rfl⟩ := List.mem_map.mp hb
      cases ht
  | sensorTick id =>
    refine htaken.books (tick_schedules hp) (fun b hb message ht => ?_)
      fun b hb target message ht => ?_
    · refine hemitted ⟨id, b.device, message⟩ (List.mem_filterMap.mpr ⟨b, hb, ?_⟩)
      rw [ht]
      rfl
    · cases emission_of_mem_ticked hb <;> cases ht

end Carries

/-! ## Roots -/

/-- A message goes back to what a sensor of its application emitted in a step. -/
structure Step.Roots (x : Step) (message : Message) : Prop where
  emission : ∃ e ∈ x.emitted, e.message.id = message.root ∧ e.message.app = message.app
    ∧ ∃ y, x.before.sensors.get? e.sensor = some y ∧ y.app = message.app
  time : message.emittedAt = x.key.time

/-- A message goes back to an emission, and belongs to the user of its application. -/
structure Rooted (net : Network) (history : List Step) (message : Message) : Prop where
  root : ∃ x ∈ history, x.Roots message
  past : message.emittedAt ≤ clock history
  user : ∃ app, net.application? message.app = some app ∧ message.user = app.user

namespace Rooted

/-- Only the root matters, and to whom the message belongs. -/
theorem congr (h : Rooted net history message) {message' : Message}
    (happ : message'.app = message.app) (huser : message'.user = message.user)
    (hroot : message'.root = message.root) (htime : message'.emittedAt = message.emittedAt) :
    Rooted net history message' where
  root := by
    obtain ⟨x, hx, hroots⟩ := h.root
    exact ⟨x, hx, by rw [hroot, happ]; exact hroots.emission, htime.trans hroots.time⟩
  past := htime ▸ h.past
  user := by
    rw [happ, huser]
    exact h.user

/-- What goes back to an emission goes on doing so. -/
theorem grows (h : Rooted net history message) {x : Step} (hx : clock history ≤ x.key.time) :
    Rooted net (history ++ [x]) message where
  root := by
    obtain ⟨y, hy, hroots⟩ := h.root
    exact ⟨y, List.mem_append_left _ hy, hroots⟩
  past := by
    rw [clock_append]
    exact h.past.trans hx
  user := h.user

/-- What a sensor emits goes back to itself. -/
theorem emitted (ha : net.applications = .ofList apps) (hnetwork : s.network = net) {e : Emitted}
    (he : e ∈ Step.emitted ⟨s, key, task⟩) :
    Rooted net (history ++ [⟨s, key, task⟩]) e.message := by
  obtain ⟨y, app, edge, _, hy, happ, _, _, hmessage⟩ := Step.emitted_cases he
  rw [hnetwork] at happ
  have hid : app.id = y.app := Network.id_of_application? ha happ
  refine ⟨⟨_, List.mem_append_right _ List.mem_cons_self, ⟨e, he, ?_, rfl, y, hy, ?_⟩, ?_⟩, ?_,
    app, ?_, ?_⟩
  · rw [hmessage]
  · rw [hmessage]
    exact hid.symm
  · rw [hmessage]
  · rw [hmessage, clock_append]
  · rw [hmessage]
    exact hid.symm ▸ happ
  · rw [hmessage]

/-- An answer goes back to what the answered message goes back to. -/
theorem answer (ha : net.applications = .ofList apps) (hnetwork : s.network = net)
    (h : Rooted net history message) {output : Message} (hanswer : output ∈ s.outputs message) :
    Rooted net history output := by
  obtain ⟨app, happ, _⟩ := h.user
  obtain ⟨e, _, _, id, rfl⟩ := answer_of_mem_outputs ha hnetwork happ hanswer
  exact h.congr (Network.id_of_application? ha happ) rfl rfl rfl

end Rooted

/-- In every reached simulation all messages go back to emissions. -/
theorem rooted_of_ran (hb : Topology.build l = .ok net.topology)
    (ha : net.applications = .ofList apps) (h : Ran net seed history s) :
    s.Carries (Rooted net history) (Rooted net history) := by
  refine invariant_of_ran
    (P := fun history s => s.Carries (Rooted net history) (Rooted net history)) h (.create net seed)
    (fun ih hs _ _ => ih.still hs) (fun _ _ ih hbooks hopening => ih.start hbooks hopening)
    fun {history s s' key task} h ih hq hp => ?_
  have hnetwork := (intact_of_ran hb h).arranged.network
  have hclock : clock history ≤ key.time := (kept_of_ran h).clock_le hq
  have hgrown : s.Carries (Rooted net (history ++ [⟨s, key, task⟩]))
      (Rooted net (history ++ [⟨s, key, task⟩])) :=
    ih.imp (fun _ hr => hr.grows hclock) fun _ hr => hr.grows hclock
  refine hgrown.step hq hp (fun e he => .emitted ha hnetwork he)
    (fun hr hanswer => hr.answer ha hnetwork hanswer) (fun hr haddressed => ?_) fun _ _ hr => ?_
  · rw [(Machine.bound_of_addressed? haddressed).2]
    exact hr.congr rfl rfl rfl rfl
  · exact hr.congr rfl rfl rfl rfl

/-! ## What is measured -/

/--
In every reached simulation a message under way has as its root what a sensor of its application
emitted, it says when this was, which is not later than now, and it belongs to the user of the
application. What is recorded for a loop is recorded from samples, in order, and a sample is the
time from such an emission to the arrival at the actuator, with the latency of the actuator. The
emission is never later than the arrival, so nothing is cut off.
-/
theorem loops_measured (hb : Topology.build l = .ok net.topology)
    (ha : net.applications = .ofList apps) (h : Ran net seed history s) :
    (∀ d message, s.Live d message → (∃ x ∈ history, x.Roots message)
        ∧ message.emittedAt ≤ s.now
        ∧ ∃ app, net.application? message.app = some app ∧ message.user = app.user)
    ∧ (∀ key, s.statistics.loopLatency.get? key
        = ((sampledIn history).filter fun z => z.loop = key).foldl
            (fun found z => some ((found.getD {}).record z.taken)) none)
    ∧ ∀ x ∈ history, ∀ z ∈ x.samples, x.Takes net z ∧ ∃ y ∈ history, y.Roots z.message
        ∧ y.key.time ≤ x.key.time ∧ z.taken + y.key.time = x.key.time + z.actuator.latency := by
  refine ⟨fun d message hlive => ?_, fun key => ?_, fun x hx z hz => ?_⟩
  · have hrooted := (rooted_of_ran hb ha h).live hlive
    exact ⟨hrooted.root, hrooted.past.trans (kept_of_ran h).passed, hrooted.user⟩
  · rw [(counted_of_ran h).loops, Sample.get?_recordAll]
    rfl
  · have htakes := takes_of_mem hb h hx hz
    obtain ⟨earlier, hran, hq, _, hearlier⟩ := h.mem_earlier hx
    have hrooted := (rooted_of_ran hb ha hran).arriving _ (Queue.mem_of_first hq) _ htakes.arrived
    obtain ⟨y, hy, hroots⟩ := hrooted.root
    have hpast : y.key.time ≤ x.key.time := by
      rw [← hroots.time]
      exact hrooted.past.trans ((kept_of_ran hran).clock_le hq)
    refine ⟨htakes, y, hearlier y hy, hroots, hpast, ?_⟩
    rw [htakes.taken, hroots.time]
    exact Nat.sub_add_cancel (hpast.trans (Nat.le_add_right _ _))

/-! ## A lamp -/

/--
The client of this application lets a lamp shine for each message of a sensor, and asks another
module, at whose answer it lets the lamp shine once more. Both ways to the lamp are loops.
-/
def lamp : Application :=
  { id := "a", user := 1
    microservices := [
      ⟨"client", 10, 0, 0,
        [⟨"t", "s", .ofFloat 1.0⟩, ⟨"t", "u", .ofFloat 1.0⟩, ⟨"r", "s", .ofFloat 1.0⟩]⟩,
      ⟨"m", 10, 0, 0, [⟨"u", "r", .ofFloat 1.0⟩]⟩]
    edges := [
      .ofSensor "t" "client" 1 1000,
      ⟨.module, "client", "m", "u", .up, 1, 1000⟩,
      ⟨.module, "m", "client", "r", .down, 1, 1000⟩,
      .toActuator "client" "lamp" "s" 1 1000]
    loops := [["t", "client", "lamp"], ["t", "client", "m", "client", "lamp"]] }

/-- The phone has a client module of the application, and the cloud has room for the others. -/
def lampNetwork (app : Application) : Network :=
  { topology := phoneTopology, applications := .ofList [app], policy := {} }

/-- A sensor and a lamp for the phone. -/
def lampSetup : List Call := [
  .addSensor
    { id := 1, gateway := 2, app := "a", tupleType := "t", interval := Duration.ofMillis 500 },
  .addActuator
    { id := 1, device := 2, app := "a", actuatorType := "lamp", latency := Duration.ofMillis 1 }]

/-- The phone with its sensor and the lamp, before the start. -/
def lampStart (app : Application) : Simulation :=
  match drive lampSetup (create (lampNetwork app) 0) with
  | .ok s => s
  | .error _ => create (lampNetwork app) 0

theorem ran_lampStart (app : Application) : Ran (lampNetwork app) 0 [] (lampStart app) := by
  have hsetup : ∀ c ∈ lampSetup, c.IsSetup := by simp [lampSetup, Call.IsSetup]
  unfold lampStart
  split
  · next hs => exact (fresh_of_setup hsetup .create hs).1
  · exact .create

/--
The message that the sensor emits after half a second makes the lamp shine. It took 106 milliseconds
to the phone's client and through it, and the lamp takes one more.
-/
theorem loops_measured_lamp : ∃ (s : Simulation) (x : Step) (z : Sample) (y : Step),
    Ran (lampNetwork lamp) 0 ((lampStart lamp).stepsUntil (Duration.ofMillis 606) 60) s
    ∧ x ∈ (lampStart lamp).stepsUntil (Duration.ofMillis 606) 60 ∧ z ∈ x.samples
    ∧ z.loop = ⟨"a", 0⟩ ∧ z.taken = Duration.ofMillis 107
    ∧ y.Roots z.message ∧ y.key.time = Duration.ofMillis 500 := by
  obtain ⟨s, hs, _⟩ := exists_of_finishesWith (p := fun _ => true)
    (show finishesWith _ ((lampStart lamp).runUntil (Duration.ofMillis 606) 60) = true by
      decide +kernel)
  have hran : Ran (lampNetwork lamp) 0 ((lampStart lamp).stepsUntil (Duration.ofMillis 606) 60) s :=
    ran_of_runUntil (ran_lampStart lamp) hs
  obtain ⟨x, hx, hsampled⟩ := List.any_eq_true.mp
    (show ((lampStart lamp).stepsUntil (Duration.ofMillis 606) 60).any
        (fun x => x.samples.any fun z => z.loop = ⟨"a", 0⟩ ∧ z.taken = Duration.ofMillis 107
          ∧ x.key.time + z.actuator.latency = Duration.ofMillis 607) = true by decide +kernel)
  obtain ⟨z, hz, hsampled⟩ := List.any_eq_true.mp hsampled
  obtain ⟨hloop, htaken, hlatency⟩ := of_decide_eq_true hsampled
  obtain ⟨_, _, hsamples⟩ := loops_measured build_phone
    (show (lampNetwork lamp).applications = .ofList [lamp] from rfl) hran
  obtain ⟨_, y, _, hroots, _, hsum⟩ := hsamples x hx z hz
  refine ⟨s, x, z, y, hran, hx, hz, hloop, htaken, hroots, ?_⟩
  rw [htaken, hlatency] at hsum
  exact Nat.add_left_cancel (hsum.trans (by decide))

end Simulation

end FogNet
