import FogNet.Proofs.Simulation.Instant
import FogNet.Proofs.Simulation.Journeys
import FogNet.Proofs.Simulation.Range
import FogNet.Proofs.Simulation.Slices

/-!
# Ends of runs

A run comes to an end where nothing circles in no time. A step either comes to a later time, of
which there are finitely many up to the end, or it makes lighter what is left of its instant. It is
the end that was asked for, if all durations stay in range.

Where placement cycles take no time and there is a device that orchestrates, a run does not get past
its first instant.

## Main statements

* `halts_of_ran` — some budget is enough for a run
* `advance_ne_overflow` — a run does not break off while durations stay in range
* `not_ends` — a run does not get past cycles that take no time
* `runUntil_ends` — whether runs come to their ends
-/

namespace FogNet

open Relation (TransGen)

/-- Nothing circles in no time, if all links and all processing take some time. -/
theorem Network.flowing_of_pos {net : Network}
    (hlinks : ∀ a b link, net.topology.link? a b = some link → 0 < link.latency)
    (hedges : ∀ id app, net.application? id = some app → ∀ e ∈ app.edges,
      app.processingTime? e.destination e.cpuLength ≠ some 0) : net.Flowing where
  edges id app happ e h := by
    obtain ⟨_, hfirst, _⟩ := TransGen.head'_iff.mp h
    obtain ⟨_, _, hlast⟩ := TransGen.tail'_iff.mp h
    exact hedges id app happ e hlast.2.edge hfirst.1
  hops goal d h := by
    obtain ⟨_, ⟨_, _, _, _, _, _, hlink, hlatency, _⟩, _⟩ := TransGen.head'_iff.mp h
    exact (hlinks _ _ _ hlink).ne' hlatency

namespace Simulation

variable {net : Network} {seed : UInt64} {s s' : Simulation} {l : Layout} {history : List Step}
  {apps : List Application} {bookings : List Booking} {key : Key} {task : Task}
  {stop latest : Duration}

/-! ## Ends -/

/-- Some budget is enough for a run: it is finished then, or it has broken off. -/
def Halts (stop : Duration) (s : Simulation) : Prop :=
  ∃ budget, ∀ s', advance stop budget s ≠ .exhausted s'

theorem halts_of_idle (h : s.next? stop = none) : s.Halts stop := by
  refine ⟨0, fun s' => ?_⟩
  rw [advance, h]
  exact Outcome.noConfusion

theorem halts_of_step (hnext : s.next? stop = some (key, task))
    (h : ∀ s', (s.take key task).process key task = .ok s' → s'.Halts stop) : s.Halts stop := by
  cases hp : (s.take key task).process key task with
  | error left =>
    refine ⟨1, fun s' => ?_⟩
    rw [advance, hnext]
    simp only [hp]
    exact Outcome.noConfusion
  | ok s₁ =>
    obtain ⟨budget, hbudget⟩ := h s₁ hp
    refine ⟨budget + 1, fun s' => ?_⟩
    rw [advance, hnext]
    simp only [hp]
    exact hbudget s'

/-- After a step nothing that is to come is past. -/
theorem due_of_step (h : Ran net seed history s) (hq : s.queue.first? = some (key, task))
    (hp : (s.take key task).process key task = .ok s') :
    ∀ e ∈ s'.queue.entries, s'.now ≤ e.1.time := by
  have hdue := (kept_of_ran (h.step hq hp)).due
  rw [clock_append] at hdue
  rw [process_now hp]
  exact hdue

/-- A step comes to a later time, or it makes lighter what is left of the instant. -/
theorem halts_of_due (hb : Topology.build l = .ok net.topology)
    (ha : net.applications = .ofList apps) (hf : net.Flowing) (hpaced : net.Paced)
    (h : Ran net seed history s) (hdue : ∀ e ∈ s.queue.entries, s.now ≤ e.1.time) :
    s.Halts stop := by
  have hwf : WellFounded (InvImage (Prod.Lex (· < ·) Weight.Lighter)
      fun s : Simulation => (stop - s.now, s.left net)) :=
    InvImage.wf _ (WellFounded.prod_lex Nat.lt_wfRel.wf Weight.wellFounded_lighter)
  induction s using hwf.induction generalizing history with
  | h s ih =>
    cases hnext : s.next? stop with
    | none => exact halts_of_idle hnext
    | some next =>
      obtain ⟨key, task⟩ := next
      have hq := (Option.filter_eq_some_iff.mp hnext).1
      refine halts_of_step hnext fun s' hp => ih s' ?_ (h.step hq hp) (due_of_step h hq hp)
      have hnow : s'.now = key.time := process_now hp
      have hstop : key.time ≤ stop := next?_time hnext
      have hle : s.now ≤ key.time := hdue _ (Queue.mem_of_first hq)
      rw [InvImage, hnow]
      rcases Nat.eq_or_lt_of_le hle with heq | hlt
      · rw [← heq]
        exact .right _ (lighter_of_process hb ha hf hpaced h hq heq.symm hp)
      · exact .left _ _ (Nat.sub_lt_sub_left (Nat.lt_of_lt_of_le hlt hstop) hlt)

/-- Some budget is enough for any run, where nothing circles in no time. -/
theorem halts_of_ran (hb : Topology.build l = .ok net.topology)
    (ha : net.applications = .ofList apps) (hf : net.Flowing) (hpaced : net.Paced)
    (h : Ran net seed history s) : s.Halts stop := by
  cases hnext : s.next? stop with
  | none => exact halts_of_idle hnext
  | some next =>
    obtain ⟨key, task⟩ := next
    have hq := (Option.filter_eq_some_iff.mp hnext).1
    exact halts_of_step hnext fun s' hp =>
      halts_of_due hb ha hf hpaced (h.step hq hp) (due_of_step h hq hp)

/-! ## Durations in range -/

namespace InRange

theorem process (h : s.InRange net latest) (hp : s.process key task = .ok s') :
    s'.InRange net latest := by
  obtain ⟨_, _, hbooks⟩ := process_books hp
  exact h.of_same hbooks.sensors hbooks.actuators

theorem start (h : s.InRange net latest) (hs : s.start = .ok s') : s'.InRange net latest := by
  obtain ⟨_, hbooks, _⟩ := start_books hs
  exact h.of_same hbooks.sensors hbooks.actuators

end InRange

/-- A run does not break off while durations stay in range. -/
theorem advance_ne_overflow (hb : Topology.build l = .ok net.topology)
    (ha : net.applications = .ofList apps) {budget : Nat} {left : Overflow}
    (h : Ran net seed history s) (hr : s.InRange net latest) (hstop : stop ≤ latest) :
    advance stop budget s ≠ .overflow left := by
  induction budget generalizing s history with
  | zero =>
    unfold advance
    split <;> exact Outcome.noConfusion
  | succ budget ih =>
    cases hnext : s.next? stop with
    | none =>
      rw [advance, hnext]
      exact Outcome.noConfusion
    | some next =>
      obtain ⟨key, task⟩ := next
      have hq := (Option.filter_eq_some_iff.mp hnext).1
      obtain ⟨s', hp⟩ := process_ok hb ha h hq hr ((next?_time hnext).trans hstop)
      rw [advance, hnext]
      simp only [hp]
      have htaken : (s.take key task).InRange net latest := hr.of_same rfl rfl
      exact ih (h.step hq hp) (htaken.process hp)

/-- Neither the start nor what follows breaks off while durations stay in range. -/
theorem runUntil_ne_overflow (hb : Topology.build l = .ok net.topology)
    (ha : net.applications = .ofList apps) {budget : Nat} {left : Overflow}
    (h : Ran net seed history s) (hr : s.InRange net (max s.now stop)) :
    s.runUntil stop budget ≠ .overflow left := by
  obtain ⟨s₀, hs⟩ := start_ok hr (Nat.le_max_left _ _)
  simp only [runUntil, hs]
  exact advance_ne_overflow hb ha (h.start hs) (hr.start hs) (Nat.le_max_right _ _)

/-! ## Cycles that take no time -/

/-- The cycles that are to come are due by some time. -/
def CyclesBy (latest : Duration) (s : Simulation) : Prop :=
  ∀ e ∈ s.queue.entries, (Queue.cycle? e).isSome = true → e.1.time ≤ latest

/-- What is scheduled as a cycle is what an action waits for as a cycle. -/
theorem isCycle_of_booking? {device : DeviceId} {actions : List Action}
    (hactions : ∀ a ∈ actions, a.LetsInternal) {b : Booking}
    (hmem : b ∈ actions.filterMap (s.booking? device)) {number : Nat}
    (hb : (Queue.cycle? (b.key number, b.task)).isSome = true) :
    ∃ a ∈ actions.filter Action.isCycle, s.booking? device a = some b := by
  obtain ⟨a, ha, hbooking⟩ := List.mem_filterMap.mp hmem
  refine ⟨a, List.mem_filter.mpr ⟨ha, ?_⟩, hbooking⟩
  have hcycle := cycle?_booking? s device (hactions a ha)
  rw [hbooking, Option.bind_some] at hcycle
  have hsome : (Queue.cycle? (b.key 0, b.task)).isSome = true := hb
  rw [hcycle] at hsome
  split at hsome
  · assumption
  · cases hsome

namespace CyclesBy

/-- Where cycles take no time, the next one is due when the last one was. -/
theorem step (hzero : net.policy.placementInterval = 0) (hnetwork : s.network = net)
    (h : s.CyclesBy latest) (hq : s.queue.first? = some (key, task))
    (hp : (s.take key task).process key task = .ok s') : s'.CyclesBy latest := by
  have hold {e : Key × Task} (he : e ∈ (s.take key task).queue.entries) : e ∈ s.queue.entries := by
    rw [Queue.entries_of_first hq]
    exact List.mem_cons_of_mem _ he
  intro e he hcycle
  cases task with
  | sensorTick id =>
    obtain ⟨bookings, hbooks, hemission⟩ := tick_books hp
    rcases hbooks.mem he with ⟨b, hb, number, _, rfl⟩ | he
    · cases hemission b hb <;> cases hcycle
    · exact h e (hold he) hcycle
  | executionCompleted target message =>
    rw [← Except.ok.inj hp] at he
    rcases (complete_books _ target message).mem he with ⟨b, hb, number, _, rfl⟩ | he
    · obtain ⟨_, _, rfl⟩ := List.mem_map.mp hb
      cases hcycle
    · exact h e (hold he) hcycle
  | device event =>
    rcases happen_books hp with ⟨_, rfl⟩ | ⟨m, actions, m', hm, hv, hbooks⟩
    · exact h e (hold he) hcycle
    rcases hbooks.mem he with ⟨b, hb, number, _, rfl⟩ | he
    · rw [show (s.take key (.device event)).network = net from hnetwork] at hv
      have heffect := Machine.effect_of_handle hv
      obtain ⟨a, ha, hbooking⟩ :=
        isCycle_of_booking? (Machine.internal_of_effect heffect) hb hcycle
      rw [Machine.cycles_of_effect heffect] at ha
      split at ha
      · next hevent =>
        have hdue : key.time ≤ latest := h _ (Queue.mem_of_first hq) <| by
          simp [Queue.cycle?, (Bool.and_eq_true_iff.mp hevent).1]
        rw [List.mem_singleton.mp ha, Orchestrator.nextCycle, hzero] at hbooking
        rw [← Option.some.inj hbooking]
        exact hdue
      · cases ha
    · exact h e (hold he) hcycle

/-- The first cycles are due at the start. -/
theorem of_start (hb : Topology.build l = .ok net.topology) (h : Ran net seed history s)
    (hfresh : s.started = false) (hstart : s.start = .ok s') : s'.CyclesBy s.now := by
  have hempty := (fresh_of_ran (Layout.forest_of_build hb) h hfresh).queue
  obtain ⟨bookings, hbooks, hopening⟩ := start_books hstart
  intro e he hcycle
  rcases hbooks.mem he with ⟨b, hb, number, _, rfl⟩ | he
  · cases hopening b hb with
    | @machine m a b hm ha hbooking =>
      obtain ⟨a, ha, hbooking⟩ := isCycle_of_booking? Machine.internal_of_start
        (List.mem_filterMap.mpr ⟨a, ha, hbooking⟩) hcycle
      rw [Machine.cycles_of_start] at ha
      split at ha
      · rw [List.mem_singleton.mp ha] at hbooking
        rw [← Option.some.inj hbooking]
        exact Nat.le_refl _
      · cases ha
    | _ => cases hcycle
  · have he : e ∈ s.queue.entries := he
    rw [hempty] at he
    cases he

end CyclesBy

/-- A cycle that is due keeps a run from its end, and is followed by another one. -/
theorem not_ends (hb : Topology.build l = .ok net.topology)
    (hzero : net.policy.placementInterval = 0) {orchestrators : List DeviceId}
    {emitters : List (SensorId × DeviceId)} (hne : orchestrators ≠ [])
    (h : Ran net seed history s) (ht : s.Timed orchestrators emitters)
    (hc : s.CyclesBy stop) : ¬ Ends stop s s' := by
  intro hends
  induction hends generalizing history with
  | @idle s hnext =>
    obtain ⟨d, hd⟩ := List.exists_mem_of_ne_nil _ hne
    obtain ⟨e, he, hcycle⟩ := List.mem_filterMap.mp (ht.cycles.mem_iff.mpr hd)
    have htime := hc e he (by rw [hcycle]; rfl)
    cases hq : s.queue.first? with
    | none =>
      rw [List.head?_eq_none_iff.mp hq] at he
      cases he
    | some first =>
      obtain ⟨key, task⟩ := first
      have hfirst : key.time ≤ e.1.time := by
        rw [Queue.entries_of_first hq] at he
        rcases List.mem_cons.mp he with rfl | he
        · exact Nat.le_refl _
        · exact Key.lt_time (Queue.first_lt hq he)
      rw [next?, hq, Option.filter_some, if_pos (decide_eq_true (hfirst.trans htime))] at hnext
      cases hnext
  | step hnext hp _ ih =>
    have hq := (Option.filter_eq_some_iff.mp hnext).1
    exact ih (h.step hq hp) (ht.step (kept_of_ran h) hq hp)
      (hc.step hzero (intact_of_ran hb h).arranged.network hq hp)

/-- Where cycles take no time and some device orchestrates, no run from the start is finished. -/
theorem runUntil_ne_finished (hb : Topology.build l = .ok net.topology)
    (h : Ran net seed history s) (hpaced : ¬ net.Paced) (hfresh : s.started = false)
    (hstop : s.now ≤ stop) (budget : Nat) : s.runUntil stop budget ≠ .finished s' := by
  intro hrun
  obtain ⟨s₀, hstart, hends⟩ := runUntil_iff.mp ⟨budget, hrun⟩
  simp only [Network.Paced, not_forall, Bool.not_eq_false] at hpaced
  obtain ⟨hzero, d, dev, hdev, horchestrates⟩ := hpaced
  have hknown : (net.device? d).isSome = true := by rw [hdev]; rfl
  obtain ⟨m, hm⟩ :=
    Option.isSome_iff_exists.mp ((intact_of_ran hb h).arranged.machines d hknown)
  have ho := (fresh_of_ran (Layout.forest_of_build hb) h hfresh).orchestrates d m hm
  rw [hdev, Option.any_some, horchestrates] at ho
  have hcycles := CyclesBy.of_start hb h hfresh hstart
  exact not_ends hb hzero (List.ne_nil_of_mem (mem_orchestrating.mpr ⟨m, hm, ho⟩)) (h.start hstart)
    (timed_of_start hb h hfresh hstart) (fun e he hc => (hcycles e he hc).trans hstop) hends

/-! ## A relay, and a phone without applications -/

theorem eq_echo_of_relay {id : AppId} {app : Application}
    (happ : relayNetwork.application? id = some app) : app = echo :=
  List.mem_singleton.mp
    (Network.mem_of_application? (show relayNetwork.applications = .ofList [echo] from rfl) happ)

theorem flowing_relay : relayNetwork.Flowing := by
  refine Network.flowing_of_pos relay_latency fun id app happ e he => ?_
  obtain rfl := eq_echo_of_relay happ
  have hedges : ∀ e ∈ echo.edges, echo.processingTime? e.destination e.cpuLength ≠ some 0 := by
    decide +kernel
  exact hedges e he

/-- For an hour the relay stays in range. -/
theorem inRange_relay : relayStart.InRange relayNetwork (Duration.ofSeconds 3600) := by
  have hsensors : ∀ e ∈ relayStart.sensors.entries,
      Duration.ofSeconds 3600 + e.2.interval < Duration.limit
        ∧ Duration.ofSeconds 3600 + e.2.latency < Duration.limit := by decide +kernel
  have hactuators : relayStart.actuators.entries = [] := by decide +kernel
  have hlinks : ∀ a ∈ relay.ids, ∀ b ∈ relay.ids, ∀ link ∈ relay.link? a b,
      ∀ dev ∈ relay.device? a, ∀ e ∈ echo.edges, ∃ t ∈ dev.transmissionTime? link.kind e.size,
        Duration.ofSeconds 3600 + (t + link.latency) < Duration.limit := by decide +kernel
  have hedges : ∀ e ∈ echo.edges, ∃ t ∈ echo.processingTime? e.destination e.cpuLength,
      Duration.ofSeconds 3600 + t < Duration.limit := by decide +kernel
  constructor
  · decide +kernel
  · exact fun id x hx => hsensors (id, x) ((SortedMap.mem_entries_iff _ _ _).mpr hx)
  · intro id a ha
    rw [← SortedMap.mem_entries_iff, hactuators] at ha
    cases ha
  · intro d hop link dev hlink hdev id app happ e he
    obtain ⟨hmem, hmem'⟩ := (Layout.forest_of_build build_relay).mem_ids_of_link? hlink
    rw [eq_echo_of_relay happ] at he
    exact hlinks d hmem hop hmem' link hlink dev hdev e he
  · intro id app happ e he
    rw [eq_echo_of_relay happ] at he ⊢
    exact hedges e he

/-- The phone, with placement cycles at some interval, and with no applications. -/
def phoneEvery (interval : Duration) : Network :=
  { topology := phoneTopology
    applications := .ofList []
    policy := { placementInterval := interval } }

theorem not_paced_phone : ¬ (phoneEvery 0).Paced := fun hpaced => by
  have hcloud := hpaced rfl 1 _ (show (phoneEvery 0).device? 1 = some _ from rfl)
  cases hcloud

theorem application?_phone {id : AppId} {app : Application} :
    (phoneEvery 0).application? id ≠ some app := fun happ => List.not_mem_nil
  (Network.mem_of_application? (show (phoneEvery 0).applications = .ofList [] from rfl) happ)

theorem inRange_phone : (create (phoneEvery 0) 0).InRange (phoneEvery 0) 0 where
  cycles := by decide +kernel
  sensors id x hx := by
    rw [create, SortedMap.get?_empty] at hx
    cases hx
  actuators id a ha := by
    rw [create, SortedMap.get?_empty] at ha
    cases ha
  links _ _ _ _ _ _ _ _ happ := absurd happ application?_phone
  executions _ _ happ := absurd happ application?_phone

/-- The longest interval in whole seconds. -/
def longestInterval : Duration := Duration.ofSeconds 0xFFFFFFFFFFFFFFFF

/-- Whether a run broke off. -/
def breaksOff : Outcome → Bool
  | .overflow _ => true
  | _ => false

theorem exists_of_breaksOff {o : Outcome} (h : breaksOff o = true) :
    ∃ left, o = .overflow left := by
  cases o with
  | overflow left => exact ⟨left, rfl⟩
  | _ => exact absurd h Bool.false_ne_true

/-! ## Whether runs come to their ends -/

/--
Where neither answers nor hops circle in no time and placement cycles take their time, some budget
is enough for a run to any time. It is finished then, if all that may be added to its times stays in
range. Where placement cycles take no time and some device orchestrates, no budget is enough for a
run from the start.
-/
theorem runUntil_ends (hb : Topology.build l = .ok net.topology)
    (ha : net.applications = .ofList apps) (h : Ran net seed history s) (stop : Duration) :
    (net.Flowing → net.Paced → ∃ budget, ∀ s', s.runUntil stop budget ≠ .exhausted s')
      ∧ (net.Flowing → net.Paced → s.InRange net (max s.now stop) →
          ∃ budget s', s.runUntil stop budget = .finished s')
      ∧ (¬ net.Paced → s.started = false → s.now ≤ stop →
          ∀ budget s', s.runUntil stop budget ≠ .finished s') := by
  have hhalts (hf : net.Flowing) (hpaced : net.Paced) :
      ∃ budget, ∀ s', s.runUntil stop budget ≠ .exhausted s' := by
    cases hs : s.start with
    | error left =>
      refine ⟨0, fun s' => ?_⟩
      simp only [runUntil, hs]
      exact Outcome.noConfusion
    | ok s₀ =>
      simp only [runUntil, hs]
      exact halts_of_ran hb ha hf hpaced (h.start hs)
  refine ⟨hhalts, fun hf hpaced hr => ?_, fun hpaced hfresh hstop budget s' =>
    runUntil_ne_finished hb h hpaced hfresh hstop budget⟩
  obtain ⟨budget, hbudget⟩ := hhalts hf hpaced
  cases hrun : s.runUntil stop budget with
  | finished s' => exact ⟨budget, s', hrun⟩
  | overflow left => exact absurd hrun (runUntil_ne_overflow hb ha h hr)
  | exhausted s' => exact absurd hrun (hbudget s')

/--
The relay runs for an hour. The phone does not come to the end of its first instant, if placement
cycles take no time.
-/
theorem runUntil_ends_relay : relayNetwork.Flowing ∧ relayNetwork.Paced
    ∧ relayStart.InRange relayNetwork (max relayStart.now (Duration.ofSeconds 3600))
    ∧ (∃ budget s', relayStart.runUntil (Duration.ofSeconds 3600) budget = .finished s')
    ∧ ¬ (phoneEvery 0).Paced
    ∧ ∀ budget s', (create (phoneEvery 0) 0).runUntil 0 budget ≠ .finished s' := by
  have hpaced : relayNetwork.Paced := fun hzero => absurd hzero (by decide)
  have hrange : relayStart.InRange relayNetwork (max relayStart.now (Duration.ofSeconds 3600)) := by
    rw [show relayStart.now = 0 by decide +kernel, Nat.zero_max]
    exact inRange_relay
  have hran : Ran relayNetwork 0 [] relayStart := ran_withSensors _ _ _
  obtain ⟨_, hfinished, _⟩ := runUntil_ends build_relay
    (show relayNetwork.applications = .ofList [echo] from rfl) hran (Duration.ofSeconds 3600)
  have hphone : Ran (phoneEvery 0) 0 [] (create (phoneEvery 0) 0) := .create
  obtain ⟨_, _, hendless⟩ := runUntil_ends build_phone
    (show (phoneEvery 0).applications = .ofList [] from rfl) hphone 0
  exact ⟨flowing_relay, hpaced, hrange, hfinished flowing_relay hpaced hrange, not_paced_phone,
    hendless not_paced_phone rfl (Nat.le_refl 0)⟩

/--
Two setups of the phone whose runs do not come to their ends. Where placement cycles take no time, a
run uses up any budget at its first instant. Where they take the longest time in whole seconds, a
run of that time breaks off.
-/
theorem not_runUntil_ends : Topology.build phone = .ok phoneTopology
    ∧ (∀ budget, ∃ s', (create (phoneEvery 0) 0).runUntil 0 budget = .exhausted s')
    ∧ ∃ left, (create (phoneEvery longestInterval) 0).runUntil longestInterval 4
        = .overflow left := by
  refine ⟨build_phone, fun budget => ?_, exists_of_breaksOff (by decide +kernel)⟩
  have hran : Ran (phoneEvery 0) 0 [] (create (phoneEvery 0) 0) := .create
  cases hrun : (create (phoneEvery 0) 0).runUntil 0 budget with
  | finished s' =>
    exact absurd hrun (runUntil_ne_finished build_phone hran not_paced_phone rfl (Nat.le_refl 0)
      budget)
  | overflow left =>
    exact absurd hrun (runUntil_ne_overflow build_phone
      (show (phoneEvery 0).applications = .ofList [] from rfl) hran inRange_phone)
  | exhausted s' => exact ⟨s', rfl⟩

end Simulation

end FogNet
