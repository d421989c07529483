import FogNet.Proofs.Machine.Commands
import FogNet.Proofs.Simulation.Loads
import FogNet.Proofs.Simulation.Samples

/-!
# Periods

Nothing in a simulation says how often something is to happen. A timer that goes off sets itself
anew, and so it goes off at its first time and once in every period since, whatever else is in the
queue. For a sensor the first time is the end of its first interval; a device that orchestrates
starts with a cycle. What is due just at the end of a run is still processed.

## Main statements

* `Recurring.books` — a timer that goes off sets itself anew, and nothing else sets it
* `tick_recurs`, `cycle_recurs` — sensors and placement cycles are such timers
* `Recurring.ended` — how often a timer has gone off at the end of a run
* `timers_periodic` — how often, and when, sensors emit and orchestrators place
-/

namespace FogNet

open List (Perm)

/-! ## Lists -/

theorem length_flatMap_eq_sumOf {α β : Type} (f : α → List β) : ∀ l : List α,
    (l.flatMap f).length = sumOf (l.map fun a => (f a).length)
  | [] => rfl
  | a :: l => by
    rw [List.flatMap_cons, List.length_append, length_flatMap_eq_sumOf f l, List.map_cons,
      sumOf_cons]

/-- A list is as long as the parts of it that belong to different keys. -/
theorem length_eq_sumOf_filter {α κ : Type} [DecidableEq κ] (key : α → κ) {keys : List κ}
    {l : List α} (hn : keys.Nodup) (h : ∀ a ∈ l, key a ∈ keys) :
    l.length = sumOf (keys.map fun k => (l.filter fun a => key a = k).length) := by
  have hparts := (flatMap_filter_perm key l hn).length_eq
  rw [List.filter_eq_self.mpr fun a ha => decide_eq_true (h a ha), length_flatMap_eq_sumOf]
    at hparts
  exact hparts.symm

/-! ## Kinds of timers -/

namespace Queue

variable {α : Type} [DecidableEq α] {kind? : Key × Task → Option α} {a : α}

/-- The time of a task of some kind. -/
def time? (kind? : Key × Task → Option α) (a : α) (e : Key × Task) : Option Duration :=
  if kind? e = some a then some e.1.time else none

theorem time?_eq_some {e : Key × Task} {time : Duration} (h : time? kind? a e = some time) :
    time = e.1.time := by
  unfold time? at h
  split at h
  · exact (Option.some.inj h).symm
  · cases h

theorem time?_of_none {e : Key × Task} (h : kind? e = none) : time? kind? a e = none := by
  rw [time?, h, if_neg nofun]

/-- A cycle is begun by the placement timer of its device. -/
theorem timer_of_cycle? {key : Key} {task : Task} {d : DeviceId}
    (h : cycle? (key, task) = some d) : task = .device .placementTimer ∧ key.device = d := by
  cases task with
  | device event =>
    cases event with
    | placementTimer => exact ⟨rfl, Option.some.inj h⟩
    | _ => exact nomatch h
  | sensorTick _ | executionCompleted _ _ => exact nomatch h

/-- What schedules nothing of any kind schedules nothing of one kind. -/
theorem times_eq_nil {bookings : List Booking}
    (h : (bookings.filterMap fun b => kind? (b.key 0, b.task)) = []) :
    (bookings.filterMap fun b => time? kind? a (b.key 0, b.task)) = [] :=
  List.filterMap_eq_nil_iff.mpr fun b hb => time?_of_none (List.filterMap_eq_nil_iff.mp h b hb)

end Queue

namespace Simulation

variable {net : Network} {seed : UInt64} {s s₀ s₁ s' : Simulation} {l : Layout}
  {apps : List Application} {earlier history : List Step} {bookings : List Booking} {key : Key}
  {task : Task} {orchestrators : List DeviceId} {emitters : List (SensorId × DeviceId)}

/-! ## Timers that set themselves -/

/--
A timer has gone off some times, at first and after each period, and the next time is to come, one
period after the last.
-/
structure Recurring {α : Type} [DecidableEq α] (kind? : Key × Task → Option α) (a : α)
    (first period : Duration) (n : Nat) (history : List Step) (s : Simulation) : Prop where
  passed : (history.filterMap fun x => Queue.time? kind? a x.entry)
    = (List.range n).map fun k => first + k * period
  next : s.queue.entries.filterMap (Queue.time? kind? a) = [first + n * period]

namespace Recurring

variable {α : Type} [DecidableEq α] {kind? : Key × Task → Option α} {a : α}
  {first period : Duration} {n : Nat}

/-- Only the queue matters. -/
theorem congr (h : s.Recurring kind? a first period n history) (hqueue : s'.queue = s.queue) :
    s'.Recurring kind? a first period n history := ⟨h.passed, by rw [hqueue]; exact h.next⟩

/-- A timer that goes off sets itself anew, and nothing else sets it. -/
theorem books (h : s.Recurring kind? a first period n history) (hk : s.Kept earlier)
    (hkind : ∀ (b : Booking) (number : Nat), kind? (b.key number, b.task) = kind? (b.key 0, b.task))
    (hq : s.queue.first? = some (key, task)) {machines : SortedMap DeviceId Machine}
    (hb : Books { s.take key task with machines } s' bookings)
    (hset : (bookings.filterMap fun b => Queue.time? kind? a (b.key 0, b.task))
      = ((Queue.time? kind? a (key, task)).map (· + period)).toList) :
    ∃ n', s'.Recurring kind? a first period n' (history ++ [⟨s, key, task⟩]) := by
  have htime (b : Booking) (number : Nat) : Queue.time? kind? a (b.key number, b.task)
      = Queue.time? kind? a (b.key 0, b.task) := by
    rw [Queue.time?, hkind]
    rfl
  have hentries := hb.filterMap_entries (fun e he => (hk.take hq).sequence_le he) htime
  have hnext := h.next
  rw [Queue.entries_of_first hq, List.filterMap_cons] at hnext
  have hlast : ([⟨s, key, task⟩] : List Step).filterMap (fun x => Queue.time? kind? a x.entry)
      = (Queue.time? kind? a (key, task)).toList := by
    rw [List.filterMap_cons, Step.entry]
    cases Queue.time? kind? a (key, task) <;> rfl
  rw [hset] at hentries
  cases ht : Queue.time? kind? a (key, task) with
  | none =>
    rw [ht] at hentries hnext hlast
    have hentries : (s'.queue.entries.filterMap (Queue.time? kind? a)).Perm
      ((SortedMap.entries s.queue.dropFirst).filterMap (Queue.time? kind? a)) := hentries
    rw [show (SortedMap.entries s.queue.dropFirst).filterMap (Queue.time? kind? a) = _ from hnext]
      at hentries
    refine ⟨n, ?_, hentries.eq_singleton⟩
    rw [List.filterMap_append, hlast, h.passed]
    exact List.append_nil _
  | some time =>
    rw [ht] at hentries hnext hlast
    obtain ⟨rfl, hrest⟩ := List.cons.inj hnext
    have hentries : (s'.queue.entries.filterMap (Queue.time? kind? a)).Perm
      ([first + n * period + period] ++
        (SortedMap.entries s.queue.dropFirst).filterMap (Queue.time? kind? a)) := hentries
    rw [hrest] at hentries
    refine ⟨n + 1, ?_, ?_⟩
    · rw [List.filterMap_append, hlast, h.passed, List.range_succ, List.map_append]
      rfl
    · rw [hentries.eq_singleton, Nat.succ_mul, Nat.add_assoc]

/-- At the end of a run a timer has gone off as often as it was due. -/
theorem ended (h : s.Recurring kind? a first period n history) {stop : Duration}
    (hpassed : ∀ x ∈ history, x.key.time ≤ stop)
    (hlater : ∀ e ∈ s.queue.entries, stop < e.1.time) :
    stop < first + n * period ∧ ∀ k < n, first + k * period ≤ stop := by
  constructor
  · have hmem : first + n * period ∈ s.queue.entries.filterMap (Queue.time? kind? a) := by
      rw [h.next]
      exact List.mem_singleton_self _
    obtain ⟨e, he, htime⟩ := List.mem_filterMap.mp hmem
    rw [Queue.time?_eq_some htime]
    exact hlater e he
  · intro k hk
    have hmem : first + k * period ∈ history.filterMap fun x => Queue.time? kind? a x.entry := by
      rw [h.passed]
      exact List.mem_map.mpr ⟨k, List.mem_range.mpr hk, rfl⟩
    obtain ⟨x, hx, htime⟩ := List.mem_filterMap.mp hmem
    rw [Queue.time?_eq_some htime]
    exact hpassed x hx

end Recurring

/-! ## Steps -/

/-- An interval that begins comes to its end at one time. -/
theorem times_interval (gateway : DeviceId) (time : Duration) (id : SensorId)
    (p : SensorId × DeviceId) : ([⟨gateway, time, .sensorTick id⟩] : List Booking).filterMap
      (fun b => Queue.time? Queue.interval? p (b.key 0, b.task))
        = if (id, gateway) = p then [time] else [] := by
  simp only [List.filterMap_cons, List.filterMap_nil, Queue.time?, Queue.interval?, Booking.key,
    Option.some.injEq]
  by_cases hp : (id, gateway) = p
  · rw [if_pos hp, if_pos hp]
  · rw [if_neg hp, if_neg hp]

/-- An interval that is over is followed by the next one of the sensor, whatever is emitted. -/
theorem emissions_times (s : Simulation) (id : SensorId) (x : Sensor) (app : Application)
    (p : SensorId × DeviceId) : ((s.emissions id x app).filterMap fun b =>
      Queue.time? Queue.interval? p (b.key 0, b.task))
        = if (id, x.gateway) = p then [s.now + x.interval] else [] := by
  rw [emissions, List.filterMap_append, times_interval]
  refine (congrArg (· ++ _) (Queue.times_eq_nil (List.filterMap_eq_nil_iff.mpr ?_))).trans
    (List.nil_append _)
  intro b hb
  obtain ⟨_, _, rfl⟩ := Option.map_eq_some_iff.mp (Option.mem_toList.mp hb)
  rfl

/-- When the interval of a sensor is over the next one begins. -/
theorem tick_recurs (ht : s.Timed orchestrators emitters)
    (hq : s.queue.first? = some (key, task)) {id : SensorId} {x : Sensor}
    (hx : s.sensors.get? id = some x) : ((Step.schedules ⟨s, key, task⟩).filterMap fun b =>
      Queue.time? Queue.interval? (id, x.gateway) (b.key 0, b.task))
        = ((Queue.time? Queue.interval? (id, x.gateway) (key, task)).map
            (· + x.interval)).toList := by
  cases task with
  | device event =>
    exact Queue.times_eq_nil (intervals_booking? _ _ _)
  | executionCompleted target message =>
    refine Queue.times_eq_nil (List.filterMap_eq_nil_iff.mpr fun b hb => ?_)
    obtain ⟨_, _, rfl⟩ := List.mem_map.mp hb
    rfl
  | sensorTick id' =>
    -- The tick is that of an attached sensor, at its gateway.
    obtain ⟨x', app, hx', hgateway, happ⟩ := ht.attached (id', key.device) <| by
      refine ht.intervals.mem_iff.mp ?_
      rw [Queue.intervals_of_first hq]
      exact List.mem_cons_self
    have hx' : s.sensors.get? id' = some x' := hx'
    have hgateway : x'.gateway = key.device := hgateway
    rw [Step.schedules_of_tick hx' happ, emissions_times, Queue.time?]
    simp only [Queue.interval?, Option.some.injEq, hgateway]
    split
    · next hsame =>
      rw [(Prod.mk.inj hsame).1, hx, Option.some.injEq] at hx'
      rw [hx']
      rfl
    · rfl

/-- The actions of a device set the timer of its cycles only by the wait for the next cycle. -/
theorem cycleTimes_booking? (s : Simulation) (device d : DeviceId) {actions : List Action}
    (ha : ∀ a ∈ actions, a.LetsInternal) : ((actions.filterMap (s.booking? device)).filterMap
      fun b => Queue.time? Queue.cycle? d (b.key 0, b.task))
        = ((actions.filter Action.isCycle).filterMap (s.booking? device)).filterMap
          fun b => Queue.time? Queue.cycle? d (b.key 0, b.task) := by
  rw [List.filterMap_filterMap, List.filterMap_filterMap, List.filterMap_filter]
  refine List.filterMap_congr fun a h => ?_
  have hcycle := cycle?_booking? s device (ha a h)
  split
  · rfl
  · next hno =>
    rw [if_neg hno] at hcycle
    cases hb : s.booking? device a with
    | none => rfl
    | some b =>
      rw [hb] at hcycle
      exact Queue.time?_of_none hcycle

/-- Sensors set no timer of a cycle. -/
theorem cycles_ticked (s : Simulation) (id : SensorId) :
    ((s.ticked id).filterMap fun b => Queue.cycle? (b.key 0, b.task)) = [] := by
  refine List.filterMap_eq_nil_iff.mpr fun b hb => ?_
  cases emission_of_mem_ticked hb <;> rfl

/-- A device that handles a cycle waits for the next one. -/
theorem cycle_recurs (ht : s.Timed orchestrators emitters)
    (hq : s.queue.first? = some (key, task))
    (hp : (s.take key task).process key task = .ok s') (d : DeviceId) :
    ((Step.schedules ⟨s, key, task⟩).filterMap fun b =>
      Queue.time? Queue.cycle? d (b.key 0, b.task))
        = ((Queue.time? Queue.cycle? d (key, task)).map
            (· + s.network.policy.placementInterval)).toList := by
  cases task with
  | sensorTick id =>
    have hcycles := cycles_ticked (s.take key (.sensorTick id)) id
    exact Queue.times_eq_nil hcycles
  | executionCompleted target message =>
    refine Queue.times_eq_nil (List.filterMap_eq_nil_iff.mpr fun b hb => ?_)
    obtain ⟨_, _, rfl⟩ := List.mem_map.mp hb
    rfl
  | device event =>
    -- A cycle is that of a device that orchestrates.
    have hcycle (hevent : event.isCycle = true) :
        ∃ m, s.machine? key.device = some m ∧ m.orchestrator.isSome = true := by
      refine ht.orchestrated _ (ht.cycles.mem_iff.mp ?_)
      rw [Queue.cycles_of_first hq]
      simp [Queue.cycle?, hevent]
    have hnone (hevent : event.isCycle = false) :
        Queue.time? Queue.cycle? d (key, .device event) = none :=
      Queue.time?_of_none (by simp [Queue.cycle?, hevent])
    show (((Step.actions ⟨s, key, .device event⟩ event).filterMap
      ((s.take key (.device event)).booking? key.device)).filterMap _) = _
    rcases happen_books hp with ⟨hm, rfl⟩ | ⟨m, actions, m', hm, hv, hbooks⟩
    · have hm : s.machine? key.device = none := hm
      cases hevent : event.isCycle with
      | true =>
        obtain ⟨m, hm', _⟩ := hcycle hevent
        rw [hm] at hm'
        cases hm'
      | false =>
        rw [Step.actions_of_none hm, hnone hevent]
        rfl
    · have hm : s.machine? key.device = some m := hm
      have heffect := Machine.effect_of_handle hv
      have hcycles := Machine.cycles_of_effect heffect
      have hcycles : actions.filter Action.isCycle = if event.isCycle && m.orchestrator.isSome
          then [Orchestrator.nextCycle s.network] else [] := hcycles
      rw [Step.actions_of_handle hm hv,
        cycleTimes_booking? _ _ _ (Machine.internal_of_effect heffect), hcycles]
      cases hevent : event.isCycle with
      | false =>
        rw [hnone hevent]
        rfl
      | true =>
        obtain ⟨m₁, hm₁, ho⟩ := hcycle hevent
        obtain rfl := Option.some.inj (hm.symm.trans hm₁)
        have hnext : [Orchestrator.nextCycle s.network].filterMap
            ((s.take key (.device event)).booking? key.device)
              = [⟨key.device, key.time + s.network.policy.placementInterval,
                  .device .placementTimer⟩] := rfl
        rw [Bool.true_and, if_pos ho, hnext]
        have htimer : Event.placementTimer.isCycle = true := rfl
        by_cases hd : key.device = d <;>
          simp [Queue.time?, Queue.cycle?, Booking.key, hevent, htimer, hd]

/-! ## The start -/

/-- A timer that was set once begins to recur. -/
theorem recurring_of_start {α : Type} [DecidableEq α] {kind? : Key × Task → Option α} {a : α}
    {first period : Duration} (hempty : s.queue.entries = [])
    (hkind : ∀ (b : Booking) (number : Nat), kind? (b.key number, b.task) = kind? (b.key 0, b.task))
    (hb : Books { s with started := true } s' bookings)
    (hset : (bookings.filterMap fun b => Queue.time? kind? a (b.key 0, b.task)) = [first]) :
    s'.Recurring kind? a first period 0 [] := by
  have htime (b : Booking) (number : Nat) : Queue.time? kind? a (b.key number, b.task)
      = Queue.time? kind? a (b.key 0, b.task) := by
    rw [Queue.time?, hkind]
    rfl
  have hentries := hb.filterMap_entries (fun e he => absurd (hempty ▸ he) List.not_mem_nil) htime
  rw [hset, show ({ s with started := true } : Simulation).queue.entries = [] from hempty]
    at hentries
  refine ⟨rfl, ?_⟩
  rw [Nat.zero_mul, Nat.add_zero]
  exact hentries.eq_singleton

/-- Every sensor begins with its first interval. -/
theorem ticks_of_openings (h : Ran net seed history s) {id : SensorId} {x : Sensor}
    (hx : s.sensors.get? id = some x) : (s.openings.filterMap fun b =>
      Queue.time? Queue.interval? (id, x.gateway) (b.key 0, b.task)) = [s.now + x.interval] := by
  have hmachines : ((s.machines.values.flatMap s.machineOpening).filterMap fun b =>
      Queue.time? Queue.interval? (id, x.gateway) (b.key 0, b.task)) = [] := by
    refine Queue.times_eq_nil ?_
    rw [List.filterMap_flatMap]
    exact List.flatMap_eq_nil_iff.mpr fun m _ => intervals_booking? _ _ _
  have hone : ∀ e ∈ s.sensors.entries, ((s.sensorOpening e.2).filterMap fun b =>
      Queue.time? Queue.interval? (id, x.gateway) (b.key 0, b.task))
        = if e.1 = id then [s.now + e.2.interval] else [] := by
    rintro ⟨id', x'⟩ he
    have hget := (SortedMap.mem_entries_iff _ _ _).mp he
    obtain ⟨hid, app, happ⟩ := sensors_of_ran h hget
    have hbegins : ([⟨x'.gateway, s.now + x'.interval, .sensorTick x'.id⟩] : List Booking).filterMap
        (fun b => Queue.time? Queue.interval? (id, x.gateway) (b.key 0, b.task))
          = if id' = id then [s.now + x'.interval] else [] := by
      rw [times_interval, hid]
      by_cases hsame : id' = id
      · subst hsame
        obtain rfl := Option.some.inj (hget.symm.trans hx)
        rw [if_pos rfl, if_pos rfl]
      · rw [if_neg fun heq => hsame (Prod.mk.inj heq).1, if_neg hsame]
    rw [sensorOpening, happ, List.filterMap_append, hbegins]
    refine (congrArg (· ++ _) (Queue.times_eq_nil (List.filterMap_eq_nil_iff.mpr ?_))).trans
      (List.nil_append _)
    intro b hb
    obtain ⟨_, _, rfl⟩ := Option.map_eq_some_iff.mp (Option.mem_toList.mp hb)
    rfl
  rw [openings, List.filterMap_append, hmachines, List.nil_append, SortedMap.values,
    List.flatMap_map, List.filterMap_flatMap, List.flatMap_congr hone,
    s.sensors.flatMap_entries id fun x => [s.now + x.interval], hx]
  rfl

/-- Every device that orchestrates begins with a cycle. -/
theorem cycles_of_openings
    (hid : ∀ d m, s.machine? d = some m → m.id = d) {d : DeviceId} {m : Machine}
    (hm : s.machine? d = some m) (ho : m.orchestrator.isSome = true) :
    (s.openings.filterMap fun b => Queue.time? Queue.cycle? d (b.key 0, b.task)) = [s.now] := by
  have hsensors : ((s.sensors.values.flatMap s.sensorOpening).filterMap fun b =>
      Queue.time? Queue.cycle? d (b.key 0, b.task)) = [] := by
    refine Queue.times_eq_nil (List.filterMap_eq_nil_iff.mpr fun b hb => ?_)
    obtain ⟨x, _, hb⟩ := List.mem_flatMap.mp hb
    unfold sensorOpening at hb
    split at hb
    · cases hb
    · rcases List.mem_append.mp hb with hb | hb
      · obtain ⟨_, _, rfl⟩ := Option.map_eq_some_iff.mp (Option.mem_toList.mp hb)
        rfl
      · rw [List.mem_singleton.mp hb]
        rfl
  have hone : ∀ e ∈ s.machines.entries, ((s.machineOpening e.2).filterMap fun b =>
      Queue.time? Queue.cycle? d (b.key 0, b.task))
        = if e.1 = d then (if e.2.orchestrator.isSome then [s.now] else []) else [] := by
    rintro ⟨d', m'⟩ he
    have hm' := hid d' m' ((SortedMap.mem_entries_iff _ _ _).mp he)
    rw [machineOpening, cycleTimes_booking? _ _ _ Machine.internal_of_start,
      Machine.cycles_of_start, hm']
    have htimer : Event.placementTimer.isCycle = true := rfl
    by_cases ho : m'.orchestrator.isSome = true <;> by_cases hd : d' = d <;>
      simp [booking?, Timer.event, Queue.time?, Queue.cycle?, Booking.key, htimer, ho, hd]
  rw [openings, List.filterMap_append, hsensors, List.append_nil, SortedMap.values,
    List.flatMap_map, List.filterMap_flatMap, List.flatMap_congr hone,
    s.machines.flatMap_entries d fun m => if m.orchestrator.isSome then [s.now] else [],
    show s.machines.get? d = some m from hm]
  exact if_pos ho

/-! ## Runs -/

/-- A sensor that is attached stays so, whatever happens. -/
theorem Continues.sensor? (h : s.Continues history s') {id : SensorId} {x : Sensor}
    (hx : s.sensors.get? id = some x) : s'.sensors.get? id = some x := by
  induction h with
  | refl => exact hx
  | @sensor _ s₁ _ y _ hs ih =>
    obtain ⟨_, _, hplace, _, rfl⟩ := addSensor_ok_cases hs
    obtain ⟨hnew, _⟩ := placeForSensor_ok_cases hplace
    rw [SortedMap.get?_insert_ne _ _ fun hid => ?_]
    · exact ih
    · rw [SortedMap.contains_eq, ← hid, ih] at hnew
      cases hnew
  | actuator _ hs ih =>
    obtain ⟨_, _, _, _, rfl⟩ := addActuator_ok_cases hs
    exact ih
  | start _ hs ih => exact (start_sameSetup hs).2 ▸ ih
  | step _ _ hp ih => exact (process_sameSetup hp).2 ▸ ih
  | settle _ _ ih => exact ih

namespace Recurring

variable {α : Type} [DecidableEq α] {kind? : Key × Task → Option α} {a : α}
  {first period : Duration}

/-- A timer that every step sets anew when it goes off recurs, whatever happens. -/
theorem continues (h₀ : Ran net seed earlier s) (ht : s.Timed orchestrators emitters)
    (hkind : ∀ (b : Booking) (number : Nat), kind? (b.key number, b.task) = kind? (b.key 0, b.task))
    (hset : ∀ {history : List Step} {s₁ s₂ : Simulation} {key : Key} {task : Task},
      s.Continues history s₁ → s₁.queue.first? = some (key, task) →
        (s₁.take key task).process key task = .ok s₂ →
          ((Step.schedules ⟨s₁, key, task⟩).filterMap fun b =>
            Queue.time? kind? a (b.key 0, b.task))
              = ((Queue.time? kind? a (key, task)).map (· + period)).toList)
    (hr : s.Recurring kind? a first period 0 []) (h : s.Continues history s') :
    ∃ n, s'.Recurring kind? a first period n history := by
  induction h with
  | refl => exact ⟨0, hr⟩
  | sensor _ hs ih =>
    obtain ⟨n, ih⟩ := ih
    obtain ⟨_, _, _, _, rfl⟩ := addSensor_ok_cases hs
    exact ⟨n, ih.congr rfl⟩
  | actuator _ hs ih =>
    obtain ⟨n, ih⟩ := ih
    obtain ⟨_, _, _, _, rfl⟩ := addActuator_ok_cases hs
    exact ⟨n, ih.congr rfl⟩
  | start h hs ih =>
    rw [start_of_started (ht.continues h₀ h).started] at hs
    exact Except.ok.inj hs ▸ ih
  | step h hq hp ih =>
    obtain ⟨n, ih⟩ := ih
    obtain ⟨machines, hbooks⟩ := process_schedules hp
    exact ih.books (kept_of_ran (h₀.continues h)) hkind hq hbooks (hset h hq hp)
  | settle stop _ ih =>
    obtain ⟨n, ih⟩ := ih
    exact ⟨n, ih.congr rfl⟩

end Recurring

/-- A sensor that was attached before the start emits at the end of each interval. -/
theorem ticks_of_continues (hb : Topology.build l = .ok net.topology)
    (h₀ : Ran net seed earlier s₀) (hfresh : s₀.started = false) (hstart : s₀.start = .ok s₁)
    {id : SensorId} {x : Sensor} (hx : s₀.sensors.get? id = some x)
    (h : s₁.Continues history s) : ∃ n, s.Recurring Queue.interval? (id, x.gateway)
      (s₀.now + x.interval) x.interval n history := by
  have ht := timed_of_start hb h₀ hfresh hstart
  have hempty := (fresh_of_ran (Layout.forest_of_build hb) h₀ hfresh).queue
  obtain ⟨hstarted, _⟩ | ⟨_, hbooks⟩ := start_opens hstart
  · rw [hstarted] at hfresh
    cases hfresh
  refine Recurring.continues (h₀.start hstart) ht (fun _ _ => rfl) (fun hc hq _ => ?_)
    (recurring_of_start hempty (fun _ _ => rfl) hbooks (ticks_of_openings h₀ hx)) h
  have hx₁ : s₁.sensors.get? id = some x := by rw [hbooks.sensors]; exact hx
  exact tick_recurs (ht.continues (h₀.start hstart) hc) hq (hc.sensor? hx₁)

/-- A device that orchestrates places at the start and after each placement interval. -/
theorem cycles_of_continues (hb : Topology.build l = .ok net.topology)
    (h₀ : Ran net seed earlier s₀) (hfresh : s₀.started = false) (hstart : s₀.start = .ok s₁)
    {d : DeviceId} {m : Machine} (hm : s₀.machine? d = some m)
    (ho : m.orchestrator.isSome = true) (h : s₁.Continues history s) :
    ∃ n, s.Recurring Queue.cycle? d s₀.now net.policy.placementInterval n history := by
  have ht := timed_of_start hb h₀ hfresh hstart
  have hempty := (fresh_of_ran (Layout.forest_of_build hb) h₀ hfresh).queue
  obtain ⟨hstarted, _⟩ | ⟨_, hbooks⟩ := start_opens hstart
  · rw [hstarted] at hfresh
    cases hfresh
  have hid := (intact_of_ran hb h₀).arranged.id
  refine Recurring.continues (h₀.start hstart) ht (fun _ _ => rfl) (fun hc hq hp => ?_)
    (recurring_of_start hempty (fun _ _ => rfl) hbooks (cycles_of_openings hid hm ho)) h
  have hnetwork := (intact_of_ran hb ((h₀.start hstart).continues hc)).arranged.network
  rw [← hnetwork]
  exact cycle_recurs (ht.continues (h₀.start hstart) hc) hq hp d

/-! ## Emissions -/

/--
A message is one of a sensor: it is on the first edge that its application has for the sensor, and
it comes to the gateway.
-/
structure Emitted.Of (net : Network) (x : Sensor) (e : Emitted) : Prop where
  sensor : e.sensor = x.id
  device : e.device = x.gateway
  bound : e.message.destinationDevice = some x.gateway
  app : e.message.app = x.app
  edge : ∃ app edge, net.application? x.app = some app ∧ app.sensorEdge? x.tupleType = some edge
    ∧ e.message.tupleType = edge.tupleType ∧ e.message.source = edge.source
    ∧ e.message.destination = edge.destination

/-- At the end of an interval the sensor emits one message. -/
theorem emitted_of_continues (hb : Topology.build l = .ok net.topology)
    (ha : net.applications = .ofList apps) (h₀ : Ran net seed earlier s₀)
    (hfresh : s₀.started = false) (hstart : s₀.start = .ok s₁) (h : s₁.Continues history s)
    {x : Step} (hx : x ∈ history) {id : SensorId} (ht : x.task = .sensorTick id) :
    ∃ y e, s₀.sensors.get? id = some y ∧ x.key.device = y.gateway ∧ x.emitted = [e]
      ∧ e.Of net y ∧ e.message.emittedAt = x.key.time := by
  obtain ⟨before, key, task⟩ := x
  simp only at ht
  subst ht
  obtain ⟨_, hc, hq, _⟩ := h.mem hx
  have htimed := (timed_of_start hb h₀ hfresh hstart).continues (h₀.start hstart) hc
  -- The sensor was attached before the start.
  have hmem : (id, key.device) ∈ s₀.emitting := by
    refine htimed.intervals.mem_iff.mp ?_
    rw [Queue.intervals_of_first hq]
    exact List.mem_cons_self
  obtain ⟨⟨id', y⟩, hy, hsame⟩ := List.mem_map.mp hmem
  obtain ⟨rfl, hgateway⟩ := Prod.mk.inj hsame
  have hy := (SortedMap.mem_entries_iff _ _ _).mp hy
  have hy₁ : s₁.sensors.get? id' = some y := by rw [(start_sameSetup hstart).2]; exact hy
  have hbefore : before.sensors.get? id' = some y := hc.sensor? hy₁
  obtain ⟨hid, app, happ⟩ := sensors_of_ran h₀ hy
  have harranged := (intact_of_ran hb h₀).arranged
  rw [harranged.network] at happ
  obtain ⟨edge, hedge⟩ :=
    Option.isSome_iff_exists.mp ((harranged.sensors id' y hy).2 app happ)
  have hnetwork : before.network = net :=
    (intact_of_ran hb ((h₀.start hstart).continues hc)).arranged.network
  have happ' : before.network.application? y.app = some app := hnetwork.symm ▸ happ
  have hemitted : Step.emitted ⟨before, key, .sensorTick id'⟩ = _ :=
    Step.emitted_of_tick hbefore happ'
  rw [Application.sensorMessage?, hedge] at hemitted
  exact ⟨y, _, hy, hgateway.symm, hemitted, ⟨hid.symm, rfl, rfl, Network.id_of_application? ha happ,
    app, edge, happ, hedge, rfl, rfl, rfl⟩, rfl⟩

/-- Only the ends of intervals have the priority of sensors. -/
theorem priority_eq_client_iff : task.priority = .client ↔ ∃ id, task = .sensorTick id := by
  cases task with
  | sensorTick id => exact ⟨fun _ => ⟨id, rfl⟩, fun _ => rfl⟩
  | executionCompleted target message =>
    refine ⟨fun h => ?_, fun ⟨_, h⟩ => ?_⟩ <;> cases h
  | device event =>
    refine ⟨fun h => ?_, fun ⟨_, h⟩ => ?_⟩
    · cases event <;> cases h
    · cases h

/-- Nothing is emitted but at the end of an interval. -/
theorem Step.emitted_of_ne {x : Step} (h : x.task.priority ≠ .client) : x.emitted = [] := by
  unfold emitted
  split
  · next id ht => exact absurd (priority_eq_client_iff.mpr ⟨id, ht⟩) h
  · rfl

/-- Emissions are counted like the ends of intervals, if there is one at each. -/
theorem length_emittedIn : ∀ {history : List Step},
    (∀ x ∈ history, ∀ id, x.task = .sensorTick id → x.emitted.length = 1) →
      (emittedIn history).length = history.countP fun x => x.task.priority = .client
  | [], _ => rfl
  | x :: history, h => by
    have hx := h x List.mem_cons_self
    have ih := length_emittedIn fun y hy => h y (List.mem_cons_of_mem x hy)
    rw [emittedIn] at ih
    rw [emittedIn, List.flatMap_cons, List.length_append, ih, List.countP_cons, Nat.add_comm]
    by_cases hp : x.task.priority = .client
    · obtain ⟨id, ht⟩ := priority_eq_client_iff.mp hp
      rw [hx id ht, hp]
      rfl
    · rw [Step.emitted_of_ne hp, if_neg (by simpa using hp)]
      rfl

/-- What a sensor emitted was emitted when its intervals were over. -/
theorem emission_times (hb : Topology.build l = .ok net.topology)
    (ha : net.applications = .ofList apps) (h₀ : Ran net seed earlier s₀)
    (hfresh : s₀.started = false) (hstart : s₀.start = .ok s₁) (h : s₁.Continues history s)
    {id : SensorId} {y : Sensor} (hy : s₀.sensors.get? id = some y) :
    ((emittedIn history).filter fun e => e.sensor = id).map (fun e => e.message.emittedAt)
      = history.filterMap fun x => Queue.time? Queue.interval? (id, y.gateway) x.entry := by
  rw [emittedIn, List.filter_flatMap, List.map_flatMap, List.filterMap_eq_flatMap_toList]
  refine List.flatMap_congr fun x hx => ?_
  by_cases hp : x.task.priority = .client
  · obtain ⟨id', ht⟩ := priority_eq_client_iff.mp hp
    obtain ⟨y', e, hy', hdevice, hemitted, hof, htime⟩ :=
      emitted_of_continues hb ha h₀ hfresh hstart h hx ht
    have hid : e.sensor = id' := hof.sensor.trans (sensors_of_ran h₀ hy').1
    have hinterval : Queue.interval? x.entry = some (id', y'.gateway) := by
      rw [Step.entry, Queue.interval?, ht, hdevice]
    rw [hemitted, Queue.time?, hinterval]
    by_cases hsame : id' = id
    · rw [hsame, hy, Option.some.injEq] at hy'
      simp [hid, hsame, hy', htime, Step.entry]
    · simp [hid, hsame]
  · have hnone : Queue.interval? x.entry = none := by
      unfold Queue.interval?
      split
      · next id' ht => exact absurd (priority_eq_client_iff.mpr ⟨id', ht⟩) hp
      · rfl
    rw [Step.emitted_of_ne hp, Queue.time?_of_none hnone]
    rfl

/-- What was emitted was emitted by a sensor that was attached before the start. -/
theorem of_mem_emittedIn (hb : Topology.build l = .ok net.topology)
    (ha : net.applications = .ofList apps) (h₀ : Ran net seed earlier s₀)
    (hfresh : s₀.started = false) (hstart : s₀.start = .ok s₁) (h : s₁.Continues history s)
    {e : Emitted} (he : e ∈ emittedIn history) :
    ∃ y, s₀.sensors.get? e.sensor = some y ∧ e.Of net y := by
  obtain ⟨x, hx, he⟩ := List.mem_flatMap.mp he
  by_cases hp : x.task.priority = .client
  · obtain ⟨id, ht⟩ := priority_eq_client_iff.mp hp
    obtain ⟨y, e', hy, _, hemitted, hof, _⟩ := emitted_of_continues hb ha h₀ hfresh hstart h hx ht
    rw [hemitted] at he
    rw [List.mem_singleton.mp he]
    refine ⟨y, ?_, hof⟩
    rw [hof.sensor, (sensors_of_ran h₀ hy).1]
    exact hy
  · rw [Step.emitted_of_ne hp] at he
    cases he

/-- When a placement timer goes off its device is one that orchestrated at first, and handles it. -/
theorem handled_of_cycle (hb : Topology.build l = .ok net.topology)
    (h₀ : Ran net seed earlier s₀) (hfresh : s₀.started = false) (hstart : s₀.start = .ok s₁)
    (h : s₁.Continues history s) {x : Step} (hx : x ∈ history) {d : DeviceId}
    (hd : Queue.cycle? x.entry = some d) : d ∈ s₀.orchestrating ∧ ∃ m m',
      x.before.machine? d = some m ∧ m.orchestrator.isSome = true
        ∧ ({ m with now := x.key.time }.handle net .placementTimer).value
            = some (x.actions .placementTimer, m') := by
  obtain ⟨before, key, task⟩ := x
  obtain ⟨_, hc, hq, s', hp⟩ := h.mem hx
  have htimed := (timed_of_start hb h₀ hfresh hstart).continues (h₀.start hstart) hc
  have hmem : d ∈ s₀.orchestrating := by
    refine htimed.cycles.mem_iff.mp ?_
    rw [Queue.cycles_of_first hq, show Queue.cycle? (key, task) = some d from hd]
    exact List.mem_cons_self
  refine ⟨hmem, ?_⟩
  obtain ⟨m, hm, ho⟩ := htimed.orchestrated d hmem
  -- The task is the placement timer of the device.
  obtain ⟨rfl, rfl⟩ := Queue.timer_of_cycle? hd
  have hnetwork : before.network = net :=
    (intact_of_ran hb ((h₀.start hstart).continues hc)).arranged.network
  have hp : (before.take key (.device .placementTimer)).happen key.device .placementTimer
      = .ok s' := hp
  rcases happen_books hp with ⟨hnone, _⟩ | ⟨m₁, actions, m', hm₁, hv, _⟩
  · have hnone : before.machine? key.device = none := hnone
    rw [hm] at hnone
    cases hnone
  · have hm₁ : before.machine? key.device = some m₁ := hm₁
    obtain rfl := Option.some.inj (hm.symm.trans hm₁)
    refine ⟨m, m', hm, ho, ?_⟩
    rw [Step.actions_of_handle hm hv, ← hnetwork]
    exact hv

/-- When the placement timer of a device went off. -/
def cycleTimes (history : List Step) (d : DeviceId) : List Duration :=
  history.filterMap fun x => Queue.time? Queue.cycle? d x.entry

/-- Before the start the devices that orchestrate are those of the network that do. -/
theorem mem_orchestrating_iff (hb : Topology.build l = .ok net.topology)
    (h₀ : Ran net seed earlier s₀) (hfresh : s₀.started = false) {d : DeviceId} :
    d ∈ s₀.orchestrating ↔ (net.device? d).any (fun dev => dev.role.orchestrates) = true := by
  have horchestrates := (fresh_of_ran (Layout.forest_of_build hb) h₀ hfresh).orchestrates
  rw [mem_orchestrating]
  constructor
  · rintro ⟨m, hm, ho⟩
    rw [← horchestrates d m hm, ho]
  · intro hd
    have hknown : (net.device? d).isSome = true := by
      cases hdev : net.device? d with
      | none => rw [hdev] at hd; cases hd
      | some _ => rfl
    obtain ⟨m, hm⟩ := Option.isSome_iff_exists.mp
      ((intact_of_ran hb h₀).arranged.machines d hknown)
    exact ⟨m, hm, by rw [horchestrates d m hm, hd]⟩

/-! ## How often -/

/-- A run that begins in time processes nothing after its end, and all that is left is later. -/
theorem Agenda.within {since : Duration} (h : Agenda since bookings history s₀) {stop : Duration}
    (hn : s₀.now ≤ stop) {budget : Nat} (hrun : s₀.runUntil stop budget = .finished s) :
    (∀ x ∈ s₀.stepsUntil stop budget, x.key.time ≤ stop)
      ∧ ∀ e ∈ s.queue.entries, stop < e.1.time := by
  have hcall : s₀.call (.runUntil stop budget) = .ok s := by rw [Simulation.call, hrun]; rfl
  obtain ⟨s₁, hstart, hends⟩ := runUntil_iff.mp ⟨budget, hrun⟩
  refine ⟨fun x hx => ?_, ((h.start hstart).ends hends).1⟩
  rw [← runUntil_now hn hrun]
  exact (h.call hcall).passed x (List.mem_append_right _ hx)

/-- A sensor has emitted once for every interval that is over. -/
theorem ticks_ended {stop interval n : Nat} (hnext : stop < interval + n * interval)
    (hpassed : ∀ k < n, interval + k * interval ≤ stop) : n = stop / interval := by
  refine (Nat.div_eq_of_lt_le ?_ ?_).symm
  · cases n with
    | zero => simp
    | succ n =>
      rw [Nat.succ_mul, Nat.add_comm]
      exact hpassed n (Nat.lt_succ_self n)
  · rw [Nat.succ_mul, Nat.add_comm]
    exact hnext

/-- A device has placed once for every interval that is over, and at the start. -/
theorem cycles_ended {stop interval n : Nat} (hnext : stop < 0 + n * interval)
    (hpassed : ∀ k < n, 0 + k * interval ≤ stop) : n = stop / interval + 1 := by
  rw [Nat.zero_add] at hnext
  cases n with
  | zero =>
    rw [Nat.zero_mul] at hnext
    exact absurd hnext (Nat.not_lt_zero stop)
  | succ n =>
    have hlast := hpassed n (Nat.lt_succ_self n)
    rw [Nat.zero_add] at hlast
    rw [Nat.div_eq_of_lt_le hlast hnext]

/--
Before the start sensors and actuators are attached. Then at the end of a run every sensor has
emitted once for every interval that is over, just when it was over, on the first edge that its
application has for it and by its own gateway. These emissions are counted, and they are all events
of the priority of sensors. The placement timer of every device that orchestrates went off, and the
device handled it, at the start and once for every placement interval that is over, just when it
was over. No other device has such a timer.
-/
theorem timers_periodic {setup : List Call} (hb : Topology.build l = .ok net.topology)
    (ha : net.applications = .ofList apps) (hsetup : ∀ c ∈ setup, c.IsSetup)
    (h₀ : drive setup (create net seed) = .ok s₀) {stop : Duration} {budget : Nat}
    (hrun : s₀.runUntil stop budget = .finished s) :
    let history := s₀.stepsUntil stop budget
    s.statistics.sensorEmissions = sumOf (s₀.sensors.values.map fun x => stop / x.interval)
    ∧ s.statistics.eventsOf .client = sumOf (s₀.sensors.values.map fun x => stop / x.interval)
    ∧ (∀ id x, s₀.sensors.get? id = some x →
        ((emittedIn history).filter fun e => e.sensor = id).map (fun e => e.message.emittedAt)
            = (List.range (stop / x.interval)).map (fun k => (k + 1) * x.interval)
          ∧ ∀ e ∈ emittedIn history, e.sensor = id → e.Of net x)
    ∧ (∀ d, cycleTimes history d = if (net.device? d).any fun dev => dev.role.orchestrates
        then (List.range (stop / net.policy.placementInterval + 1)).map
          fun k => k * net.policy.placementInterval
        else [])
    ∧ ∀ x ∈ history, ∀ d, Queue.cycle? x.entry = some d → ∃ m m',
        x.before.machine? d = some m ∧ m.orchestrator.isSome = true
          ∧ ({ m with now := x.key.time }.handle net .placementTimer).value
              = some (x.actions .placementTimer, m') := by
  intro history
  have hcreated : Ran net seed [] (create net seed) := .create
  obtain ⟨hran₀, hfresh, hnow₀⟩ := fresh_of_setup hsetup hcreated h₀
  have hfresh : s₀.started = false := hfresh
  have hnow₀ : s₀.now = 0 := hnow₀
  obtain ⟨s₁, hstart, hcontinues⟩ := continues_of_runUntil hrun
  have hcounted := counted_of_ran (ran_of_runUntil hran₀ hrun)
  have hagenda : Agenda 0 _ _ s₀ := agenda_drive (.create net seed) h₀
  obtain ⟨hpassed, hlater⟩ := hagenda.within (hnow₀ ▸ Nat.zero_le stop) hrun
  have hticks (id : SensorId) (x : Sensor) (hx : s₀.sensors.get? id = some x) :
      ((emittedIn history).filter fun e => e.sensor = id).map (fun e => e.message.emittedAt)
        = (List.range (stop / x.interval)).map fun k => (k + 1) * x.interval := by
    obtain ⟨n, hr⟩ := ticks_of_continues hb hran₀ hfresh hstart hx hcontinues
    rw [hnow₀, Nat.zero_add] at hr
    obtain ⟨hnext, hlast⟩ := hr.ended hpassed hlater
    rw [emission_times hb ha hran₀ hfresh hstart hcontinues hx, hr.passed, ticks_ended hnext hlast]
    exact List.map_congr_left fun k _ => by rw [Nat.succ_mul, Nat.add_comm]
  have hof {e : Emitted} (he : e ∈ emittedIn history) :
      ∃ y, s₀.sensors.get? e.sensor = some y ∧ e.Of net y :=
    of_mem_emittedIn hb ha hran₀ hfresh hstart hcontinues he
  have hsum : (emittedIn history).length
      = sumOf (s₀.sensors.values.map fun x => stop / x.interval) := by
    have hkeys : ∀ e ∈ emittedIn history, e.sensor ∈ s₀.sensors.entries.map Prod.fst := by
      intro e he
      obtain ⟨y, hy, _⟩ := hof he
      exact List.mem_map.mpr ⟨_, (SortedMap.mem_entries_iff _ _ _).mpr hy, rfl⟩
    rw [length_eq_sumOf_filter Emitted.sensor s₀.sensors.keys_nodup hkeys, SortedMap.keys,
      List.map_map, SortedMap.values, List.map_map]
    refine congrArg sumOf (List.map_congr_left fun e he => ?_)
    have hlength := congrArg List.length (hticks e.1 e.2 ((SortedMap.mem_entries_iff _ _ _).mp he))
    rwa [List.length_map, List.length_map, List.length_range] at hlength
  have hclient : (emittedIn history).length = s.statistics.eventsOf .client := by
    rw [hcounted.events]
    refine length_emittedIn fun x hx id ht => ?_
    obtain ⟨_, _, _, _, hemitted, _⟩ :=
      emitted_of_continues hb ha hran₀ hfresh hstart hcontinues hx ht
    rw [hemitted, List.length_singleton]
  refine ⟨hcounted.emissions.trans hsum, hclient.symm.trans hsum, fun id x hx =>
    ⟨hticks id x hx, fun e he hid => ?_⟩, fun d => ?_, fun x hx d hd => ?_⟩
  · obtain ⟨y, hy, hof⟩ := hof he
    rw [hid, hx, Option.some.injEq] at hy
    exact hy ▸ hof
  · split
    · next horchestrates =>
      obtain ⟨m, hm, ho⟩ :=
        mem_orchestrating.mp ((mem_orchestrating_iff hb hran₀ hfresh).mpr horchestrates)
      obtain ⟨n, hr⟩ := cycles_of_continues hb hran₀ hfresh hstart hm ho hcontinues
      rw [hnow₀] at hr
      obtain ⟨hnext, hlast⟩ := hr.ended hpassed hlater
      rw [cycleTimes, hr.passed, cycles_ended hnext hlast]
      exact List.map_congr_left fun k _ => Nat.zero_add _
    · next hno =>
      refine List.filterMap_eq_nil_iff.mpr fun x hx => if_neg fun hd => hno ?_
      exact (mem_orchestrating_iff hb hran₀ hfresh).mp
        (handled_of_cycle hb hran₀ hfresh hstart hcontinues hx hd).1
  · exact (handled_of_cycle hb hran₀ hfresh hstart hcontinues hx hd).2

/--
The sensors of the phone emit every half a second. After just one second the second emission of each
of them counts, as does the second cycle of the cloud, and the phone has no cycles.
-/
theorem timers_periodic_phone : ∃ s, drive (phoneSensors.map .addSensor) (create phoneNetwork 0)
      = .ok phoneStart
    ∧ phoneStart.runUntil (Duration.ofMillis 1000) 60 = .finished s
    ∧ s.statistics.sensorEmissions = 4 ∧ s.statistics.eventsOf .client = 4
    ∧ cycleTimes (phoneStart.stepsUntil (Duration.ofMillis 1000) 60) 1
        = [0, Duration.ofMillis 1000]
    ∧ cycleTimes (phoneStart.stepsUntil (Duration.ofMillis 1000) 60) 2 = []
    ∧ ((emittedIn (phoneStart.stepsUntil (Duration.ofMillis 1000) 60)).filter
        fun e => e.sensor = 2).map (fun e => e.message.emittedAt)
          = [Duration.ofMillis 500, Duration.ofMillis 1000] := by
  have hsetup : ∀ c ∈ phoneSensors.map Call.addSensor, c.IsSetup := by
    intro c hc
    obtain ⟨_, _, rfl⟩ := List.mem_map.mp hc
    trivial
  have hdrive : drive (phoneSensors.map .addSensor) (create phoneNetwork 0) = .ok phoneStart := rfl
  obtain ⟨s, hs, _⟩ := exists_of_finishesWith (p := fun _ => true)
    (show finishesWith _ (phoneStart.runUntil (Duration.ofMillis 1000) 60) = true by
      decide +kernel)
  obtain ⟨hemissions, hclient, hticks, hcycles, _⟩ :=
    timers_periodic build_phone rfl hsetup hdrive hs
  refine ⟨s, hdrive, hs, hemissions.trans ?_, hclient.trans ?_, (hcycles 1).trans ?_,
    (hcycles 2).trans ?_, ?_⟩
  · decide +kernel
  · decide +kernel
  · decide +kernel
  · decide +kernel
  · have hx : phoneStart.sensors.get? 2 = some
        { id := 2, gateway := 2, app := "b", tupleType := "t",
          interval := Duration.ofMillis 500 } := by
      decide +kernel
    rw [(hticks 2 _ hx).1]
    decide +kernel

end Simulation

end FogNet
