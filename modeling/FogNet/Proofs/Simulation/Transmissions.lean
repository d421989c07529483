import FogNet.Proofs.Machine.Effects
import FogNet.Proofs.Simulation.Messages
import FogNet.Proofs.Simulation.Scheduling

/-!
# What a step does to a link

A step hands a message to a link of a device, puts one on it, learns that it is free again, or does
nothing to it. What is put on the link leads to two entries in the queue: the end of the
transmission, and the arrival at the other end.

## Main statements

* `freeing?_booking?` — only a device itself schedules the ends of its transmissions
* `map_departures`, `of_mem_departures` — which departures actions lead to, and their arrivals
* `moves_of_step` — what a step does to a link
-/

namespace FogNet

open List (Perm)

/-! ## Departures -/

/-- A message that was put on a link. -/
structure Departure where
  start : Duration
  transmission : Duration
  item : Waiting
  /-- The number with which the arrival was scheduled. -/
  number : Nat

namespace Departure

/-- When the link is free again. -/
def finish (p : Departure) : Duration := p.start + p.transmission

/-- The arrival at the other end, as it stands in the queue. -/
def arrival (p : Departure) : Key × Task :=
  (⟨p.start + (p.transmission + p.item.latency), .network, p.item.target, p.number⟩,
    .device (.messageArrived p.item.message))

end Departure

namespace Action

/-- What an action puts on a link, and for how long. -/
def put? (kind : LinkKind) : Action → Option (Waiting × Duration)
  | .transmit target link message transmission latency =>
    if link = kind then some (⟨target, latency, message⟩, transmission) else none
  | _ => none

/-- How long an action waits for the end of the transmission on a link. -/
def freesAfter? (kind : LinkKind) : Action → Option Duration
  | .setTimer (.linkFree link) duration => if link = kind then some duration else none
  | _ => none

/-- What only actions on a link are good for can be read off these. -/
theorem filterMap_isOn {α : Type} {f : Action → Option α} (kind : LinkKind)
    (hf : ∀ a : Action, a.isOn kind = false → f a = none) (actions : List Action) :
    actions.filterMap f = (actions.filter (isOn kind)).filterMap f := by
  rw [List.filterMap_filter]
  refine List.filterMap_congr fun a _ => ?_
  cases h : a.isOn kind with
  | true => simp
  | false => simp [hf a h]

variable {kind : LinkKind} {actions : List Action} {put : Option (Waiting × Duration)}

theorem filterMap_put? (h : actions.filter (isOn kind)
    = put.elim [] fun p => p.1.departing kind p.2) :
    actions.filterMap (put? kind) = put.toList := by
  rw [filterMap_isOn kind, h]
  · cases put with
    | none => rfl
    | some p => simp [Waiting.departing, put?, List.filterMap_cons]
  · intro a ha
    cases a <;> simp_all [isOn, put?]

theorem filterMap_freesAfter? (h : actions.filter (isOn kind)
    = put.elim [] fun p => p.1.departing kind p.2) :
    actions.filterMap (freesAfter? kind) = put.toList.map Prod.snd := by
  rw [filterMap_isOn kind, h]
  · cases put <;> simp [Waiting.departing, freesAfter?]
  · intro a ha
    cases a with
    | setTimer timer duration => cases timer <;> simp_all [isOn, freesAfter?]
    | _ => rfl

end Action

/-! ## The ends of transmissions -/

theorem Event.frees_of_isInternal {e : Event} (h : e.isInternal = true) (kind : LinkKind) :
    e.frees kind = false := by
  cases e <;> first | rfl | exact absurd h Bool.false_ne_true

/-- Whether a task is the end of the transmission on a link. -/
def Task.frees (kind : LinkKind) : Task → Bool
  | .device event => event.frees kind
  | _ => false

namespace Queue

variable {q : Queue} {key : Key} {task : Task} {d : DeviceId} {kind : LinkKind}

/-- When a link of a device is free, by an entry. -/
def freeing? (d : DeviceId) (kind : LinkKind) (e : Key × Task) : Option Duration :=
  if e.1.device = d ∧ e.2.frees kind = true then some e.1.time else none

/-- The times at which a link of a device will be free. -/
def freeTimes (q : Queue) (d : DeviceId) (kind : LinkKind) : List Duration :=
  q.entries.filterMap (freeing? d kind)

theorem freeTimes_of_first (h : q.first? = some (key, task)) : q.freeTimes d kind
    = (freeing? d kind (key, task)).toList ++ freeTimes q.dropFirst d kind := by
  rw [freeTimes, entries_of_first h, List.filterMap_cons]
  cases freeing? d kind (key, task) <;> rfl

end Queue

namespace Simulation

variable {net : Network} {seed : UInt64} {s s' : Simulation} {history : List Step}
  {d : DeviceId} {kind : LinkKind} {bookings : List Booking}

theorem Books.freeTimes (h : s.Books s' bookings)
    (hn : ∀ e ∈ s.queue.entries, e.1.sequence ≤ s.scheduled) (d : DeviceId) (kind : LinkKind) :
    (s'.queue.freeTimes d kind).Perm
      ((bookings.filterMap fun b => Queue.freeing? d kind (b.key 0, b.task))
        ++ s.queue.freeTimes d kind) :=
  h.filterMap_entries hn fun _ _ => rfl

/-- The end of a transmission is scheduled by a timer of the device itself. -/
theorem freeing?_booking? (s : Simulation) (device d : DeviceId) (kind : LinkKind) {a : Action}
    (ha : a.LetsInternal) :
    (s.booking? device a).bind (fun b => Queue.freeing? d kind (b.key 0, b.task))
      = if device = d then (a.freesAfter? kind).map (s.now + ·) else none := by
  cases a with
  | setTimer timer duration =>
    cases timer with
    | placementCycle => simp [booking?, Queue.freeing?, Timer.event, Task.frees, Event.frees,
        Action.freesAfter?]
    | linkFree link =>
      by_cases hd : device = d <;> by_cases hk : link = kind <;>
        simp [booking?, Queue.freeing?, Timer.event, Task.frees, Event.frees, Action.freesAfter?,
          Booking.key, hd, hk]
  | deliver target event =>
    rw [booking?]
    split
    · simp [Queue.freeing?, Task.frees, Event.frees_of_isInternal ha, Action.freesAfter?]
    · simp [Action.freesAfter?]
  | enqueueInternal event =>
    simp [booking?, Queue.freeing?, Task.frees, Event.frees_of_isInternal ha, Action.freesAfter?]
  | execute target message =>
    cases h : s.executionTime message <;>
      simp [booking?, h, Queue.freeing?, Task.frees, Action.freesAfter?]
  | _ => simp [booking?, Queue.freeing?, Task.frees, Event.frees, Action.freesAfter?]

/-- The messages that actions put on a link. Their arrivals are numbered as they are scheduled. -/
def departures (s : Simulation) (device : DeviceId) (kind : LinkKind) :
    (scheduled : Nat) → List Action → List Departure
  | _, [] => []
  | scheduled, a :: rest =>
    match s.booking? device a with
    | none => s.departures device kind scheduled rest
    | some _ => ((a.put? kind).toList.map fun p => ⟨s.now, p.2, p.1, scheduled + 1⟩)
        ++ s.departures device kind (scheduled + 1) rest

theorem map_departures (device : DeviceId) (kind : LinkKind) : ∀ (n : Nat) (actions : List Action),
    (s.departures device kind n actions).map (fun p => (p.item, p.transmission))
      = actions.filterMap (Action.put? kind)
  | _, [] => rfl
  | n, a :: actions => by
    rw [departures, List.filterMap_cons]
    cases hb : s.booking? device a with
    | none =>
      have hput : a.put? kind = none := by cases a <;> simp_all [booking?, Action.put?]
      simp only [hput]
      exact map_departures device kind n actions
    | some b =>
      simp only [List.map_append, map_departures device kind (n + 1) actions]
      cases a.put? kind <;> simp

theorem of_mem_departures {device : DeviceId} {p : Departure} : ∀ {n : Nat} {actions : List Action},
    p ∈ s.departures device kind n actions → p.start = s.now ∧ n < p.number
      ∧ p.arrival ∈ Booking.entries n (actions.filterMap (s.booking? device))
  | _, [], h => absurd h List.not_mem_nil
  | n, a :: actions, h => by
    rw [departures] at h
    rw [List.filterMap_cons]
    cases hb : s.booking? device a with
    | none =>
      rw [hb] at h
      exact of_mem_departures h
    | some b =>
      rw [hb] at h
      rcases List.mem_append.mp h with h | h
      · obtain ⟨⟨w, transmission⟩, hput, rfl⟩ := List.mem_map.mp h
        refine ⟨rfl, Nat.lt_succ_self n, ?_⟩
        -- The arrival is what the transmission schedules.
        cases a with
        | transmit target link message transmission latency =>
          by_cases hk : link = kind
          · simp only [Action.put?, if_pos hk, Option.toList_some, List.mem_singleton,
              Prod.mk.injEq] at hput
            obtain ⟨rfl, rfl⟩ := hput
            rw [booking?, Option.some.injEq] at hb
            subst hb
            exact List.mem_cons_self
          · simp [Action.put?, hk] at hput
        | _ => simp [Action.put?] at hput
      · obtain ⟨hstart, hnumber, hmem⟩ := of_mem_departures h
        exact ⟨hstart, Nat.lt_of_succ_lt hnumber, List.mem_cons_of_mem _ hmem⟩

/-! ## What a step does to a link -/

/-- The queue of a link. -/
def linkQueue (s : Simulation) (d : DeviceId) (kind : LinkKind) : LinkQueue :=
  ((s.machine? d).map fun m => m.outbound.queue kind).getD {}

namespace Step

/-- What dispatch handed to a link. -/
def handed? (x : Step) (d : DeviceId) (kind : LinkKind) : Option Waiting :=
  match x.task with
  | .device event =>
    if x.key.device = d then
      (x.before.machine? d).bind fun m => m.handedTo? x.before.network kind event
    else none
  | _ => none

/-- What was put on a link. -/
def departures (x : Step) (d : DeviceId) (kind : LinkKind) : List Departure :=
  match x.task with
  | .device event =>
    if x.key.device = d then
      (x.before.take x.key x.task).departures d kind x.before.scheduled (x.actions event)
    else []
  | _ => []

/-- Whether the transmission on a link was over. -/
def frees (x : Step) (d : DeviceId) (kind : LinkKind) : Bool :=
  decide (x.key.device = d) && x.task.frees kind

/-- What a step comes to for a link, if it puts this on it. -/
structure OnLink (x : Step) (s' : Simulation) (d : DeviceId) (kind : LinkKind)
    (put : Option (Waiting × Duration)) : Prop where
  moves : (x.before.linkQueue d kind).Moves (x.handed? d kind) (x.frees d kind) put
    (s'.linkQueue d kind)
  departures : (x.departures d kind).map (fun p => (p.item, p.transmission)) = put.toList
  freeTimes : (s'.queue.freeTimes d kind).Perm
    (put.toList.map (fun p => x.key.time + p.2) ++ Queue.freeTimes x.before.queue.dropFirst d kind)
  arrivals : ∀ p ∈ x.departures d kind, p.start = x.key.time
    ∧ x.before.scheduled < p.number ∧ p.arrival ∈ s'.queue.entries

end Step

/-- A step that schedules no end of a transmission, and changes no machine of the device. -/
theorem onLink_of_still (hk : s.Kept history) {key : Key} {task : Task}
    (hq : s.queue.first? = some (key, task)) {machines : SortedMap DeviceId Machine}
    (hb : Books { s.take key task with machines } s' bookings)
    (hmachine : machines.get? d = s.machine? d)
    (hbookings : ∀ b ∈ bookings, Queue.freeing? d kind (b.key 0, b.task) = none)
    (hhanded : Step.handed? ⟨s, key, task⟩ d kind = none)
    (hdepartures : Step.departures ⟨s, key, task⟩ d kind = [])
    (hfrees : Step.frees ⟨s, key, task⟩ d kind = false ∨ s.machine? d = none) :
    Step.OnLink ⟨s, key, task⟩ s' d kind none := by
  have hqueue : s'.linkQueue d kind = s.linkQueue d kind := by
    rw [linkQueue, machine?, hb.machines, linkQueue, ← hmachine]
  constructor
  · rw [hqueue, hhanded]
    rcases hfrees with hfrees | hnone
    · rw [hfrees]
      exact .stays
    · have hempty : s.linkQueue d kind = {} := by rw [linkQueue, hnone]; rfl
      rw [hempty]
      cases Step.frees ⟨s, key, task⟩ d kind
      · exact .stays
      · exact .idles rfl
  · rw [hdepartures]
    rfl
  · have htaken := hk.take hq
    have hperm := hb.freeTimes (fun e he => htaken.sequence_le he) d kind
    rwa [List.filterMap_eq_nil_iff.mpr hbookings] at hperm
  · simp [hdepartures]

theorem linkQueue_eq {m : Machine} (hm : s.machine? d = some m) :
    s.linkQueue d kind = m.outbound.queue kind := by
  rw [linkQueue, hm]
  rfl

/-- A step of the device of a link. -/
theorem onLink_of_handle (hk : s.Kept history) {key : Key} {event : Event} {m m' : Machine}
    {actions : List Action} (hq : s.queue.first? = some (key, .device event))
    (hm : s.machine? key.device = some m)
    (hv : ({ m with now := key.time }.handle s.network event).value = some (actions, m'))
    (hb : Books { s.take key (.device event) with machines := s.machines.insert key.device m' } s'
      (actions.filterMap ((s.take key (.device event)).booking? key.device)))
    (kind : LinkKind) : ∃ put, Step.OnLink ⟨s, key, .device event⟩ s' key.device kind put := by
  have heffect := Machine.effect_of_handle hv
  obtain ⟨put, hmoves, hfilter⟩ := Machine.moves_of_effect heffect kind
  have hactions : Step.actions ⟨s, key, .device event⟩ event = actions :=
    Step.actions_of_handle hm hv
  have htaken := hk.take hq
  refine ⟨put, ?_, ?_, ?_, ?_⟩
  · have hm' : s'.machine? key.device = some m' := by
      rw [machine?, hb.machines]
      exact SortedMap.get?_insert_self _ _ _
    rw [linkQueue_eq hm, linkQueue_eq hm', Step.handed?, Step.frees]
    simp only [if_true, hm, Option.bind_some, decide_true, Bool.true_and]
    exact hmoves
  · rw [Step.departures]
    simp only [if_true, hactions]
    rw [map_departures, Action.filterMap_put? hfilter]
  · have hperm := hb.freeTimes (fun e he => htaken.sequence_le he) key.device kind
    have hnew : (actions.filterMap ((s.take key (.device event)).booking? key.device)).filterMap
        (fun b => Queue.freeing? key.device kind (b.key 0, b.task))
          = put.toList.map fun p => key.time + p.2 := by
      rw [List.filterMap_filterMap, List.filterMap_congr fun a ha => freeing?_booking? _ _ _ _
        (Machine.internal_of_effect heffect a ha)]
      simp only [if_true]
      rw [← List.map_filterMap, Action.filterMap_freesAfter? hfilter, List.map_map]
      rfl
    rwa [hnew] at hperm
  · intro p hp
    rw [Step.departures] at hp
    simp only [if_true, hactions] at hp
    obtain ⟨hstart, hnumber, hmem⟩ := of_mem_departures hp
    refine ⟨hstart, hnumber, ?_⟩
    exact ((hb.entries fun e he => htaken.sequence_le he).mem_iff).mpr (List.mem_append_left _ hmem)

/-- What a step comes to for any link. -/
theorem moves_of_step (hk : s.Kept history) {key : Key} {task : Task}
    (hq : s.queue.first? = some (key, task))
    (hp : (s.take key task).process key task = .ok s') (d : DeviceId) (kind : LinkKind) :
    ∃ put, Step.OnLink ⟨s, key, task⟩ s' d kind put := by
  cases task with
  | sensorTick id =>
    obtain ⟨bookings, hbooks, hemission⟩ := tick_books hp
    refine ⟨none, onLink_of_still hk hq hbooks rfl (fun b hb => ?_) rfl rfl
      (Or.inl (by simp [Step.frees, Task.frees]))⟩
    cases hemission b hb <;> simp [Queue.freeing?, Task.frees, Event.frees]
  | executionCompleted target message =>
    have hbooks := complete_books (s.take key (.executionCompleted target message)) target message
    rw [Except.ok.inj hp] at hbooks
    refine ⟨none, onLink_of_still hk hq hbooks rfl (fun b hb => ?_) rfl rfl
      (Or.inl (by simp [Step.frees, Task.frees]))⟩
    obtain ⟨_, _, rfl⟩ := List.mem_map.mp hb
    simp [Queue.freeing?, Task.frees, Event.frees]
  | device event =>
    rcases happen_books hp with ⟨hm, rfl⟩ | ⟨m, actions, m', hm, hv, hbooks⟩
    · have hm : s.machine? key.device = none := hm
      refine ⟨none, onLink_of_still hk hq (.refl _) rfl (by simp) ?_ ?_ ?_⟩
      · by_cases hd : key.device = d
        · subst hd
          simp [Step.handed?, hm]
        · simp [Step.handed?, hd]
      · simp [Step.departures, Step.actions_of_none hm, departures]
      · by_cases hd : key.device = d
        · exact Or.inr (hd ▸ hm)
        · exact Or.inl (by simp [Step.frees, hd])
    · by_cases hd : key.device = d
      · subst hd
        exact onLink_of_handle hk hq hm hv hbooks kind
      · have hother : (s.machines.insert key.device m').get? d = s.machine? d :=
          SortedMap.get?_insert_ne _ _ (Ne.symm hd)
        refine ⟨none, onLink_of_still hk hq hbooks hother (fun b hb => ?_) ?_ ?_
          (Or.inl (by simp [Step.frees, hd]))⟩
        · obtain ⟨a, ha, hb⟩ := List.mem_filterMap.mp hb
          have hinternal := Machine.internal_of_effect (Machine.effect_of_handle hv) a ha
          have hbind := freeing?_booking? (s.take key (.device event)) key.device d kind hinternal
          rwa [hb, Option.bind_some, if_neg hd] at hbind
        · simp [Step.handed?, hd]
        · simp [Step.departures, hd]

end Simulation

end FogNet
