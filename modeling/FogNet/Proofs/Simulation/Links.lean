import FogNet.Proofs.Simulation.Tracking
import FogNet.Proofs.Simulation.Transmissions

/-!
# The links of a simulation

One message at a time is on a link. What dispatch hands to the link in the meantime waits for it,
and is put on the link in the order in which it was handed over. It arrives after transmission and
latency, and since the way to one neighbour always has the same latency, arrivals there come in the
order of departures, whatever else is in the queue: at one instant the number of the scheduling
decides.

## Main statements

* `disciplined_of_ran` — one message at a time is on a link, along every run
* `delivering_of_ran` — what was put on a link arrives in order
* `links_in_order` — transmissions do not overlap, and messages keep their order
-/

namespace FogNet

namespace Simulation

variable {net : Network} {seed : UInt64} {s s' : Simulation} {history : List Step}
  {d : DeviceId} {kind : LinkKind}

/-! ## One message at a time -/

/-- What dispatch handed to a link. -/
def handed (history : List Step) (d : DeviceId) (kind : LinkKind) : List Waiting :=
  history.filterMap fun x => x.handed? d kind

/-- What was put on a link. -/
def departed (history : List Step) (d : DeviceId) (kind : LinkKind) : List Departure :=
  history.flatMap fun x => x.departures d kind

theorem handed_append (history : List Step) (x : Step) (d : DeviceId) (kind : LinkKind) :
    handed (history ++ [x]) d kind = handed history d kind ++ (x.handed? d kind).toList := by
  rw [handed, List.filterMap_append]
  cases hx : x.handed? d kind <;> simp [hx, handed]

theorem departed_append (history : List Step) (x : Step) (d : DeviceId) (kind : LinkKind) :
    departed (history ++ [x]) d kind = departed history d kind ++ x.departures d kind := by
  rw [departed, List.flatMap_append, List.flatMap_singleton, departed]

/--
A link carries what it was handed, in that order and one after another. It is busy as long as the
end of a transmission is to come, and only then something waits for it.
-/
structure Disciplined (history : List Step) (s : Simulation) (d : DeviceId) (kind : LinkKind) :
    Prop where
  handed : handed history d kind
    = (departed history d kind).map Departure.item ++ (s.linkQueue d kind).waiting
  apart : (departed history d kind).Pairwise fun p q => p.finish ≤ q.start
  idle : (s.linkQueue d kind).busy = false → (s.linkQueue d kind).waiting = []
    ∧ s.queue.freeTimes d kind = [] ∧ ∀ p ∈ departed history d kind, p.finish ≤ clock history
  busy : (s.linkQueue d kind).busy = true → ∃ t, s.queue.freeTimes d kind = [t]
    ∧ ∀ p ∈ departed history d kind, p.finish ≤ t

namespace Disciplined

variable {key : Key} {task : Task}

/-- At most one end of a transmission is to come, so the order of these says nothing. -/
theorem eq_freeTimes (h : s.Disciplined history d kind) {l : List Duration}
    (hl : l.Perm (s.queue.freeTimes d kind)) : l = s.queue.freeTimes d kind := by
  cases hbusy : (s.linkQueue d kind).busy with
  | false =>
    rw [(h.idle hbusy).2.1] at hl ⊢
    exact hl.eq_nil
  | true =>
    obtain ⟨t, ht, _⟩ := h.busy hbusy
    rw [ht] at hl ⊢
    exact hl.eq_singleton

/-- Time may pass, and messages may join the line of a busy link. -/
theorem wait (h : s.Disciplined history d kind) {x : Step} (hclock : clock history ≤ x.key.time)
    (hdepartures : x.departures d kind = [])
    (hbusy : (s'.linkQueue d kind).busy = (s.linkQueue d kind).busy)
    (hwaiting : (s'.linkQueue d kind).waiting
      = (s.linkQueue d kind).waiting ++ (x.handed? d kind).toList)
    (hidle : (s.linkQueue d kind).busy = false → x.handed? d kind = none)
    (hfree : s'.queue.freeTimes d kind = s.queue.freeTimes d kind) :
    s'.Disciplined (history ++ [x]) d kind := by
  constructor
  · rw [handed_append, departed_append, hdepartures, List.append_nil, hwaiting, h.handed,
      List.append_assoc]
  · rw [departed_append, hdepartures, List.append_nil]
    exact h.apart
  · rw [departed_append, hdepartures, List.append_nil, hbusy, hwaiting, hfree, clock_append]
    intro hb
    obtain ⟨hnone, htimes, hfinish⟩ := h.idle hb
    refine ⟨?_, htimes, fun p hp => (hfinish p hp).trans hclock⟩
    rw [hnone, hidle hb]
    rfl
  · rw [departed_append, hdepartures, List.append_nil, hbusy, hfree]
    exact h.busy

/-- A link may be idle when all transmissions are over and nothing waits for it. -/
theorem rest (h : s.Disciplined history d kind) {x : Step}
    (hover : ∀ q ∈ departed history d kind, q.finish ≤ x.key.time)
    (hdepartures : x.departures d kind = []) (hhanded : x.handed? d kind = none)
    (hwaiting : (s.linkQueue d kind).waiting = []) (hqueue : s'.linkQueue d kind = {})
    (hfree : s'.queue.freeTimes d kind = []) : s'.Disciplined (history ++ [x]) d kind := by
  constructor
  · rw [handed_append, departed_append, hdepartures, hhanded, h.handed, hwaiting, hqueue]
    simp
  · rw [departed_append, hdepartures, List.append_nil]
    exact h.apart
  · rw [departed_append, hdepartures, List.append_nil, hqueue, clock_append]
    exact fun _ => ⟨rfl, hfree, hover⟩
  · rw [hqueue]
    exact fun hbusy => absurd hbusy Bool.false_ne_true

/-- A message may be put on a link when all transmissions before are over. -/
theorem depart (h : s.Disciplined history d kind) {x : Step}
    (hover : ∀ q ∈ departed history d kind, q.finish ≤ x.key.time) {w : Waiting}
    {transmission : Duration}
    (hdepartures : (x.departures d kind).map (fun p => (p.item, p.transmission))
      = [(w, transmission)])
    (hstart : ∀ p ∈ x.departures d kind, p.start = x.key.time)
    (hline : (s.linkQueue d kind).waiting ++ (x.handed? d kind).toList
      = w :: (s'.linkQueue d kind).waiting)
    (hbusy : (s'.linkQueue d kind).busy = true)
    (hfree : s'.queue.freeTimes d kind = [x.key.time + transmission]) :
    s'.Disciplined (history ++ [x]) d kind := by
  obtain ⟨p, hp, hitem⟩ := List.map_eq_singleton_iff.mp hdepartures
  obtain ⟨rfl, rfl⟩ := Prod.mk.inj hitem
  have hstart : p.start = x.key.time := hstart p (by simp [hp])
  constructor
  · rw [handed_append, departed_append, hp, h.handed, List.append_assoc, hline, List.map_append,
      List.append_assoc]
    rfl
  · rw [departed_append, hp]
    refine List.pairwise_append.mpr ⟨h.apart, List.pairwise_singleton _ _, fun q hq p' hp' => ?_⟩
    rw [List.mem_singleton.mp hp', hstart]
    exact hover q hq
  · rw [hbusy]
    exact fun hidle => absurd hidle.symm Bool.false_ne_true
  · intro _
    refine ⟨_, hfree, fun q hq => ?_⟩
    rw [departed_append, hp] at hq
    rcases List.mem_append.mp hq with hq | hq
    · exact (hover q hq).trans (Nat.le_add_right _ _)
    · rw [List.mem_singleton.mp hq, Departure.finish, hstart]

/-- A step keeps a link in this order. -/
theorem step (hk : s.Kept history) (h : s.Disciplined history d kind)
    (hq : s.queue.first? = some (key, task)) {put : Option (Waiting × Duration)}
    (hx : Step.OnLink ⟨s, key, task⟩ s' d kind put) :
    s'.Disciplined (history ++ [⟨s, key, task⟩]) d kind := by
  have hclock := hk.clock_le hq
  have htimes : s.queue.freeTimes d kind
      = (if Step.frees ⟨s, key, task⟩ d kind = true then [key.time] else [])
        ++ Queue.freeTimes s.queue.dropFirst d kind := by
    rw [Queue.freeTimes_of_first hq]
    by_cases hd : key.device = d <;> cases hf : task.frees kind <;>
      simp [Queue.freeing?, Step.frees, hd, hf]
  obtain ⟨hmoves, hdepartures, hfree, harrivals⟩ := hx
  have hstart : ∀ p ∈ Step.departures ⟨s, key, task⟩ d kind, p.start = key.time :=
    fun p hp => (harrivals p hp).1
  -- A transmission that is over was the only one.
  have hover (hfrees : Step.frees ⟨s, key, task⟩ d kind = true) :
      Queue.freeTimes s.queue.dropFirst d kind = []
        ∧ ∀ q ∈ departed history d kind, q.finish ≤ key.time := by
    rw [if_pos hfrees] at htimes
    cases hbusy : (s.linkQueue d kind).busy with
    | false =>
      rw [(h.idle hbusy).2.1] at htimes
      cases htimes
    | true =>
      obtain ⟨t, ht, hfinish⟩ := h.busy hbusy
      rw [ht] at htimes
      obtain ⟨rfl, hnil⟩ := List.cons.inj htimes
      exact ⟨hnil.symm, hfinish⟩
  generalize hhanded : Step.handed? ⟨s, key, task⟩ d kind = handed at hmoves
  generalize hfrees : Step.frees ⟨s, key, task⟩ d kind = frees at hmoves htimes hover
  generalize hqueue : s'.linkQueue d kind = q' at hmoves
  cases hmoves with
  | stays =>
    refine h.wait hclock (List.map_eq_nil_iff.mp hdepartures) (by rw [hqueue]) ?_
      (fun _ => hhanded) (h.eq_freeTimes ?_)
    · rw [hqueue, hhanded]
      simp
    · rw [htimes]
      exact hfree
  | joins w hbusy =>
    refine h.wait hclock (List.map_eq_nil_iff.mp hdepartures) (by rw [hqueue, hbusy]) ?_ ?_
      (h.eq_freeTimes ?_)
    · rw [hqueue, hhanded]
      rfl
    · rw [hbusy]
      exact fun hidle => absurd hidle.symm Bool.false_ne_true
    · rw [htimes]
      exact hfree
  | departs w transmission hidle =>
    obtain ⟨hwaiting, hnone, hfinish⟩ := h.idle hidle
    refine h.depart (fun q hq => (hfinish q hq).trans hclock) hdepartures hstart ?_ ?_ ?_
    · rw [hqueue, hhanded, hwaiting]
      rfl
    · rw [hqueue]
    · rw [hnone] at htimes
      have hrest : Queue.freeTimes s.queue.dropFirst d kind = [] :=
        (List.nil_eq_append_iff.mp htimes).2
      rw [hrest] at hfree
      exact hfree.eq_singleton
  | idles hwaiting =>
    obtain ⟨hnone, hfinish⟩ := hover rfl
    refine h.rest hfinish (List.map_eq_nil_iff.mp hdepartures) hhanded hwaiting hqueue ?_
    rw [hnone] at hfree
    exact hfree.eq_nil
  | follows transmission hwaiting =>
    obtain ⟨hnone, hfinish⟩ := hover rfl
    refine h.depart hfinish hdepartures hstart ?_ ?_ ?_
    · rw [hqueue, hhanded, hwaiting]
      simp
    · rw [hqueue]
    · rw [hnone] at hfree
      exact hfree.eq_singleton

end Disciplined

/-! ## The same order at each neighbour -/

/-- The arrivals of what was put on a link for a neighbour, in the order of departure. -/
def sentTo (history : List Step) (d : DeviceId) (kind : LinkKind) (n : DeviceId) :
    List (Key × Task) :=
  ((departed history d kind).filter fun p => p.item.target = n).map Departure.arrival

/-- What was processed of these, in the order in which it was. -/
def received (history : List Step) (d : DeviceId) (kind : LinkKind) (n : DeviceId) :
    List (Key × Task) :=
  (history.map fun x => (x.key, x.task)).filter fun e =>
    e.1 ∈ (sentTo history d kind n).map Prod.fst

/-- Arrivals are numbered in the order of departure, and wait in the queue until their turn. -/
structure Delivering (history : List Step) (s : Simulation) (d : DeviceId) (kind : LinkKind)
    (n : DeviceId) : Prop where
  numbered : ∀ p ∈ departed history d kind, p.number ≤ s.scheduled
  ascending : (departed history d kind).Pairwise fun p q => p.number < q.number
  underway : ∃ rest, sentTo history d kind n = received history d kind n ++ rest
    ∧ ∀ e ∈ rest, e ∈ s.queue.entries

/-- On one link the way to a neighbour always takes the same time. -/
def SteadyTo (net : Network) (history : List Step) (d : DeviceId) (kind : LinkKind) : Prop :=
  ∀ w ∈ handed history d kind,
    (net.topology.link? d w.target).map Link.latency = some w.latency

/-- At a neighbour messages arrive in the order in which they departed. -/
theorem sentTo_sorted (hd : s.Disciplined history d kind) (hl : SteadyTo net history d kind)
    {n : DeviceId} (h : s.Delivering history d kind n) :
    (sentTo history d kind n).Pairwise fun e f => compare e.1 f.1 = .lt := by
  refine List.pairwise_map.mpr (((hd.apart.and h.ascending).filter _).imp_of_mem ?_)
  intro p q hp hq hpq
  obtain ⟨hapart, hnumber⟩ := hpq
  obtain ⟨hp, htarget⟩ := List.mem_filter.mp hp
  obtain ⟨hq, htarget'⟩ := List.mem_filter.mp hq
  have htarget : p.item.target = n := of_decide_eq_true htarget
  have htarget' : q.item.target = n := of_decide_eq_true htarget'
  have hlatency : p.item.latency = q.item.latency := by
    have hitem {p : Departure} (hp : p ∈ departed history d kind) :
        p.item ∈ Simulation.handed history d kind := by
      rw [hd.handed]
      exact List.mem_append_left _ (List.mem_map.mpr ⟨p, hp, rfl⟩)
    have hp := hl _ (hitem hp)
    have hq := hl _ (hitem hq)
    rw [htarget] at hp
    rw [htarget'] at hq
    exact Option.some.inj (hp.symm.trans hq)
  have htime : p.start + (p.transmission + p.item.latency)
      ≤ q.start + (q.transmission + q.item.latency) := by
    have hfinish : p.start + p.transmission ≤ q.start := hapart
    rw [hlatency]
    change @LE.le Nat _ _ _ at hfinish ⊢
    omega
  rcases Nat.lt_or_eq_of_le htime with hlt | heq
  · exact Key.lt_of_time hlt
  · exact Key.compare_eq_lt_of_sequence heq rfl (htarget.trans htarget'.symm) hnumber

namespace Delivering

variable {n : DeviceId} {key : Key} {task : Task}

theorem sentTo_append (history : List Step) (x : Step) (d : DeviceId) (kind : LinkKind)
    (n : DeviceId) : sentTo (history ++ [x]) d kind n = sentTo history d kind n
      ++ ((x.departures d kind).filter fun p => p.item.target = n).map Departure.arrival := by
  rw [sentTo, departed_append, List.filter_append, List.map_append, sentTo]

/-- A step that processes no arrival of those on their way, or that of them which is first. -/
theorem received_append (hk : s.Kept history) (hq : s.queue.first? = some (key, task))
    (hnew : ∀ p ∈ Step.departures ⟨s, key, task⟩ d kind, s.scheduled < p.number) :
    received (history ++ [⟨s, key, task⟩]) d kind n = received history d kind n
      ++ if key ∈ (sentTo history d kind n).map Prod.fst then [(key, task)] else [] := by
  -- The numbers of new arrivals are new, so none of them was processed.
  have hold {k : Key} (hle : k.sequence ≤ s.scheduled) :
      k ∈ (sentTo (history ++ [⟨s, key, task⟩]) d kind n).map Prod.fst
        ↔ k ∈ (sentTo history d kind n).map Prod.fst := by
    rw [sentTo_append, List.map_append, List.mem_append]
    refine ⟨fun h => h.resolve_right fun hmem => ?_, Or.inl⟩
    obtain ⟨e, he, rfl⟩ := List.mem_map.mp hmem
    obtain ⟨p, hp, rfl⟩ := List.mem_map.mp he
    exact absurd (Nat.lt_of_lt_of_le (hnew p (List.mem_filter.mp hp).1) hle) (Nat.lt_irrefl _)
  have hfirst := Queue.mem_of_first hq
  rw [received, List.map_append, List.filter_append]
  congr 1
  · refine List.filter_congr fun e he => ?_
    obtain ⟨x, hx, rfl⟩ := List.mem_map.mp he
    exact decide_eq_decide.mpr (hold (hk.history_sequence_le hx))
  · have hmem := hold (hk.sequence_le hfirst)
    by_cases hkey : key ∈ (sentTo history d kind n).map Prod.fst
    · rw [if_pos hkey]
      exact List.filter_eq_self.mpr fun e he => by
        rw [List.mem_singleton.mp he]
        exact decide_eq_true (hmem.mpr hkey)
    · rw [if_neg hkey]
      exact List.filter_eq_nil_iff.mpr fun e he => by
        rw [List.mem_singleton.mp he]
        exact fun h => hkey (hmem.mp (of_decide_eq_true h))

/-- What is processed of the arrivals under way is the first of them. -/
theorem underway_step (hk : s.Kept history) (hq : s.queue.first? = some (key, task))
    {rest : List (Key × Task)} (hsent : sentTo history d kind n = received history d kind n ++ rest)
    (hqueue : ∀ e ∈ rest, e ∈ s.queue.entries)
    (hsorted : rest.Pairwise fun e f => compare e.1 f.1 = .lt) :
    ∃ rest', rest = (if key ∈ (sentTo history d kind n).map Prod.fst then [(key, task)] else [])
        ++ rest' ∧ ∀ e ∈ rest', e ∈ SortedMap.entries s.queue.dropFirst := by
  have hentries := Queue.entries_of_first hq
  have hfirst : (key, task) ∈ s.queue.entries := by
    rw [hentries]
    exact List.mem_cons_self
  have hlater {e : Key × Task} (he : e ∈ rest) :
      e = (key, task) ∨ e ∈ SortedMap.entries s.queue.dropFirst := by
    have hmem := hqueue e he
    rw [hentries] at hmem
    exact List.mem_cons.mp hmem
  by_cases hkey : key ∈ (sentTo history d kind n).map Prod.fst
  · rw [if_pos hkey]
    have hmem : (key, task) ∈ rest := by
      obtain ⟨e, he, rfl⟩ := List.mem_map.mp hkey
      rw [hsent] at he
      rcases List.mem_append.mp he with he | he
      · obtain ⟨x, hx, rfl⟩ := List.mem_map.mp (List.mem_filter.mp he).1
        exact absurd rfl (hk.ne_of_mem hx hfirst)
      · rcases hlater he with hsame | hdrop
        · rw [← hsame]
          exact he
        · exact absurd (Queue.first_lt hq hdrop) (SortedMap.compare_self_ne_lt _)
    cases rest with
    | nil => exact absurd hmem List.not_mem_nil
    | cons u rest =>
      obtain ⟨hu, _⟩ := List.pairwise_cons.mp hsorted
      -- The first task of the queue comes before all others, and `u` before all that are under way.
      have hsame : u = (key, task) := by
        rcases hlater List.mem_cons_self with hsame | hdrop
        · exact hsame
        · rcases List.mem_cons.mp hmem with hsame | hmem
          · exact hsame.symm
          · have hlt := Queue.first_lt hq hdrop
            have hgt := Std.OrientedCmp.gt_of_lt (hu _ hmem)
            rw [hlt] at hgt
            cases hgt
      subst hsame
      refine ⟨rest, rfl, fun e he => (hlater (List.mem_cons_of_mem _ he)).resolve_left ?_⟩
      rintro rfl
      exact SortedMap.compare_self_ne_lt _ (hu _ he)
  · rw [if_neg hkey]
    refine ⟨rest, rfl, fun e he => (hlater he).resolve_left ?_⟩
    rintro rfl
    refine hkey (List.mem_map.mpr ⟨(key, task), ?_, rfl⟩)
    rw [hsent]
    exact List.mem_append_right _ he

/-- What a step puts on the link arrives after what was there, and what it processes was next. -/
theorem step (hk : s.Kept history) (hk' : s'.Kept (history ++ [⟨s, key, task⟩]))
    (hd : s.Disciplined history d kind) (hl : SteadyTo net history d kind)
    (h : s.Delivering history d kind n) (hq : s.queue.first? = some (key, task))
    (hp : (s.take key task).process key task = .ok s') {put : Option (Waiting × Duration)}
    (hx : Step.OnLink ⟨s, key, task⟩ s' d kind put) :
    s'.Delivering (history ++ [⟨s, key, task⟩]) d kind n := by
  obtain ⟨hscheduled, hstays⟩ := hk.stays hq hp
  have hnew : ∀ p ∈ Step.departures ⟨s, key, task⟩ d kind, s.scheduled < p.number :=
    fun p hp => (hx.arrivals p hp).2.1
  constructor
  · rw [departed_append]
    refine List.forall_mem_append.mpr ⟨fun p hp => (h.numbered p hp).trans hscheduled, ?_⟩
    exact fun p hp => hk'.sequence_le (hx.arrivals p hp).2.2
  · rw [departed_append]
    refine List.pairwise_append.mpr ⟨h.ascending, ?_, fun p hp q hq =>
      Nat.lt_of_le_of_lt (h.numbered p hp) (hnew q hq)⟩
    -- A step puts at most one message on the link.
    have hlength := congrArg List.length hx.departures
    rw [List.length_map] at hlength
    cases hdepartures : Step.departures ⟨s, key, task⟩ d kind with
    | nil => exact List.Pairwise.nil
    | cons p l =>
      rw [hdepartures] at hlength
      have hnil : l = [] := by
        cases put with
        | none => simp at hlength
        | some _ => simpa using hlength
      rw [hnil]
      exact List.pairwise_singleton _ _
  · obtain ⟨rest, hsent, hqueue⟩ := h.underway
    have hsorted := sentTo_sorted hd hl h
    rw [hsent] at hsorted
    obtain ⟨rest', hrest, hdrop⟩ := underway_step hk hq hsent hqueue
      (List.pairwise_append.mp hsorted).2.1
    refine ⟨rest' ++ ((Step.departures ⟨s, key, task⟩ d kind).filter fun p =>
      p.item.target = n).map Departure.arrival, ?_, ?_⟩
    · rw [sentTo_append, received_append hk hq hnew, List.append_assoc, ← List.append_assoc _ rest',
        ← hrest, ← List.append_assoc, ← hsent]
    · refine List.forall_mem_append.mpr ⟨fun e he => hstays e (hdrop e he), fun e he => ?_⟩
      obtain ⟨p, hp, rfl⟩ := List.mem_map.mp he
      exact (hx.arrivals p (List.mem_filter.mp hp).1).2.2

end Delivering

/-! ## Runs -/

theorem steadyTo_of_ran (h : Ran net seed history s) : SteadyTo net history d kind := by
  intro w hw
  obtain ⟨x, hx, hw⟩ := List.mem_filterMap.mp hw
  obtain ⟨_, hran, _⟩ := h.mem hx
  obtain ⟨_, ht⟩ := tracked_of_reached hran.reached
  unfold Step.handed? at hw
  split at hw
  · split at hw
    · obtain ⟨m, hm, hw⟩ := Option.bind_eq_some_iff.mp hw
      obtain ⟨_, _, link, _, _, hlink, hlatency⟩ := Machine.handedTo?_cases hw
      rw [ht.network, ht.placing.id d m hm] at hlink
      rw [hlink, Option.map_some, hlatency]
    · cases hw
  · cases hw

/-- A machine may change in all but its links. -/
theorem linkQueue_insert {g : DeviceId} {m m' : Machine} (hm : s.machine? g = some m)
    (hout : m'.outbound = m.outbound) (d : DeviceId) (kind : LinkKind) :
    linkQueue { s with machines := s.machines.insert g m' } d kind = s.linkQueue d kind := by
  rw [linkQueue, machine?, SortedMap.get?_insert]
  split
  · next hd =>
    rw [hd, linkQueue, hm, Option.map_some, Option.map_some, hout]
  · rfl

theorem Disciplined.congr (h : s.Disciplined history d kind)
    (hqueue : s'.linkQueue d kind = s.linkQueue d kind)
    (hfree : s'.queue.freeTimes d kind = s.queue.freeTimes d kind) :
    s'.Disciplined history d kind := by
  constructor
  · rw [hqueue]
    exact h.handed
  · exact h.apart
  · rw [hqueue, hfree]
    exact h.idle
  · rw [hqueue, hfree]
    exact h.busy

/-- Nothing that a simulation starts with is the end of a transmission. -/
theorem Opening.freeing? {b : Booking} (h : s.Opening b) (d : DeviceId) (kind : LinkKind) :
    Queue.freeing? d kind (b.key 0, b.task) = none := by
  cases h with
  | @machine m a _ hm ha hb =>
    have hbind := freeing?_booking? s m.id d kind (Machine.internal_of_start a ha)
    rw [hb, Option.bind_some] at hbind
    rw [hbind]
    rcases Machine.start_actions ha with rfl | ⟨e, he, rfl⟩ <;> simp [Action.freesAfter?]
  | request _ _ _ => simp [Queue.freeing?, Task.frees, Event.frees]
  | interval _ => simp [Queue.freeing?, Task.frees]

/-- A link in a reached simulation is in order. -/
theorem disciplined_of_ran (h : Ran net seed history s) : s.Disciplined history d kind := by
  induction h with
  | create =>
    have hqueue : (create net seed).linkQueue d kind = {} := by
      rw [linkQueue]
      cases hm : (create net seed).machine? d with
      | none => rfl
      | some m =>
        obtain ⟨_, _, _, rfl⟩ := machine?_create hm
        cases kind <;> rfl
    constructor
    · rw [hqueue]
      rfl
    · exact List.Pairwise.nil
    · rw [hqueue]
      exact fun _ => ⟨rfl, rfl, fun _ hp => absurd hp List.not_mem_nil⟩
    · rw [hqueue]
      exact fun hbusy => absurd hbusy Bool.false_ne_true
  | sensor _ hs ih =>
    obtain ⟨m, m', hplace, hregister, rfl⟩ := addSensor_ok_cases hs
    obtain ⟨_, hm⟩ := placeForSensor_ok_cases hplace
    exact ih.congr (linkQueue_insert hm (registerClient_same hregister).2.1 d kind) rfl
  | actuator _ hs ih =>
    obtain ⟨_, _, m, hm, rfl⟩ := addActuator_ok_cases hs
    exact ih.congr (linkQueue_insert hm (by rfl) d kind) rfl
  | start h hs ih =>
    obtain ⟨_, hbooks, hopening⟩ := start_books hs
    refine ih.congr (by rw [linkQueue, machine?, hbooks.machines, linkQueue, machine?]) ?_
    have hfree := hbooks.freeTimes (fun e he => (kept_of_ran h).sequence_le he) d kind
    rw [List.filterMap_eq_nil_iff.mpr fun b hb => (hopening b hb).freeing? d kind] at hfree
    exact ih.eq_freeTimes hfree
  | step h hq hp ih =>
    have hk := kept_of_ran h
    obtain ⟨_, hx⟩ := moves_of_step hk hq hp d kind
    exact ih.step hk hq hx
  | settle stop _ ih => exact ih.congr rfl rfl

/-- What was put on a link in a reached simulation is delivered in order. -/
theorem delivering_of_ran (h : Ran net seed history s) (n : DeviceId) :
    s.Delivering history d kind n := by
  induction h with
  | create =>
    exact ⟨fun _ hp => absurd hp List.not_mem_nil, List.Pairwise.nil, [], rfl,
      fun _ he => absurd he List.not_mem_nil⟩
  | sensor _ hs ih =>
    obtain ⟨_, _, _, _, rfl⟩ := addSensor_ok_cases hs
    exact ⟨ih.numbered, ih.ascending, ih.underway⟩
  | actuator _ hs ih =>
    obtain ⟨_, _, _, _, rfl⟩ := addActuator_ok_cases hs
    exact ⟨ih.numbered, ih.ascending, ih.underway⟩
  | start h hs ih =>
    obtain ⟨_, hbooks, _⟩ := start_books hs
    have hentries := hbooks.entries fun e he => (kept_of_ran h).sequence_le he
    obtain ⟨rest, hsent, hqueue⟩ := ih.underway
    refine ⟨fun p hp => (ih.numbered p hp).trans ?_, ih.ascending, rest, hsent, fun e he =>
      hentries.mem_iff.mpr (List.mem_append_right _ (hqueue e he))⟩
    rw [hbooks.scheduled]
    exact Nat.le_add_right _ _
  | step h hq hp ih =>
    have hk := kept_of_ran h
    obtain ⟨_, hx⟩ := moves_of_step hk hq hp d kind
    exact ih.step hk (kept_of_ran (h.step hq hp)) (disciplined_of_ran h) (steadyTo_of_ran h) hq hp
      hx
  | settle stop _ ih => exact ⟨ih.numbered, ih.ascending, ih.underway⟩

/--
On every link of every device one transmission is over before the next begins. Messages are put on
the link in the order in which dispatch handed them to it, and those that are not yet put there
wait in that order. What goes to one neighbour is processed there in the order of departure: the
arrivals processed so far are the first of those that were scheduled.
-/
theorem links_in_order (h : Ran net seed history s) (d : DeviceId) (kind : LinkKind) :
    (departed history d kind).Pairwise (fun p q => p.start + p.transmission ≤ q.start)
      ∧ handed history d kind
          = (departed history d kind).map Departure.item ++ (s.linkQueue d kind).waiting
      ∧ ∀ n, received history d kind n <+: sentTo history d kind n := by
  have hd : s.Disciplined history d kind := disciplined_of_ran h
  refine ⟨hd.apart, hd.handed, fun n => ?_⟩
  obtain ⟨rest, hsent, _⟩ := (delivering_of_ran h n).underway
  exact ⟨rest, hsent.symm⟩

/--
The client on the phone asks twice at one instant, so the second question waits for a tenth of a
millisecond. It is on its way when the cloud has handled the first.
-/
theorem links_in_order_echo : ∃ history s, Ran echoNetwork 0 history s
    ∧ (handed history 2 .uplink).map (fun w => w.message.tupleType) = ["u", "v"]
    ∧ (departed history 2 .uplink).map (fun p => (p.start, p.transmission))
        = [(606000000, 100000), (606100000, 100000)]
    ∧ (sentTo history 2 .uplink 1).map (fun e => e.1.time) = [606100000, 606200000]
    ∧ (received history 2 .uplink 1).map (fun e => e.1.time) = [606100000]
    ∧ received history 2 .uplink 1 <+: sentTo history 2 .uplink 1 := by
  obtain ⟨s, hs, _⟩ := exists_of_finishesWith (p := fun _ => true)
    (show finishesWith _ (echoStart.runUntil 606150000 60) = true by decide +kernel)
  have hran : Ran echoNetwork 0 (echoStart.stepsUntil 606150000 60) s :=
    ran_of_runUntil (ran_withSensors _ _ _) hs
  obtain ⟨_, _, hreceived⟩ := links_in_order hran 2 .uplink
  exact ⟨_, s, hran, by decide +kernel, by decide +kernel, by decide +kernel, by decide +kernel,
    hreceived 1⟩

end Simulation

end FogNet
