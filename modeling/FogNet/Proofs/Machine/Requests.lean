import FogNet.Proofs.Machine.Accounts
import FogNet.Proofs.Placement.Answers

/-!
# What becomes of a request

A request that was submitted to an orchestrator is pending until one cycle places it completely, and
that cycle is the only one to return it. The pending requests keep the order of their submission.

## Main statements

* `returned_of_get?` — what one cycle returns
* `Run.returned` — what is returned was submitted, and what it is given
* `pending_or_returned` — every submitted request is pending, or was returned once
-/

namespace FogNet

namespace Orchestrator

variable {l : Layout} {net : Network} {root : DeviceId} {o : Orchestrator}
  {submitted : List Request} {placements : List Placement} {id : RequestId} {a : Assignment}

/--
An assignment is right for a request: a path starts at the gateway of the request, its application
is registered, and the assignment has a device for all that the application declares and that the
request does not bring along.
-/
def Serves (net : Network) (root : DeviceId) (r : Request) (a : Assignment) : Prop :=
  (∃ path ∈ net.topology.leafPaths root, path.head? = some r.gateway)
    ∧ ∃ app, net.application? r.app = some app
      ∧ ∀ n, n ∈ a.keys ↔ n ∈ app.names ∧ n ∉ r.placed.keys

/-- What a cycle returns is for a pending request, and right for it. -/
theorem returned_of_get? (hb : Topology.build l = .ok net.topology)
    (hn : (o.pending.map Request.id).Nodup)
    (h : (o.attempt net root).placement.get? id = some a) :
    ∃ r ∈ o.pending, r.id = id ∧ Serves net root r a := by
  have hf := Layout.forest_of_build hb
  rw [attempt_eq] at h
  obtain ⟨r, hr, rfl, happ⟩ := PlacementSetting.run_keys (s := o.setting net root) hf hn h
  have hcontains : ((o.setting net root).run o.pending).placement.contains r.id = true := by
    rw [SortedMap.contains_eq, h]
    rfl
  have hall := (PlacementSetting.run_contains_iff (s := o.setting net root) hf hn hr).mp hcontains
  exact ⟨r, hr, rfl, hall.1, happ⟩

theorem pending_of_contains (hb : Topology.build l = .ok net.topology)
    (hn : (o.pending.map Request.id).Nodup)
    (h : (o.attempt net root).placement.contains id = true) : ∃ r ∈ o.pending, r.id = id := by
  obtain ⟨a, ha⟩ := Option.isSome_iff_exists.mp h
  obtain ⟨r, hr, hid, _⟩ := returned_of_get? hb hn ha
  exact ⟨r, hr, hid⟩

/-- What the cycles of a run returned was submitted, and is right for the request. -/
theorem Run.returned (hb : Topology.build l = .ok net.topology)
    (hr : Run net root submitted placements o) (hn : (submitted.map Request.id).Nodup) :
    ∀ p ∈ placements, ∀ id a, p.get? id = some a →
      ∃ r ∈ submitted, r.id = id ∧ Serves net root r a := by
  induction hr with
  | start => exact fun _ hp => absurd hp List.not_mem_nil
  | submit request _ ih =>
    intro p hp id a ha
    rw [List.map_append] at hn
    obtain ⟨r, hr, hserves⟩ := ih (List.nodup_append.mp hn).1 p hp id a ha
    exact ⟨r, List.mem_append_left _ hr, hserves⟩
  | tick hr _ ih =>
    intro p hp id a ha
    rcases List.mem_append.mp hp with hp | hp
    · exact ih hn p hp id a ha
    · have hsub := hr.pending_sublist
      rw [List.mem_singleton.mp hp] at ha
      obtain ⟨r, hmem, hserves⟩ := returned_of_get? hb (hn.sublist (hsub.map _)) ha
      exact ⟨r, hsub.subset hmem, hserves⟩

/-- How many cycles returned a request. -/
def timesReturned (placements : List Placement) (id : RequestId) : Nat :=
  placements.countP fun p => p.contains id

theorem timesReturned_snoc (placements : List Placement) (p : Placement) (id : RequestId) :
    timesReturned (placements ++ [p]) id
      = timesReturned placements id + if p.contains id then 1 else 0 := by
  rw [timesReturned, timesReturned, List.countP_append, List.countP_singleton]

/-- A request is returned once, or it is pending. -/
theorem Run.timesReturned_eq (hb : Topology.build l = .ok net.topology)
    (hr : Run net root submitted placements o) (hn : (submitted.map Request.id).Nodup) :
    ∀ r ∈ submitted, (r ∈ o.pending ∧ timesReturned placements r.id = 0)
      ∨ (r ∉ o.pending ∧ timesReturned placements r.id = 1) := by
  induction hr with
  | start => exact fun _ hr => absurd hr List.not_mem_nil
  | @submit submitted placements o request hrun ih =>
    intro r hr
    rw [List.map_append, List.nodup_append] at hn
    rcases List.mem_append.mp hr with hold | hnew
    · have hne : r ≠ request := by
        rintro rfl
        exact hn.2.2 _ (List.mem_map.mpr ⟨r, hold, rfl⟩) _ List.mem_cons_self rfl
      simpa [Orchestrator.submit, hne] using ih hn.1 r hold
    · -- Nothing with the number of a new request was returned.
      obtain rfl := List.mem_singleton.mp hnew
      refine Or.inl ⟨List.mem_append_right _ List.mem_cons_self, List.countP_eq_zero.mpr ?_⟩
      intro p hp hcontains
      obtain ⟨a, ha⟩ := Option.isSome_iff_exists.mp hcontains
      obtain ⟨r', hr', hid, _⟩ := hrun.returned hb hn.1 p hp r.id a ha
      exact hn.2.2 _ (List.mem_map.mpr ⟨r', hr', rfl⟩) _ List.mem_cons_self hid
  | @tick submitted placements o o' actions hrun h ih =>
    intro r hr
    have hsub := hrun.pending_sublist
    have hpending : r ∈ o'.pending ↔ r ∈ o.pending
        ∧ (o.attempt net root).placement.contains r.id = false := by
      rw [tick_pending h, List.mem_filter, Bool.not_eq_true']
    rw [timesReturned_snoc, hpending]
    rcases ih hn r hr with ⟨hmem, hzero⟩ | ⟨hmem, hone⟩
    · cases hc : (o.attempt net root).placement.contains r.id with
      | false => exact Or.inl ⟨⟨hmem, rfl⟩, by simp [hzero]⟩
      | true => exact Or.inr ⟨fun hboth => Bool.false_ne_true hboth.2.symm, by simp [hzero]⟩
    · refine Or.inr ⟨fun hboth => hmem hboth.1, ?_⟩
      rw [hone, if_neg]
      intro hc
      obtain ⟨r', hr', hid⟩ := pending_of_contains hb (hn.sublist (hsub.map _)) hc
      obtain rfl : r' = r := List.inj_on_of_nodup_map hn (hsub.subset hr') hr hid
      exact hmem hr'

/-- The pending requests are those that no cycle returned, as they were submitted. -/
theorem Run.pending_eq (hb : Topology.build l = .ok net.topology)
    (hr : Run net root submitted placements o) (hn : (submitted.map Request.id).Nodup) :
    o.pending = submitted.filter fun r => timesReturned placements r.id = 0 := by
  induction hr with
  | start => rfl
  | @submit submitted placements o request hrun ih =>
    have hrun' := (hrun.submit request).timesReturned_eq hb hn request
      (List.mem_append_right _ List.mem_cons_self)
    have hzero : timesReturned placements request.id = 0 := by
      rcases hrun' with ⟨_, hzero⟩ | ⟨hmem, _⟩
      · exact hzero
      · exact absurd (List.mem_append_right _ List.mem_cons_self) hmem
    rw [List.map_append] at hn
    rw [Orchestrator.submit, ih (List.nodup_append.mp hn).1, List.filter_append,
      List.filter_cons_of_pos (by simpa using hzero), List.filter_nil]
  | @tick submitted placements o o' actions hrun h ih =>
    rw [tick_pending h, ih hn, List.filter_filter]
    refine List.filter_congr fun r _ => ?_
    rw [timesReturned_snoc]
    cases (o.attempt net root).placement.contains r.id <;> simp

/--
Every submitted request is pending or was returned by one cycle, and the pending ones stand in the
order of their submission. What was returned is right for its request. The next cycle, which comes
to an end, keeps just the requests that it does not place completely.
-/
theorem pending_or_returned (hb : Topology.build l = .ok net.topology)
    (hr : Run net root submitted placements o) (hn : (submitted.map Request.id).Nodup) :
    (o.pending = submitted.filter fun r => timesReturned placements r.id = 0)
      ∧ (∀ r ∈ submitted, (r ∈ o.pending ∧ timesReturned placements r.id = 0)
          ∨ (r ∉ o.pending ∧ timesReturned placements r.id = 1))
      ∧ (∀ p ∈ placements, ∀ id a, p.get? id = some a →
          ∃ r ∈ submitted, r.id = id ∧ Serves net root r a)
      ∧ ∃ actions o', (o.tick net root).value = some (actions, o')
          ∧ o'.pending.Sublist o.pending
          ∧ ∀ r ∈ o.pending,
              r ∈ o'.pending ↔ ¬ (o.setting net root).PlacesAll o.pending r := by
  refine ⟨hr.pending_eq hb hn, hr.timesReturned_eq hb hn, hr.returned hb hn, ?_⟩
  obtain ⟨actions, o', h⟩ := exists_tick net root o
  refine ⟨actions, o', h, ?_, fun r hmem => ?_⟩
  · rw [tick_pending h]
    exact List.filter_sublist
  · have hpending := hn.sublist (hr.pending_sublist.map _)
    rw [← PlacementSetting.run_contains_iff (s := o.setting net root) (Layout.forest_of_build hb)
      hpending hmem, tick_pending h, List.mem_filter, ← attempt_eq]
    simp [hmem]

/-- Four requests: one is of an unknown application, and one from a device that is no leaf. -/
def lateRequests : List Request :=
  [⟨1, "b", 2, .empty⟩, ⟨2, "missing", 2, .empty⟩, ⟨3, "a", 2, .empty⟩, ⟨4, "b", 1, .empty⟩]

/-- The first cycle returns two of these requests, and the other two stay pending. -/
theorem pending_or_returned_late : ∃ p o, Run (twoTierNetwork sharers) 1 lateRequests [p] o
    ∧ o.pending.map Request.id = [2, 4]
    ∧ ∃ a, p.get? 3 = some a ∧ ∃ r ∈ lateRequests, r.id = 3
      ∧ Serves (twoTierNetwork sharers) 1 r a := by
  obtain ⟨_, o, h⟩ := exists_tick (twoTierNetwork sharers) 1
    (lateRequests.foldl submit (.start (twoTierNetwork sharers) 1))
  have hr := (Run.start.submitAll lateRequests).tick h
  obtain ⟨hpending, _, hreturned, _⟩ := pending_or_returned build_twoTier hr (by decide +kernel)
  refine ⟨_, o, hr, ?_, ?_⟩
  · rw [hpending]
    decide +kernel
  · obtain ⟨a, ha⟩ := Option.isSome_iff_exists.mp (by decide +kernel :
      (((lateRequests.foldl submit (.start (twoTierNetwork sharers) 1)).attempt
        (twoTierNetwork sharers) 1).placement.get? 3).isSome = true)
    exact ⟨a, ha, hreturned _ List.mem_cons_self 3 a ha⟩

end Orchestrator

end FogNet
