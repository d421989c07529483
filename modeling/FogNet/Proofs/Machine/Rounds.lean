import FogNet.Directory
import Mathlib.Data.List.Count
import Mathlib.Data.List.Rotate

/-!
# Rounds

A device is told of hosts and selects among them, in any order and for any microservices. As long as
no host is added for a microservice, its selections go through its hosts in the order of their
announcement, one after the other and from the last to the first, whatever happens for other
microservices in the meantime. So in a round every host is selected as often as it was announced.

## Main statements

* `hosts_step`, `last_step` — all that a call does
* `run_remembers` — what is remembered is always the place of a host
* `turn_run`, `answers_run` — whose turn it is after some calls, and who was selected
* `rounds_fair` — selections go in rounds, from where earlier ones left off
-/

namespace FogNet

/-- What a device knows of hosts, and whose turn it was last. -/
structure Balancer where
  directory : Directory := {}
  turns : Turns := {}

namespace Balancer

/-! ## Calls -/

/-- A host is announced, or one is selected. -/
inductive Call where
  | add (microservice : Name) (host : DeviceId)
  | select (microservice : Name)
  deriving DecidableEq

/-- The hosts that a call adds for a microservice. -/
def Call.announced (m : Name) : Call → List DeviceId
  | .add other host => if other = m then [host] else []
  | .select _ => []

/-- What is remembered after a call. A selection without hosts changes nothing. -/
def step (b : Balancer) : Call → Balancer
  | .add m host => { b with directory := b.directory.add m host }
  | .select m => { b with turns := ((b.turns.choose b.directory m).map Prod.snd).getD b.turns }

def run (b : Balancer) (calls : List Call) : Balancer := calls.foldl step b

/-- The answers to the selections for a microservice, in order. -/
def answers (m : Name) : Balancer → List Call → List (Option DeviceId)
  | _, [] => []
  | b, c :: calls =>
    (if c = .select m then [(b.turns.choose b.directory m).map Prod.fst] else [])
      ++ answers m (b.step c) calls

def hosts (b : Balancer) (m : Name) : List DeviceId := b.directory.hosts m

/-- The place of the host that was selected last, if any was. -/
def last? (b : Balancer) (m : Name) : Option Nat := b.turns.last.get? m

/-- The place of the host whose turn it is. -/
def turn (b : Balancer) (m : Name) : Nat := Turns.next (b.last? m) (b.hosts m).length

/-- What is remembered for a microservice is the place of one of its hosts. -/
def Remembers (b : Balancer) (m : Name) : Prop := ∀ i, b.last? m = some i → i < (b.hosts m).length

variable {b : Balancer} {m : Name} {c : Call} {calls window : List Call}

/-! ## What a call does -/

theorem choose_eq (b : Balancer) (m : Name) : b.turns.choose b.directory m =
    (b.hosts m)[b.turn m]?.map fun host => (host, ⟨b.turns.last.insert m (b.turn m)⟩) := rfl

theorem turn_lt (h : b.hosts m ≠ []) : b.turn m < (b.hosts m).length :=
  Turns.next_lt _ (List.length_pos_iff.mpr h)

theorem hosts_step (b : Balancer) (c : Call) (m : Name) :
    (b.step c).hosts m = b.hosts m ++ c.announced m := by
  cases c with
  | add other host => exact b.directory.hosts_add other m host
  | select other => exact (List.append_nil _).symm

/-- Only a selection moves on, from the host that it finds. -/
theorem last_step (b : Balancer) (c : Call) (m : Name) : (b.step c).last? m =
    if c = .select m ∧ b.hosts m ≠ [] then some (b.turn m) else b.last? m := by
  cases c with
  | add other host => rw [if_neg (fun h => nomatch h.1)]; rfl
  | select other =>
    rw [step, choose_eq]
    by_cases hnone : b.hosts other = []
    · rw [if_neg fun h => h.2 (Call.select.inj h.1 ▸ hnone), hnone]
      rfl
    · rw [List.getElem?_eq_getElem (turn_lt hnone)]
      by_cases hm : other = m
      · subst hm
        rw [if_pos ⟨rfl, hnone⟩]
        exact (SortedMap.get?_insert ..).trans (if_pos rfl)
      · rw [if_neg fun h => hm (Call.select.inj h.1)]
        exact (SortedMap.get?_insert ..).trans (if_neg (Ne.symm hm))

theorem Remembers.step (h : b.Remembers m) (c : Call) : (b.step c).Remembers m := by
  intro i hi
  rw [last_step] at hi
  rw [hosts_step, List.length_append]
  split at hi
  · next hsel =>
    obtain rfl := Option.some.inj hi
    exact Nat.lt_add_right _ (turn_lt hsel.2)
  · exact Nat.lt_add_right _ (h i hi)

/-- A selection passes the turn on to the host that was announced next, or to the first one. -/
theorem turn_step (hc : c.announced m = []) (hne : b.hosts m ≠ []) : (b.step c).turn m =
    (b.turn m + if c = .select m then 1 else 0) % (b.hosts m).length := by
  have hlt := turn_lt hne
  rw [turn, last_step, hosts_step, hc, List.append_nil]
  by_cases hsel : c = .select m
  · rw [if_pos ⟨hsel, hne⟩, if_pos hsel]
    simp only [Turns.next]
    split
    · rw [show b.turn m + 1 = (b.hosts m).length by omega, Nat.mod_self]
    · rw [Nat.mod_eq_of_lt (by omega)]
  · rw [if_neg fun h => hsel h.1, if_neg hsel, Nat.add_zero, Nat.mod_eq_of_lt hlt]
    rfl

/-! ## Any number of calls -/

theorem run_concat (b : Balancer) (calls : List Call) (c : Call) :
    b.run (calls ++ [c]) = (b.run calls).step c := List.foldl_append

theorem answers_concat (m : Name) (b : Balancer) (calls : List Call) (c : Call) :
    answers m b (calls ++ [c]) = answers m b calls ++
      if c = .select m then [((b.run calls).hosts m)[(b.run calls).turn m]?] else [] := by
  induction calls generalizing b with
  | nil =>
    rw [List.nil_append, answers, answers, answers, List.append_nil, List.nil_append, choose_eq,
      Option.map_map]
    exact congrArg (if c = .select m then [·] else []) (Option.map_id' ..)
  | cons c' calls ih => rw [List.cons_append, answers, ih, answers, List.append_assoc]; rfl

/-- The hosts are those that were announced, in order. -/
theorem hosts_run (b : Balancer) (calls : List Call) (m : Name) :
    (b.run calls).hosts m = b.hosts m ++ calls.flatMap (Call.announced m) := by
  induction calls generalizing b with
  | nil => exact (List.append_nil _).symm
  | cons c calls ih =>
    rw [List.flatMap_cons, ← List.append_assoc, ← hosts_step]
    exact ih (b.step c)

/-- What is remembered is always the place of a host. -/
theorem run_remembers (h : b.Remembers m) (calls : List Call) : (b.run calls).Remembers m := by
  induction calls generalizing b with
  | nil => exact h
  | cons c calls ih => exact ih (h.step c)

/-- Announcements, and selections for others, do not move on. -/
theorem last_run_of_not_mem (h : .select m ∉ calls) : (b.run calls).last? m = b.last? m := by
  induction calls generalizing b with
  | nil => rfl
  | cons c calls ih =>
    obtain ⟨hc, hcalls⟩ := not_or.mp (mt List.mem_cons.mpr h)
    have hlast : (b.step c).last? m = b.last? m :=
      (last_step b c m).trans (if_neg fun hsel => hc hsel.1.symm)
    exact (ih hcalls).trans hlast

/-! ## Calls that add no host -/

section Window

variable (hw : ∀ c ∈ window, c.announced m = [])

include hw

theorem hosts_window : (b.run window).hosts m = b.hosts m := by
  rw [hosts_run, List.flatMap_eq_nil_iff.mpr hw, List.append_nil]

/-- Whose turn it is after some calls. -/
theorem turn_run (hne : b.hosts m ≠ []) : (b.run window).turn m =
    (b.turn m + window.count (.select m)) % (b.hosts m).length := by
  induction window using List.reverseRecOn with
  | nil => exact (Nat.mod_eq_of_lt (turn_lt hne)).symm
  | append_singleton window c ih =>
    obtain ⟨hw, hc⟩ := List.forall_mem_append.mp hw
    have hhosts := hosts_window (b := b) hw
    rw [run_concat, turn_step (hc c List.mem_cons_self) (hhosts ▸ hne), ih hw, hhosts,
      Nat.mod_add_mod, List.count_append, List.count_singleton, Nat.add_assoc]
    simp only [beq_iff_eq]

/-- What is remembered after some calls. -/
theorem last_run (hne : b.hosts m ≠ []) : (b.run window).last? m =
    if window.count (.select m) = 0 then b.last? m
    else some ((b.turn m + (window.count (.select m) - 1)) % (b.hosts m).length) := by
  induction window using List.reverseRecOn with
  | nil => rfl
  | append_singleton window c ih =>
    obtain ⟨hw, hc⟩ := List.forall_mem_append.mp hw
    rw [run_concat, last_step, hosts_window hw, turn_run hw hne, ih hw, List.count_append,
      List.count_singleton]
    by_cases hsel : c = .select m
    · simp [hsel, hne]
    · simp [hsel]

/-- Who was selected by some calls. -/
theorem answers_run : answers m b window = (List.range (window.count (.select m))).map
    fun j => (b.hosts m)[(b.turn m + j) % (b.hosts m).length]? := by
  induction window using List.reverseRecOn with
  | nil => rfl
  | append_singleton window c ih =>
    obtain ⟨hw, hc⟩ := List.forall_mem_append.mp hw
    rw [answers_concat, ih hw, hosts_window hw, List.count_append, List.count_singleton]
    by_cases hsel : c = .select m
    · rw [if_pos hsel, if_pos (beq_iff_eq.mpr hsel), List.range_succ, List.map_append]
      by_cases hne : b.hosts m = []
      · rw [hne]
        rfl
      · rw [turn_run hw hne]
        rfl
    · rw [if_neg hsel, if_neg (by simpa using hsel), List.append_nil, Nat.add_zero]

/-- In a round every place has its turn once. -/
theorem answers_round (hround : window.count (.select m) = (b.hosts m).length) :
    answers m b window = ((b.hosts m).rotate (b.turn m)).map some := by
  rw [answers_run hw, hround]
  refine List.ext_getElem (by simp) fun j hj _ => ?_
  rw [List.length_map, List.length_range] at hj
  have hlt : (b.turn m + j) % (b.hosts m).length < (b.hosts m).length :=
    Nat.mod_lt _ (Nat.zero_lt_of_lt hj)
  rw [List.getElem_map, List.getElem_map, List.getElem_range, List.getElem_rotate, Nat.add_comm j,
    List.getElem?_eq_getElem hlt]

end Window

/-! ## Fairness -/

/--
After any calls from the start, the hosts of a microservice are those that were announced for it, in
order, and what is remembered is the place of one of them. A selection finds none just when there
are none, and only a selection for this microservice moves on. Over further calls that announce no
host for it, selections go through the hosts in a cycle that starts after the place remembered, and
they remember where they leave off; what is announced and selected for others does not matter. In a
round every host is selected as often as it is listed.
-/
theorem rounds_fair (calls : List Call) (m : Name) :
    let b := run {} calls
    let hosts := b.directory.hosts m
    let turn := Turns.next (b.turns.last.get? m) hosts.length
    hosts = calls.flatMap (Call.announced m) ∧
    (∀ i, b.turns.last.get? m = some i → i < hosts.length) ∧
    (b.turns.choose b.directory m = none ↔ hosts = []) ∧
    (hosts ≠ [] → turn < hosts.length) ∧
    (∀ others, .select m ∉ others →
      (b.run others).turns.last.get? m = b.turns.last.get? m) ∧
    ∀ window, (∀ host, .add m host ∉ window) →
      let selections := window.count (.select m)
      (b.run window).directory.hosts m = hosts ∧
      answers m b window =
        (List.range selections).map (fun j => hosts[(turn + j) % hosts.length]?) ∧
      (hosts ≠ [] → (b.run window).turns.last.get? m =
        if selections = 0 then b.turns.last.get? m
        else some ((turn + (selections - 1)) % hosts.length)) ∧
      (selections = hosts.length →
        answers m b window = (hosts.rotate turn).map some ∧
        ∀ host, (answers m b window).count (some host) = hosts.count host) := by
  intro b hosts turn
  refine ⟨?_, ?_, b.turns.choose_eq_none_iff b.directory m, turn_lt (b := b),
    fun _ => last_run_of_not_mem, ?_⟩
  · exact hosts_run {} calls m
  · exact run_remembers (b := {}) (fun i hi => nomatch hi) calls
  · intro window hnone selections
    have hw : ∀ c ∈ window, c.announced m = [] := by
      intro c hc
      cases c with
      | add other host => exact if_neg fun (hm : other = m) => hnone host (hm ▸ hc)
      | select other => rfl
    refine ⟨hosts_window hw, answers_run hw, last_run hw, fun hround => ?_⟩
    have hanswers := answers_round hw hround
    refine ⟨hanswers, fun host => ?_⟩
    rw [hanswers, List.count_map_of_injective _ _ fun _ _ => Option.some.inj]
    exact (List.rotate_perm _ _).count_eq host

/-- A host that is announced in the middle of a round has its turn at the end of it. -/
theorem rounds_fair_growing :
    let calls : List Call := [.add "svc" 1, .add "svc" 1, .select "svc", .add "svc" 2, .add "db" 9]
    let window : List Call := [.select "svc", .add "db" 8, .select "svc", .select "db",
      .select "svc"]
    (∀ host, .add "svc" host ∉ window) ∧
      answers "svc" (run {} calls) window = [some 1, some 2, some 1] := by
  intro calls window
  have hnone : ∀ host, .add "svc" host ∉ window := by simp [window]
  obtain ⟨_, _, _, _, _, hall⟩ := rounds_fair calls "svc"
  obtain ⟨_, _, _, hround⟩ := hall window hnone
  exact ⟨hnone, (hround (by decide +kernel)).1.trans (by decide +kernel)⟩

end Balancer

end FogNet
