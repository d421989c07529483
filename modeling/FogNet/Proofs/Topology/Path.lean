import FogNet.Proofs.Topology.Distance
import Mathlib.Data.List.Chain
import Mathlib.Data.List.Perm.Subperm
import Mathlib.Logic.Relation

/-!
# Paths of next hops

Hop by hop the distance to a goal never grows, and it drops by the latency of the link. So a path
that next hops form is a shortest one. But over links without latency the distance may stay as it
is, and devices may point at each other: a path is found exactly when no such circle is on the way.

## Main statements

* `follow_ok` — what following next hops answers is a shortest path without repetition
* `exists_idle_cycle` — where the answer is an error, next hops circle over links without latency
* `path_leads_iff` — a path is found exactly when there is no such circle
* `path_leads_of_pos` — a path is always found when every link has a latency
-/

namespace FogNet

open Relation

/-- The total latency of the links along a list of devices, if each is linked to the next. -/
def Layout.latencyAlong (l : Layout) : List DeviceId → Option Duration
  | [] => none
  | [_] => some 0
  | a :: b :: rest =>
    (l.link? a b).bind fun k => (l.latencyAlong (b :: rest)).map fun w => k.latency + w

namespace Topology

variable {l : Layout} {t : Topology} {goal : DeviceId}

/-- A shortest path between two devices, which visits none of them twice. -/
structure Leads (t : Topology) (start goal : DeviceId) (p : List DeviceId) : Prop where
  head : p.head? = some start
  last : p.getLast? = some goal
  nodup : p.Nodup
  latency : t.distance? start goal = t.latencyAlong p ∧ (t.latencyAlong p).isSome

/-! ## Hops towards a goal -/

/-- From a device that is not the goal, the device to go to next. -/
def HopsTo (t : Topology) (goal x y : DeviceId) : Prop := x ≠ goal ∧ t.nextHop x goal = .ok y

/-- A hop that takes no time. -/
def IdleHop (t : Topology) (goal x y : DeviceId) : Prop :=
  t.HopsTo goal x y ∧ ∃ k, t.link? x y = some k ∧ k.latency = 0

/-- On the way from a device, next hops circle over links without latency. -/
def CirclesTo (t : Topology) (goal start : DeviceId) : Prop :=
  ∃ c, ReflTransGen (t.HopsTo goal) start c ∧ TransGen (t.IdleHop goal) c c

theorem nextHop_ok_iff {x : DeviceId} :
    (∃ y, t.nextHop x goal = .ok y) ↔ ∃ d, t.distance? x goal = some d := by
  unfold nextHop distance?
  cases t.route? x goal <;> simp

theorem mem_ids_of_distance? {x : DeviceId} {d : Duration} (h : t.distance? x goal = some d) :
    x ∈ t.ids := by
  obtain ⟨r, hr, _⟩ := Option.map_eq_some_iff.mp h
  obtain ⟨i, _, hi, _, _⟩ := route?_some hr
  exact Layout.place?_some hi ▸ Layout.idAt_mem i

theorem hopsTo_rightUnique (t : Topology) (goal : DeviceId) :
    Relator.RightUnique (t.HopsTo goal) := by
  rintro x y z ⟨_, hy⟩ ⟨_, hz⟩
  rw [hy, Except.ok.injEq] at hz
  exact hz

theorem HopsTo.goal_false {y : DeviceId} (h : t.HopsTo goal goal y) : False := h.1 rfl

/-- A hop lowers the distance by the latency of its link. -/
theorem HopsTo.distance (hb : build l = .ok t) {x y : DeviceId} (h : t.HopsTo goal x y) :
    ∃ k d, t.link? x y = some k ∧ t.distance? y goal = some d ∧
      t.distance? x goal = some (k.latency + d) := by
  obtain ⟨hne, hy⟩ := h
  obtain ⟨d, hd⟩ := nextHop_ok_iff.mp ⟨y, hy⟩
  obtain ⟨hop, k, rest, hhop, hk, hrest, hsum⟩ := nextHop_adjacent hb hne hd
  rw [hy, Except.ok.injEq] at hhop
  subst hhop
  exact ⟨k, rest, hk, hrest, hsum ▸ hd⟩

/-- Any number of hops does not raise the distance. -/
theorem distance?_le_of_hops (hb : build l = .ok t) {x y : DeviceId} {dx dy : Duration}
    (h : ReflTransGen (t.HopsTo goal) x y) (hx : t.distance? x goal = some dx)
    (hy : t.distance? y goal = some dy) : dy ≤ dx := by
  induction h using ReflTransGen.head_induction_on generalizing dx with
  | refl =>
    rw [hx, Option.some.injEq] at hy
    exact Nat.le_of_eq hy.symm
  | head hhop _ ih =>
    obtain ⟨k, d, _, hd, hx'⟩ := hhop.distance hb
    rw [hx, Option.some.injEq] at hx'
    rw [hx']
    exact Nat.le_trans (ih hd) (Nat.le_add_left _ _)

theorem idle_of_add_le {w d : Nat} (h : w + d ≤ d) : w = 0 := by omega

/-- Hops that do not lower the distance are all over links without latency. -/
theorem idle_of_hops (hb : build l = .ok t) {x y : DeviceId} {dx dy : Duration}
    (h : TransGen (t.HopsTo goal) x y) (hx : t.distance? x goal = some dx)
    (hy : t.distance? y goal = some dy) (hle : dx ≤ dy) : TransGen (t.IdleHop goal) x y := by
  induction h using TransGen.head_induction_on generalizing dx with
  | single hhop =>
    obtain ⟨k, d, hk, hd, hx'⟩ := hhop.distance hb
    rw [hy, Option.some.injEq] at hd
    rw [hx, Option.some.injEq] at hx'
    subst hd hx'
    have hzero : k.latency = 0 := idle_of_add_le hle
    exact .single ⟨hhop, k, hk, hzero⟩
  | head hhop hrest ih =>
    obtain ⟨k, d, hk, hd, hx'⟩ := hhop.distance hb
    rw [hx, Option.some.injEq] at hx'
    subst hx'
    have hlater : dy ≤ d := distance?_le_of_hops hb hrest.to_reflTransGen hd hy
    have hzero : k.latency = 0 := idle_of_add_le (Nat.le_trans hle hlater)
    have hrestle : d ≤ dy := Nat.le_trans (Nat.le_add_left _ _) hle
    exact .head ⟨hhop, k, hk, hzero⟩ (ih hd hrestle)

/-- From where the goal is reached, next hops do not circle. -/
theorem not_cycle_of_reaches {x : DeviceId} (h : ReflTransGen (t.HopsTo goal) x goal) :
    ¬ TransGen (t.HopsTo goal) x x := by
  induction h using ReflTransGen.head_induction_on with
  | refl =>
    intro hcycle
    obtain ⟨y, hy, _⟩ := TransGen.head'_iff.mp hcycle
    exact hy.goal_false
  | @head x y hhop _ ih =>
    intro hcycle
    obtain ⟨y', hhop', hback⟩ := TransGen.head'_iff.mp hcycle
    obtain rfl := hopsTo_rightUnique t goal hhop hhop'
    exact ih (TransGen.tail' hback hhop)

/-! ## Lists of hops -/

/-- Along a list of hops, every device leads to every later one. -/
theorem pairwise_of_hops {q : List DeviceId} (h : q.IsChain (t.HopsTo goal)) :
    q.Pairwise (TransGen (t.HopsTo goal)) :=
  List.isChain_iff_pairwise.mp (h.imp fun _ _ hhop => TransGen.single hhop)

theorem reaches_of_hops {a x : DeviceId} {q : List DeviceId}
    (h : (a :: q).IsChain (t.HopsTo goal)) (hx : x ∈ a :: q) :
    ReflTransGen (t.HopsTo goal) a x := by
  rcases List.mem_cons.mp hx with rfl | hx
  · exact .refl
  · exact (List.rel_of_pairwise_cons (pairwise_of_hops h) hx).to_reflTransGen

theorem nodup_of_hops {q : List DeviceId} (h : q.IsChain (t.HopsTo goal))
    (hno : ∀ x ∈ q, ¬ TransGen (t.HopsTo goal) x x) : q.Nodup := by
  refine List.Pairwise.imp_of_mem ?_ (pairwise_of_hops h)
  intro x y hx _ hxy
  rintro rfl
  exact hno x hx hxy

/-! ## Following -/

/-- What following next hops answers is a list of hops that ends at the goal. -/
theorem follow_hops {start : DeviceId} : ∀ {steps : Nat} {a : DeviceId} {p : List DeviceId},
    t.follow start goal steps a = .ok p →
      (∃ q, p = a :: q) ∧ p.IsChain (t.HopsTo goal) ∧ p.getLast? = some goal := by
  intro steps
  induction steps with
  | zero =>
    intro a p h
    unfold follow at h
    split at h
    · next ha =>
      rw [← Except.ok.inj h, ha]
      exact ⟨⟨[], rfl⟩, List.isChain_singleton _, rfl⟩
    · split at h <;> simp at h
  | succ steps ih =>
    intro a p h
    unfold follow at h
    split at h
    · next ha =>
      rw [← Except.ok.inj h, ha]
      exact ⟨⟨[], rfl⟩, List.isChain_singleton _, rfl⟩
    · next ha =>
      split at h
      · simp at h
      · next next hnext =>
        simp only at h
        cases hf : t.follow start goal steps next with
        | error e => simp [hf, Except.map] at h
        | ok p' =>
          rw [hf] at h
          rw [← Except.ok.inj h]
          obtain ⟨⟨q, rfl⟩, hchain, hlast⟩ := ih hf
          refine ⟨⟨next :: q, rfl⟩, ?_, ?_⟩
          · exact List.isChain_cons_cons.mpr ⟨⟨ha, hnext⟩, hchain⟩
          · rw [List.getLast?_cons, hlast]
            rfl

/-- Where following next hops fails, as many hops as allowed were made without reaching the goal. -/
theorem follow_error (hb : build l = .ok t) {start : DeviceId} :
    ∀ {steps : Nat} {a : DeviceId} {d : Duration} {e : TopologyError},
      t.distance? a goal = some d → t.follow start goal steps a = .error e →
        ∃ q, q.length = steps ∧ (a :: q).IsChain (t.HopsTo goal) ∧ ∀ x ∈ a :: q, x ∈ t.ids := by
  intro steps
  induction steps with
  | zero =>
    intro a d e hd _
    refine ⟨[], rfl, List.isChain_singleton _, ?_⟩
    intro x hx
    rw [List.mem_singleton.mp hx]
    exact mem_ids_of_distance? hd
  | succ steps ih =>
    intro a d e hd h
    unfold follow at h
    split at h
    · simp at h
    · next ha =>
      obtain ⟨y, hy⟩ := nextHop_ok_iff.mpr ⟨d, hd⟩
      have hhop : t.HopsTo goal a y := ⟨ha, hy⟩
      rw [hy] at h
      simp only at h
      obtain ⟨_, d', _, hd', _⟩ := hhop.distance hb
      cases hf : t.follow start goal steps y with
      | ok p' => simp [hf, Except.map] at h
      | error e' =>
        obtain ⟨q, hlen, hchain, hids⟩ := ih hd' hf
        refine ⟨y :: q, by simp [hlen], List.isChain_cons_cons.mpr ⟨hhop, hchain⟩, ?_⟩
        intro x hx
        rcases List.mem_cons.mp hx with rfl | hx
        · exact mem_ids_of_distance? hd
        · exact hids x hx

/-- The latency along a list of hops to the goal is the distance. -/
theorem latencyAlong_hops (hb : build l = .ok t) : ∀ {q : List DeviceId} {a : DeviceId},
    (a :: q).IsChain (t.HopsTo goal) → (a :: q).getLast? = some goal →
      (∃ d, t.distance? a goal = some d) →
        t.distance? a goal = t.latencyAlong (a :: q) ∧ (t.latencyAlong (a :: q)).isSome
  | [], a, _, hlast, hd => by
    obtain rfl : a = goal := by simpa using hlast
    obtain ⟨d, hd⟩ := hd
    obtain ⟨d', hd', hle⟩ := distance?_le hb (mem_ids_of_distance? hd) (.stay a)
    rw [hd', Nat.le_zero.mp hle]
    exact ⟨rfl, rfl⟩
  | b :: q, a, hchain, hlast, _ => by
    obtain ⟨hhop, hchain⟩ := List.isChain_cons_cons.mp hchain
    obtain ⟨k, d, hk, hd, hsum⟩ := hhop.distance hb
    obtain ⟨heq, _⟩ := latencyAlong_hops hb hchain (by simpa using hlast) ⟨d, hd⟩
    rw [hsum, Layout.latencyAlong, hk, Option.bind_some, ← heq, hd]
    exact ⟨rfl, rfl⟩

theorem follow_ok (hb : build l = .ok t) {start : DeviceId} {steps : Nat} {p : List DeviceId}
    (h : t.follow start goal steps start = .ok p) (hd : ∃ d, t.distance? start goal = some d) :
    t.Leads start goal p := by
  obtain ⟨⟨q, rfl⟩, hchain, hlast⟩ := follow_hops h
  refine ⟨rfl, hlast, nodup_of_hops hchain ?_, latencyAlong_hops hb hchain hlast hd⟩
  intro x hx
  -- Every device of the list leads to the last one, which is the goal.
  obtain ⟨init, hinit⟩ := List.getLast?_eq_some_iff.mp hlast
  rw [hinit] at hchain hx
  refine not_cycle_of_reaches ?_
  rcases List.mem_append.mp hx with hx | hx
  · exact ((List.pairwise_append.mp (pairwise_of_hops hchain)).2.2 x hx goal
      (List.mem_singleton_self goal)).to_reflTransGen
  · rw [List.mem_singleton.mp hx]

/-- Without an answer, next hops circle over links without latency. -/
theorem exists_idle_cycle (hb : build l = .ok t) {start : DeviceId} {d : Duration}
    {e : TopologyError} (hd : t.distance? start goal = some d)
    (h : t.path start goal = .error e) : t.CirclesTo goal start := by
  obtain ⟨q, hlen, hchain, hids⟩ := follow_error hb hd h
  -- There are more hops than devices, so some device is met again.
  have hrepeat : ¬ (start :: q).Nodup := by
    intro hn
    have hle := (List.subperm_of_subset hn hids).length_le
    rw [List.length_cons, hlen, Layout.ids, List.length_map] at hle
    exact Nat.not_succ_le_self _ hle
  obtain ⟨c, hc, hcycle⟩ : ∃ c ∈ start :: q, TransGen (t.HopsTo goal) c c := by
    by_contra hno
    exact hrepeat (nodup_of_hops hchain fun x hx hxx => hno ⟨x, hx, hxx⟩)
  obtain ⟨y, hhop, _⟩ := TransGen.head'_iff.mp hcycle
  obtain ⟨k, d', _, _, hdc⟩ := hhop.distance hb
  exact ⟨c, reaches_of_hops hchain hc, idle_of_hops hb hcycle hdc hdc (Nat.le_refl _)⟩

/-- Where next hops circle, the goal is not reached. -/
theorem not_reaches_of_circles {start : DeviceId} (h : t.CirclesTo goal start) :
    ¬ ReflTransGen (t.HopsTo goal) start goal := by
  intro hreach
  obtain ⟨c, hc, hidle⟩ := h
  have hcycle : TransGen (t.HopsTo goal) c c := hidle.lift id fun _ _ hhop => hhop.1
  rcases ReflTransGen.total_of_right_unique (hopsTo_rightUnique t goal) hc hreach with hg | hg
  · exact not_cycle_of_reaches hg hcycle
  · rcases ReflTransGen.cases_head hg with rfl | ⟨y, hy, _⟩
    · exact not_cycle_of_reaches .refl hcycle
    · exact hy.goal_false

/-- Where every link has a latency, next hops lead to every device that has a route. -/
theorem path_leads_of_pos (hb : build l = .ok t)
    (hpos : ∀ x y k, t.link? x y = some k → 0 < k.latency) {a b : DeviceId}
    (hroute : ∃ next, t.nextHop a b = .ok next) : ∃ p, t.path a b = .ok p ∧ t.Leads a b p := by
  obtain ⟨d, hd⟩ := nextHop_ok_iff.mp hroute
  cases hp : t.path a b with
  | ok p => exact ⟨p, rfl, follow_ok hb hp ⟨d, hd⟩⟩
  | error e =>
    obtain ⟨c, _, hidle⟩ := exists_idle_cycle hb hd hp
    obtain ⟨y, ⟨_, k, hk, hzero⟩, _⟩ := TransGen.head'_iff.mp hidle
    exact absurd (hpos c y k hk) (by rw [hzero]; exact Nat.lt_irrefl 0)

/-- A shortest path is found exactly when next hops do not circle over links without latency. -/
theorem path_leads_iff (hb : build l = .ok t) {a b : DeviceId}
    (hroute : ∃ next, t.nextHop a b = .ok next) :
    (∃ p, t.path a b = .ok p ∧ t.Leads a b p) ↔ ¬ t.CirclesTo b a := by
  have hd := nextHop_ok_iff.mp hroute
  constructor
  · rintro ⟨p, hp, _⟩ hcircle
    obtain ⟨⟨q, rfl⟩, hchain, hlast⟩ := follow_hops hp
    exact not_reaches_of_circles hcircle (reaches_of_hops hchain (List.mem_of_getLast? hlast))
  · intro hno
    cases hp : t.path a b with
    | ok p => exact ⟨p, rfl, follow_ok hb hp hd⟩
    | error e => exact absurd (exists_idle_cycle hb hd.choose_spec hp) hno

theorem path_leads_slowCluster : slowClusterTopology.nextHop 2 3 = .ok 1 ∧
    slowClusterTopology.path 2 3 = .ok [2, 1, 3] ∧ slowClusterTopology.Leads 2 3 [2, 1, 3] ∧
    ¬ slowClusterTopology.CirclesTo 3 2 := by
  have hroute : slowClusterTopology.nextHop 2 3 = .ok 1 := by decide +kernel
  have hpath : slowClusterTopology.path 2 3 = .ok [2, 1, 3] := by decide +kernel
  have hleads : slowClusterTopology.Leads 2 3 [2, 1, 3] :=
    ⟨rfl, rfl, by decide, by decide +kernel, by decide +kernel⟩
  exact ⟨hroute, hpath, hleads,
    (path_leads_iff build_slowCluster ⟨1, hroute⟩).mp ⟨_, hpath, hleads⟩⟩

/-- Four devices below each other, declared from the top, with links that take no time. -/
def zeroChain : Layout :=
  { devices := [
      { id := 0, name := "cloud", role := .cloud, capacity := { cpuMips := 100 } },
      { id := 1, name := "upper", role := .fcn, parent := some 0, capacity := { cpuMips := 10 } },
      { id := 2, name := "lower", role := .fcn, parent := some 1, capacity := { cpuMips := 10 } },
      { id := 3, name := "leaf", role := .client, parent := some 2,
        capacity := { cpuMips := 0 } }] }

/-- The topology of `zeroChain`: its routes are settled after two sweeps. -/
def zeroChainTopology : Topology :=
  { zeroChain with routes := (Relaxation.firstSweep zeroChain.linkLatency).sweep.sweep.table }

theorem build_zeroChain : build zeroChain = .ok zeroChainTopology := by
  refine build_eq_ok (by decide +kernel) ?_ (by decide +kernel) (by decide +kernel)
  rw [Relaxation.routes, Relaxation.settle_of_changed (by decide +kernel),
    Relaxation.settle_of_still (by decide +kernel)]

/-- The two upper devices of the chain point at each other, so no path goes down from them. -/
theorem not_path_leads : ¬ ∀ (l : Layout) (t : Topology) (a b : DeviceId), build l = .ok t →
    (∃ next, t.nextHop a b = .ok next) → ∃ p, t.path a b = .ok p ∧ t.Leads a b p := by
  intro h
  have hdown : zeroChainTopology.nextHop 1 3 = .ok 0 := by decide +kernel
  have hback : zeroChainTopology.nextHop 0 3 = .ok 1 := by decide +kernel
  obtain ⟨p, hp, _⟩ := h zeroChain zeroChainTopology 1 3 build_zeroChain ⟨0, hdown⟩
  have hlost : zeroChainTopology.path 1 3 = .error (.missingRoute 1 3) := by decide +kernel
  rw [hlost] at hp
  simp at hp

end Topology

end FogNet
