import FogNet.Proofs.Placement.Dependants
import FogNet.Proofs.Topology.Ancestors
import Mathlib.Order.Nat

/-!
# What a shift takes along, and how far

A shift goes up from device to device. On each that is too full it takes off what is fed there by
what it has taken so far, and the first one with room for all of it gets everything. What a shift
takes along on its way is told here by the ledger before the shift alone, stop by stop, although the
shift itself empties the devices that it passes. The two agree when no microservice is on two of the
stops: then nothing is met again that was taken already.

## Main statements

* `Application.mem_closeUp_iff` — what moves along is what can be reached over edges going up
* `Haul.takes_iff` — whether a stop has room, told without words
* `Haul.Proper.lift_eq_none`, `Haul.Proper.exists_lift` — a lift passes the stops without room
* `Haul.Proper.shifted_eq_none`, `Haul.Proper.lands_of_shifted` — the lowest stop with room gets
  all, and nothing else changes
-/

namespace FogNet

open Relation

namespace Application

variable {app : Application} {hosted : Name → Bool} {moving : List Name} {n : Name}

/-- An edge going up leads to a microservice that is hosted. -/
def Draws (app : Application) (hosted : Name → Bool) (x y : Name) : Prop :=
  app.FeedsUp x y ∧ hosted y = true

/-- What moves along is what can be reached over edges going up between hosted microservices. -/
theorem mem_closeUp_iff :
    n ∈ app.closeUp hosted moving ↔ ∃ x ∈ moving, ReflTransGen (app.Draws hosted) x n := by
  constructor
  · refine closeUp_induction (P := fun n => ∃ x ∈ moving, ReflTransGen (app.Draws hosted) x n)
      (fun n hn => ⟨n, hn, .refl⟩) ?_ n
    rintro x y hfeeds hy ⟨z, hz, hzx⟩
    exact ⟨z, hz, hzx.tail ⟨hfeeds, hy⟩⟩
  · rintro ⟨x, hx, hway⟩
    induction hway with
    | refl => exact closeUp_subset app hosted moving x hx
    | tail _ hdraws ih => exact mem_closeUp_of_feedsUp hdraws.1 ih hdraws.2

/-- What moves along moved before, or it is hosted. -/
theorem mem_or_hosted_of_mem_closeUp (hn : n ∈ app.closeUp hosted moving) :
    n ∈ moving ∨ hosted n = true := by
  obtain ⟨x, hx, hway⟩ := mem_closeUp_iff.mp hn
  rcases ReflTransGen.cases_tail hway with rfl | ⟨_, _, hdraws⟩
  · exact Or.inl hx
  · exact Or.inr hdraws.2

end Application

namespace PlacementSetting

/-- A new slot for which a device has no room, and the ledger that it is to be shifted in. -/
structure Haul (s : PlacementSetting) where
  app : Application
  ledger : Ledger
  slot : Slot
  device : DeviceId

namespace Haul

variable {s : PlacementSetting} {h : s.Haul} {j k : Nat} {d e target : DeviceId} {n : Name}
  {l l' : Ledger} {m : Moving}

/-! ## Stops -/

/-- The stops on the way up: the device itself, then its ancestors up to the root. -/
def stop? (h : s.Haul) (k : Nat) : Option DeviceId := s.layout.above? s.root k h.device

/-- Whether a stop hosts a microservice. -/
def hostedAt (h : s.Haul) (k : Nat) (n : Name) : Bool :=
  (h.stop? k).any fun e => h.ledger.hosts e n

theorem hostedAt_of_stop? (he : h.stop? k = some e) : h.hostedAt k = h.ledger.hosts e := by
  funext n
  rw [hostedAt, he, Option.any_some]

/--
What has been taken along when so many stops are passed: the microservice itself, and on each stop
what is hosted there and can be reached from what was taken before over edges going up.
-/
def Gathers (h : s.Haul) : Nat → Name → Prop
  | 0, n => n = h.slot.microservice
  | k + 1, n => ∃ x, h.Gathers k x ∧ ReflTransGen (h.app.Draws (h.hostedAt k)) x n

/-- The same as a list. -/
def names (h : s.Haul) : Nat → List Name
  | 0 => [h.slot.microservice]
  | k + 1 => h.app.closeUp (h.hostedAt k) (h.names k)

theorem mem_names_iff : n ∈ h.names k ↔ h.Gathers k n := by
  induction k generalizing n with
  | zero => exact List.mem_singleton
  | succ k ih => simp only [names, Gathers, Application.mem_closeUp_iff, ih]

instance (h : s.Haul) (k : Nat) (n : Name) : Decidable (h.Gathers k n) :=
  decidable_of_iff (n ∈ h.names k) mem_names_iff

/-- What is taken off a stop: all slots there for what has been taken along by then. -/
def slotsAt (h : s.Haul) (k : Nat) : List Slot :=
  (h.stop? k).elim [] fun e =>
    (h.ledger.holding e).slots.filter fun x => h.Gathers (k + 1) x.microservice

/-- All slots that are taken along when so many stops are passed. -/
def slots (h : s.Haul) (k : Nat) : List Slot := (List.range k).flatMap h.slotsAt

/-- The demand of all these slots, with that of the new one, as a word keeps it. -/
def load (h : s.Haul) (k : Nat) : Nat :=
  wrap (Holding.demand h.app (h.slots k) + h.app.mipsOf h.slot.microservice)

/-- A stop further up has room for all that would come to it, by what a word keeps of the sum. -/
def Takes (h : s.Haul) (k : Nat) (target : DeviceId) : Prop :=
  0 < k ∧ h.stop? k = some target
    ∧ wrap (h.ledger.load target + h.load k) ≤ s.free.freeCpu target

/-- The lowest stop that has room for all that would come to it. -/
def TakesFirst (h : s.Haul) (k : Nat) (target : DeviceId) : Prop :=
  h.Takes k target ∧ ∀ j < k, ∀ e, ¬ h.Takes j e

theorem TakesFirst.unique (ht : h.TakesFirst k target) (he : h.TakesFirst j e) :
    k = j ∧ target = e := by
  have hkj : k = j := by
    rcases Nat.lt_trichotomy k j with hlt | heq | hlt
    · exact absurd ht.1 (he.2 k hlt target)
    · exact heq
    · exact absurd he.1 (ht.2 j hlt e)
  subst hkj
  exact ⟨rfl, Option.some.inj (ht.1.2.1.symm.trans he.1.2.1)⟩

theorem exists_takesFirst (ht : h.Takes k target) : ∃ j e, h.TakesFirst j e := by
  classical
  have hex : ∃ k e, h.Takes k e := ⟨k, target, ht⟩
  obtain ⟨e, he⟩ := Nat.find_spec hex
  exact ⟨Nat.find hex, e, he, fun j hj e' he' => Nat.find_min hex hj ⟨e', he'⟩⟩

/-- The ledger after the shift, if it succeeds. -/
def shifted (h : s.Haul) : Option Ledger := s.shift h.app h.ledger h.slot h.device

/--
A ledger in which everything has come to a stop: it has what it had, what was taken along and the
new slot. The stops below it have kept the rest, and all other devices have what they had.
-/
structure Lands (h : s.Haul) (k : Nat) (target : DeviceId) (l' : Ledger) : Prop where
  landed : (l'.holding target).slots.Perm
    ((h.ledger.holding target).slots ++ (h.slots k ++ [h.slot]))
  load : l'.load target = wrap (h.ledger.load target + h.load k)
  left : ∀ j < k, ∀ e, h.stop? j = some e → (l'.holding e).slots
    = (h.ledger.holding e).slots.filter fun x => ¬ h.Gathers (j + 1) x.microservice
  elsewhere : ∀ e, (∀ j ≤ k, h.stop? j ≠ some e) → l'.holding e = h.ledger.holding e
  all : l'.slots.Perm (h.ledger.slots ++ [h.slot])

/-! ## On the way -/

/-- The ledger when so many stops are passed. -/
def emptied (h : s.Haul) : Nat → Ledger
  | 0 => h.ledger
  | k + 1 => (h.stop? k).elim (h.emptied k) fun e =>
      (h.emptied k).modify e (Holding.without h.app (h.names (k + 1)))

/-- A lift that has passed so many stops has what was taken along there, and the new slot. -/
structure Carries (h : s.Haul) (k : Nat) (l : Ledger) (m : Moving) : Prop where
  ledger : l = h.emptied k
  names : m.names = h.names k
  slots : m.slots.Perm (h.slots k ++ [h.slot])
  load : m.load = h.load k

theorem stop?_zero (h : s.Haul) : h.stop? 0 = some h.device := rfl

theorem stop?_succ :
    h.stop? (k + 1) = some e ↔ ∃ c, h.stop? k = some c ∧ s.layout.StepUp s.root c e :=
  Layout.above?_succ

theorem slots_succ (h : s.Haul) (k : Nat) : h.slots (k + 1) = h.slots k ++ h.slotsAt k := by
  rw [slots, List.range_succ, List.flatMap_append, List.flatMap_singleton, slots]

theorem slotsAt_of_stop? (he : h.stop? k = some e) : h.slotsAt k
    = (h.ledger.holding e).taken (h.names (k + 1)) := by
  rw [slotsAt, he, Option.elim_some, Holding.taken]
  refine List.filter_congr fun x _ => ?_
  simp [← mem_names_iff]

theorem emptied_succ (he : h.stop? k = some e) : h.emptied (k + 1)
    = (h.emptied k).modify e (Holding.without h.app (h.names (k + 1))) := by
  rw [emptied, he, Option.elim_some]

theorem contains_emptied (h : s.Haul) (k : Nat) (e : DeviceId) :
    (h.emptied k).contains e = h.ledger.contains e := by
  induction k with
  | zero => rfl
  | succ k ih =>
    rw [emptied]
    cases h.stop? k with
    | none => exact ih
    | some c => exact (Ledger.contains_modify _ e).trans ih

/-- A device that was not passed has what it had. -/
theorem holding_emptied_of_ne (hne : ∀ j < k, h.stop? j ≠ some e) :
    (h.emptied k).holding e = h.ledger.holding e := by
  induction k with
  | zero => rfl
  | succ k ih =>
    have hlast := hne k (Nat.lt_succ_self k)
    rw [← ih fun j hj => hne j (Nat.lt_succ_of_lt hj), emptied]
    cases hstop : h.stop? k with
    | none => rfl
    | some c =>
      have hec : e ≠ c := fun he => hlast (he ▸ hstop)
      exact Ledger.holding_modify_ne hec _

/--
What a ledger must be like to be shifted in: every stop is in it, no microservice is on two of them,
and the device hosts the microservice that is shifted.
-/
structure Proper (h : s.Haul) : Prop where
  forest : s.layout.Forest
  contained : ∀ {k e}, h.stop? k = some e → h.ledger.contains e = true
  single : ∀ {j k d e n}, h.stop? j = some d → h.stop? k = some e → h.ledger.hosts d n = true →
    h.ledger.hosts e n = true → d = e
  hosted : h.ledger.hosts h.device h.slot.microservice = true

namespace Proper

theorem stop?_inj (hp : h.Proper) (hj : h.stop? j = some e) (hk : h.stop? k = some e) : j = k :=
  hp.forest.above?_inj hj hk

/-- A stop that was passed has kept what was not taken. -/
theorem holding_emptied (hp : h.Proper) (hj : h.stop? j = some e) (hjk : j < k) :
    (h.emptied k).holding e = (h.ledger.holding e).without h.app (h.names (j + 1)) := by
  induction k with
  | zero => exact absurd hjk (Nat.not_lt_zero j)
  | succ k ih =>
    rcases Nat.lt_succ_iff_lt_or_eq.mp hjk with hjk | rfl
    · rw [← ih hjk, emptied]
      cases hstop : h.stop? k with
      | none => rfl
      | some c =>
        have hec : e ≠ c := by
          rintro rfl
          exact absurd (hp.stop?_inj hj hstop) (Nat.ne_of_lt hjk)
        exact Ledger.holding_modify_ne hec _
    · have hc : (h.emptied j).contains e = true := (contains_emptied h j e).trans (hp.contained hj)
      rw [emptied_succ hj, Ledger.holding_modify_self hc, holding_emptied_of_ne]
      intro i hi hstop
      exact absurd (hp.stop?_inj hstop hj) (Nat.ne_of_lt hi)

/-- What was taken along is hosted by some stop that was passed. -/
theorem exists_host (hp : h.Proper) (hn : n ∈ h.names (k + 1)) :
    ∃ j ≤ k, ∃ e, h.stop? j = some e ∧ h.ledger.hosts e n = true := by
  induction k with
  | zero =>
    refine ⟨0, Nat.le_refl 0, h.device, rfl, ?_⟩
    rcases Application.mem_or_hosted_of_mem_closeUp hn with hn | hn
    · exact List.mem_singleton.mp hn ▸ hp.hosted
    · rwa [hostedAt_of_stop? h.stop?_zero] at hn
  | succ k ih =>
    rcases Application.mem_or_hosted_of_mem_closeUp hn with hn | hn
    · obtain ⟨j, hj, e, hstop, hhosts⟩ := ih hn
      exact ⟨j, Nat.le_succ_of_le hj, e, hstop, hhosts⟩
    · obtain ⟨e, hstop, hhosts⟩ := (Option.any_eq_true ..).mp hn
      exact ⟨k + 1, Nat.le_refl _, e, hstop, hhosts⟩

/-- The next stop hosts nothing that was taken along already. -/
theorem not_mem_names (hp : h.Proper) (he : h.stop? (k + 1) = some e) {x : Slot}
    (hx : x ∈ (h.ledger.holding e).slots) : x.microservice ∉ h.names (k + 1) := by
  intro hn
  -- Whatever was taken is hosted further down, and not here as well.
  obtain ⟨j, hj, d, hd, hhosts⟩ := hp.exists_host hn
  have hde := hp.single hd he hhosts (Ledger.hosts_iff.mpr ⟨x, hx, rfl⟩)
  exact absurd (hp.stop?_inj (hde ▸ hd) he) (by omega)

/-- A shift begins with what is taken off the device itself. -/
theorem carries_departing (h : s.Haul) :
    h.Carries 1 (departing h.app h.ledger h.slot h.device).1
      (departing h.app h.ledger h.slot h.device).2 := by
  have hnames : (h.names 1).filter (fun n => !([] : List Name).contains n) = h.names 1 :=
    List.filter_eq_self.mpr fun n _ => rfl
  have hone : h.app.closeUp (h.ledger.hosts h.device) [h.slot.microservice] = h.names 1 := by
    rw [← hostedAt_of_stop? h.stop?_zero]
    rfl
  have hslots : h.slots 1 = (h.ledger.holding h.device).taken (h.names 1) := by
    rw [slots_succ, slotsAt_of_stop? h.stop?_zero]
    rfl
  rw [departing, hone]
  simp only [Moving.collect, hnames]
  refine ⟨(emptied_succ h.stop?_zero).symm, rfl, ?_, ?_⟩
  · rw [hslots, List.nil_append]
  · rw [load, hslots, Nat.zero_add, wrap_wrap_add]

/-- On a stop that is too full just that is taken off which is reached for the first time. -/
theorem carries_collect (hp : h.Proper) (hc : h.Carries (k + 1) l m)
    (he : h.stop? (k + 1) = some e) :
    h.Carries (k + 2) (m.collect h.app l e (h.app.closeUp (l.hosts e) m.names)).1
      (m.collect h.app l e (h.app.closeUp (l.hosts e) m.names)).2 := by
  obtain ⟨rfl, hnames, hslots, hload⟩ := hc
  have hholding : (h.emptied (k + 1)).holding e = h.ledger.holding e :=
    holding_emptied_of_ne fun j hj hstop => absurd (hp.stop?_inj hstop he) (Nat.ne_of_lt hj)
  have hclose : h.app.closeUp ((h.emptied (k + 1)).hosts e) m.names = h.names (k + 2) := by
    have hhosts : (h.emptied (k + 1)).hosts e = h.hostedAt (k + 1) := by
      funext n
      rw [hostedAt_of_stop? he, Ledger.hosts, hholding, Ledger.hosts]
    rw [hhosts, hnames]
    rfl
  -- The lift takes off what it has not taken before. Of what is here nothing was taken before.
  have hnew : ∀ x ∈ (h.ledger.holding e).slots,
      ((h.names (k + 2)).filter fun n => !m.names.contains n).contains x.microservice
        = (h.names (k + 2)).contains x.microservice := by
    intro x hx
    have hx' := hp.not_mem_names he hx
    rw [hnames]
    simp [hx']
  have htaken : (h.ledger.holding e).taken ((h.names (k + 2)).filter fun n => !m.names.contains n)
      = h.slotsAt (k + 1) := by
    rw [slotsAt_of_stop? he, Holding.taken, Holding.taken]
    exact List.filter_congr hnew
  rw [hclose]
  simp only [Moving.collect, hholding, htaken]
  refine ⟨?_, rfl, ?_, ?_⟩
  · rw [emptied_succ he]
    refine Ledger.modify_congr ?_
    rw [hholding, Holding.without_filter]
    rintro n _ hold x hx rfl
    exact hp.not_mem_names he hx (hnames ▸ by simpa using hold)
  · rw [slots_succ h (k + 1)]
    refine (hslots.append_right _).trans ?_
    rw [List.append_assoc, List.append_assoc]
    exact List.perm_append_comm.append_left _
  · simp only [load, slots_succ h (k + 1), Holding.demand_append, hload, wrap_wrap_add]
    congr 1
    omega

/-! ## The lift -/

/-- What a lift does next, when it is at a stop. -/
theorem lift_succ (hp : h.Proper) (hc : h.Carries (k + 1) l m) (hd : h.stop? k = some d)
    (he : h.stop? (k + 1) = some e) (steps : Nat) :
    s.lift h.app (steps + 1) d l m
      = if wrap (h.ledger.load e + h.load (k + 1)) ≤ s.free.freeCpu e then some (m.settle l e)
        else s.lift h.app steps e (m.collect h.app l e (h.app.closeUp (l.hosts e) m.names)).1
          (m.collect h.app l e (h.app.closeUp (l.hosts e) m.names)).2 := by
  obtain ⟨c, hc', hs⟩ := stop?_succ.mp he
  obtain rfl := Option.some.inj (hd.symm.trans hc')
  have hcontains : l.contains e = true := by
    rw [hc.ledger, contains_emptied]
    exact hp.contained he
  have hload : l.load e = h.ledger.load e := by
    rw [hc.ledger, Ledger.load, holding_emptied_of_ne, Ledger.load]
    exact fun j hj hstop => absurd (hp.stop?_inj hstop he) (Nat.ne_of_lt hj)
  rw [lift, if_neg hs.1, hs.2]
  simp [hcontains, hload, hc.load]

theorem lift_eq_none_of_last (hd : h.stop? k = some d) (hlast : h.stop? (k + 1) = none)
    (steps : Nat) : s.lift h.app steps d l m = none := by
  cases steps with
  | zero => rfl
  | succ steps =>
    unfold lift
    split
    · rfl
    · next hroot =>
      split
      · rfl
      · next parent hparent =>
        have hnext := stop?_succ.mpr ⟨d, hd, hroot, hparent⟩
        rw [hlast] at hnext
        cases hnext

/-- A lift fails if no stop further up has room. -/
theorem lift_eq_none (hp : h.Proper) (hc : h.Carries (k + 1) l m) (hd : h.stop? k = some d)
    (hnone : ∀ j e, k < j → ¬ h.Takes j e) (steps : Nat) : s.lift h.app steps d l m = none := by
  induction steps generalizing k d l m with
  | zero => rfl
  | succ steps ih =>
    cases he : h.stop? (k + 1) with
    | none => exact lift_eq_none_of_last hd he _
    | some e =>
      have hfull : ¬ wrap (h.ledger.load e + h.load (k + 1)) ≤ s.free.freeCpu e := fun hroom =>
        hnone (k + 1) e (Nat.lt_succ_self k) ⟨Nat.succ_pos k, he, hroom⟩
      rw [hp.lift_succ hc hd he, if_neg hfull]
      exact ih (hp.carries_collect hc he) he fun j e hj => hnone j e (Nat.lt_of_succ_lt hj)

/-- A lift gets to the lowest stop with room, if it may take so many steps. -/
theorem exists_lift (hp : h.Proper) (hc : h.Carries (k + 1) l m) (hd : h.stop? k = some d)
    (ht : h.Takes j target) (hkj : k < j) (hbelow : ∀ i e, k < i → i < j → ¬ h.Takes i e)
    {steps : Nat} (hsteps : j ≤ k + steps) :
    ∃ m', h.Carries j (h.emptied j) m'
      ∧ s.lift h.app steps d l m = some (m'.settle (h.emptied j) target) := by
  induction steps generalizing k d l m with
  | zero => omega
  | succ steps ih =>
    obtain ⟨e, he⟩ := Layout.exists_above?_of_le ht.2.1 hkj
    have he : h.stop? (k + 1) = some e := he
    rw [hp.lift_succ hc hd he]
    -- The lift settles at the lowest stop with room, and collects on every stop below.
    by_cases hj : k + 1 = j
    · subst hj
      obtain rfl := Option.some.inj (he.symm.trans ht.2.1)
      rw [if_pos ht.2.2]
      exact ⟨m, hc.ledger ▸ hc, by rw [hc.ledger]⟩
    · have hfull : ¬ wrap (h.ledger.load e + h.load (k + 1)) ≤ s.free.freeCpu e := fun hroom =>
        hbelow (k + 1) e (Nat.lt_succ_self k) (by omega) ⟨Nat.succ_pos k, he, hroom⟩
      rw [if_neg hfull]
      exact ih (hp.carries_collect hc he) he (by omega)
        (fun i e hi => hbelow i e (Nat.lt_of_succ_lt hi)) (by omega)

/-- What it means that everything is set down on a stop. -/
theorem lands (hp : h.Proper) (ht : h.stop? k = some target) (hc : h.Carries k (h.emptied k) m)
    (hl : h.shifted = some (m.settle (h.emptied k) target)) :
    h.Lands k target (m.settle (h.emptied k) target) := by
  have hcontains : (h.emptied k).contains target = true :=
    (contains_emptied h k target).trans (hp.contained ht)
  have htarget : (h.emptied k).holding target = h.ledger.holding target :=
    holding_emptied_of_ne fun j hj hstop => absurd (hp.stop?_inj hstop ht) (Nat.ne_of_lt hj)
  have hother : ∀ {e}, e ≠ target →
      (m.settle (h.emptied k) target).holding e = (h.emptied k).holding e :=
    fun he => Ledger.holding_modify_ne he _
  constructor
  · rw [Moving.settle, Ledger.holding_modify_self hcontains, htarget]
    exact hc.slots.append_left _
  · rw [Moving.settle, Ledger.load, Ledger.holding_modify_self hcontains, htarget, hc.load]
    rfl
  · intro j hj e he
    have hne : e ≠ target := by
      rintro rfl
      exact absurd (hp.stop?_inj he ht) (Nat.ne_of_lt hj)
    rw [hother hne, hp.holding_emptied he hj, Holding.slots_without]
    exact List.filter_congr fun x _ => by simp [← mem_names_iff]
  · intro e he
    have hne : e ≠ target := fun heq => he k (Nat.le_refl k) (heq ▸ ht)
    rw [hother hne]
    exact holding_emptied_of_ne fun j hj => he j (Nat.le_of_lt hj)
  · exact (grows_shift hl).slots

/-! ## The shift -/

theorem shifted_eq (h : s.Haul) : h.shifted
    = s.lift h.app s.domain.length h.device (departing h.app h.ledger h.slot h.device).1
        (departing h.app h.ledger h.slot h.device).2 := rfl

/-- A shift fails if no stop has room. -/
theorem shifted_eq_none (hp : h.Proper) (hnone : ∀ k e, ¬ h.Takes k e) : h.shifted = none := by
  rw [shifted_eq]
  exact hp.lift_eq_none (carries_departing h) h.stop?_zero (fun j e _ => hnone j e) _

/-- The lowest stop with room gets everything. -/
theorem exists_shifted (hp : h.Proper) (ht : h.TakesFirst k target) (hk : k ≤ s.domain.length) :
    ∃ l', h.shifted = some l' ∧ h.Lands k target l' := by
  obtain ⟨m, hc, hl⟩ := hp.exists_lift (carries_departing h) h.stop?_zero ht.1 ht.1.1
    (fun i e _ hik => ht.2 i hik e) (by omega : k ≤ 0 + s.domain.length)
  rw [← shifted_eq] at hl
  exact ⟨_, hl, hp.lands ht.1.2.1 hc hl⟩

/-- A shift that succeeds puts everything on the lowest stop with room. -/
theorem lands_of_shifted (hp : h.Proper)
    (hbound : ∀ {k e}, h.stop? k = some e → k ≤ s.domain.length) (hl : h.shifted = some l') :
    ∃ k target, h.TakesFirst k target ∧ h.Lands k target l' := by
  by_cases hsome : ∃ k e, h.Takes k e
  · obtain ⟨_, _, ht⟩ := hsome
    obtain ⟨k, target, hfirst⟩ := exists_takesFirst ht
    obtain ⟨l₁, hl₁, hlands⟩ := hp.exists_shifted hfirst (hbound hfirst.1.2.1)
    exact ⟨k, target, hfirst, Option.some.inj (hl₁.symm.trans hl) ▸ hlands⟩
  · rw [hp.shifted_eq_none fun k e ht => hsome ⟨k, e, ht⟩] at hl
    cases hl

end Proper

end Haul

end PlacementSetting

end FogNet
