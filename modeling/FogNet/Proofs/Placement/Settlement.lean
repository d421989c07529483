import FogNet.Machine.Orchestrator
import FogNet.Placement.Placer
import FogNet.Proofs.Placement.Whereabouts

/-!
# What a batch takes, and how it is settled

Load comes to a device when a slot is noted there and when a shift is set down there, and both look
at what the device has free before they do so. All else that placement does only takes load off. So
no device gets more load than it has free, whatever the requests are: two may have one name,
applications may disagree on what a microservice demands, and sums may be too large for a word.
Settling the batch then takes from each device just its load, and nothing is cut off at zero.

## Main statements

* `Fits.attempt`, `Fits.placeRequest`, `fits_run` — no device is ever given more than it has free
* `Placer.settlement` — what a settled batch leaves of the snapshot and of the books
* `Orchestrator.freeCpu_place` — what a cycle leaves to an orchestrator
-/

namespace FogNet

/-! ## Loads -/

namespace Ledger

variable {l : Ledger} {d : DeviceId}

theorem load_add (slot : Slot) (mips : Nat) (e : DeviceId) :
    (l.add d slot mips).load e = if e = d then wrap (l.load d + mips) else l.load e := by
  rw [load, holding, add, SortedMap.get?_insert]
  split <;> rfl

theorem load_start (domain : List DeviceId) (d : DeviceId) : (start domain).load d = 0 := by
  rw [load, holding_start]

theorem load_rollback_le (app : Application) (id : RequestId) (d : DeviceId) :
    (l.rollback app id).load d ≤ l.load d := by
  rw [load, holding_rollback]
  exact Nat.sub_le _ _

end Ledger

namespace PlacementSetting

variable {s : PlacementSetting} {requests : List Request} {app : Application}
  {path : List DeviceId} {l l' : Ledger} {d : DeviceId} {w : Walk}

/-- No device has more load than the snapshot says it has free. -/
def Fits (s : PlacementSetting) (l : Ledger) : Prop := ∀ d, l.load d ≤ s.free.freeCpu d

theorem fits_start (s : PlacementSetting) : s.Fits (.start s.domain) := by
  intro d
  rw [Ledger.load_start]
  exact Nat.zero_le _

namespace Fits

/-- Only the device whose holding changes needs a look. -/
theorem modify (h : s.Fits l) {f : Holding → Holding}
    (hf : (f (l.holding d)).load ≤ s.free.freeCpu d) : s.Fits (l.modify d f) := by
  cases hc : l.contains d with
  | false =>
    rw [Ledger.modify_of_not_contains hc]
    exact h
  | true =>
    intro e
    rw [Ledger.load]
    by_cases he : e = d
    · rw [he, Ledger.holding_modify_self hc]
      exact hf
    · rw [Ledger.holding_modify_ne he]
      exact h e

theorem add (h : s.Fits l) {mips : Nat} (hroom : wrap (l.load d + mips) ≤ s.free.freeCpu d)
    (slot : Slot) : s.Fits (l.add d slot mips) := by
  intro e
  rw [Ledger.load_add]
  split
  · next he => exact he ▸ hroom
  · exact h e

/-- What is taken off a device leaves it with less load. -/
theorem collect (h : s.Fits l) (app : Application) (d : DeviceId) (names : List Name)
    (m : Moving) : s.Fits (m.collect app l d names).1 :=
  h.modify (Nat.le_trans (Holding.load_without_le app _ _) (h d))

/-- A lift sets its load down only where there is room for it. -/
theorem lift : ∀ {steps : Nat} {current : DeviceId} {l l' : Ledger} {m : Moving}, s.Fits l →
    s.lift app steps current l m = some l' → s.Fits l'
  | 0, _, _, _, _, _, hlift => by simp [PlacementSetting.lift] at hlift
  | steps + 1, current, l, l', m, h, hlift => by
    obtain ⟨parent, _, _, _, ⟨hroom, rfl⟩ | ⟨l₁, m₁, hcollect, hlift⟩⟩ := lift_some_cases hlift
    · exact h.modify hroom
    · have hless := h.collect app parent (app.closeUp (l.hosts parent) m.names) m
      rw [hcollect] at hless
      exact lift hless hlift

theorem shift (h : s.Fits l) {slot : Slot} (hshift : s.shift app l slot d = some l') :
    s.Fits l' := by
  obtain ⟨l₁, m, hcollect, hlift⟩ := shift_some_cases hshift
  have hless := h.collect app d (app.closeUp (l.hosts d) [slot.microservice]) ⟨[], [], 0⟩
  rw [hcollect] at hless
  exact lift hless hlift

theorem attempt (h : s.Fits w.ledger) (app : Application) (path : List DeviceId) (id : RequestId)
    (d : DeviceId) (name : Name) : s.Fits (s.attempt app path id d w name).ledger := by
  rcases s.attempt_cases app path id d w name with ⟨hl, _⟩ | ⟨_, ⟨hroom, hl⟩ | hshift⟩
  · rw [hl]
    exact h
  · rw [hl]
    exact h.add hroom _
  · exact h.shift hshift

theorem walk (h : s.Fits l) (app : Application) (path : List DeviceId) (r : Request)
    (failures : Nat) : s.Fits (s.walk app path r l failures).ledger := by
  refine walk_induction (I := fun _ w => s.Fits w.ledger) h ?_ ?_
  · exact fun _ _ _ h => h
  · exact fun _ d _ _ name _ _ _ h => h.attempt app path r.id d name

theorem rollback (h : s.Fits l) (app : Application) (id : RequestId) :
    s.Fits (l.rollback app id) :=
  fun d => Nat.le_trans (Ledger.load_rollback_le app id d) (h d)

theorem placeRequest {b : Batch} (h : s.Fits b.ledger) (path : List DeviceId) (r : Request) :
    s.Fits (s.placeRequest path b r).ledger := by
  unfold PlacementSetting.placeRequest
  split
  · exact h
  · next app _ =>
    have hwalk := h.walk app path r b.failures
    simp only
    split
    · exact hwalk
    · exact hwalk.rollback app r.id

end Fits

/-- A batch gives no device more load than it has free. -/
theorem fits_run (s : PlacementSetting) (requests : List Request) :
    s.Fits (s.run requests).ledger := by
  rw [run]
  simp only
  rw [foldl_placePath]
  refine foldl_rule (I := fun _ (b : Batch) => s.Fits b.ledger) (fits_start s) ?_
  intro _ v _ _ _ h
  exact h.placeRequest v.1 v.2

theorem fits_strategy_run (strategy : Strategy) (s : PlacementSetting) (requests : List Request) :
    s.Fits (strategy.run s requests).ledger := by
  cases strategy
  exact fits_run s requests

end PlacementSetting

/-! ## Settling -/

/-- What fits is taken in full by a commit. -/
theorem Ledger.freeCpu_commit_add {l : Ledger} {s : Snapshot} {d : DeviceId}
    (h : l.load d ≤ s.freeCpu d) : (l.commit s).freeCpu d + l.load d = s.freeCpu d := by
  rw [freeCpu_commit h]
  exact Nat.sub_add_cancel h

/--
After a batch no device has more load than it had free, whatever the placer did before. When the
batch is settled, each device has its load less of CPU and is left alone otherwise, and the placer
keeps nothing of the batch.
-/
theorem Placer.settlement (p : Placer) (s : PlacementSetting) (requests : List Request) :
    let placed := (p.place s requests).2
    let settled := placed.settle s.free
    (∀ d, placed.load d ≤ s.free.freeCpu d)
      ∧ (∀ d, settled.1.freeCpu d + placed.load d = s.free.freeCpu d)
      ∧ (∀ d, settled.1.get? d
          = (s.free.get? d).map fun r => { r with cpuMips := r.cpuMips - placed.load d })
      ∧ settled.2.isIdle = true ∧ ∀ d, settled.2.load d = 0 := by
  have hfits := PlacementSetting.fits_strategy_run p.strategy s requests
  refine ⟨hfits, fun d => Ledger.freeCpu_commit_add (hfits d), fun d => Ledger.get?_commit _ _ d,
    rfl, ?_⟩
  exact load_of_isIdle rfl

/-- What an orchestrator has left after a cycle is what a placer leaves it when it settles. -/
theorem Orchestrator.resources_place {net : Network} {root : DeviceId} {o o' : Orchestrator}
    {actions : List Action} (h : (o.place net root).value = some (actions, o'))
    (books : Ledger) :
    o'.resources = ((({ strategy := net.policy.strategy, ledger := books } : Placer).place
      (o.setting net root) o.pending).2.settle o.resources).1 := by
  rw [place_value] at h
  obtain ⟨_, rfl⟩ := Prod.mk.inj (Option.some.inj h)
  rfl

/-- A cycle takes from each device of an orchestrator what its batch put there, and no more. -/
theorem Orchestrator.freeCpu_place {net : Network} {root : DeviceId} {o o' : Orchestrator}
    {actions : List Action} (h : (o.place net root).value = some (actions, o')) (d : DeviceId) :
    o'.resources.freeCpu d + (o.attempt net root).ledger.load d = o.resources.freeCpu d := by
  rw [place_value] at h
  obtain ⟨_, rfl⟩ := Prod.mk.inj (Option.some.inj h)
  exact Ledger.freeCpu_commit_add
    (PlacementSetting.fits_strategy_run net.policy.strategy (o.setting net root) o.pending d)

end FogNet
