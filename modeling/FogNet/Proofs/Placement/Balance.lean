import FogNet.Proofs.Placement.Demands
import FogNet.Proofs.Topology.LeafPaths

/-!
# The load is the demand of the slots

A ledger counts the load of a device apart from its slots, and every operation changes both. They
stay in step when applications agree, so that what is taken off a device is rated as it was when it
came there, and when all that the batch needs fits a word, so that no sum loses a carry.

## Main statements

* `Balanced.lift`, `Balanced.shift` — a shift keeps load and slots in step and overloads nothing
* `Balanced.rollback` — so does taking a request back
-/

namespace FogNet

/-- What moves along is demanded as it was before. -/
theorem Moving.cost_collect (apps : Applications) (app : Application) (l : Ledger) (d : DeviceId)
    (names : List Name) (m : Moving) :
    apps.cost ((m.collect app l d names).1.slots ++ (m.collect app l d names).2.slots)
      = apps.cost (l.slots ++ m.slots) := by
  obtain ⟨taken, hgrows, hslots⟩ := m.grows_collect app l d names
  have hl : apps.cost _ = apps.cost _ := Applications.cost_perm hgrows.slots
  rw [Applications.cost_append] at hl
  rw [hslots, Applications.cost_append, Applications.cost_append, Applications.cost_append, hl]
  omega

/-! ## Balanced ledgers -/

namespace PlacementSetting

variable {s : PlacementSetting} {requests : List Request}

/--
A slot has its place on a device: it is for a microservice that one of the requests needs, and the
device is on the way from where that request comes from up to the root.
-/
def Belongs (s : PlacementSetting) (requests : List Request) (d : DeviceId) (x : Slot) : Prop :=
  ∃ r ∈ requests, r.id = x.request ∧ s.layout.OnWay s.root r.gateway d
    ∧ ∃ app, s.applications.get? r.app = some app
      ∧ x.microservice ∈ app.outstanding r.placed.keys

theorem Belongs.declares {d : DeviceId} {x : Slot} (h : s.Belongs requests d x) :
    s.applications.Declares x.microservice := by
  obtain ⟨_, _, _, _, app, happ, hn⟩ := h
  exact ⟨app, Applications.mem_values happ, (Application.mem_outstanding.mp hn).1⟩

theorem Belongs.up {d p : DeviceId} {x : Slot} (h : s.Belongs requests d x)
    (hs : s.layout.StepUp s.root d p) : s.Belongs requests p x := by
  obtain ⟨r, hr, hid, hw, happ⟩ := h
  exact ⟨r, hr, hid, hw.tail hs, happ⟩

/-- Applications agree, and all that the requests of a batch need fits a word. -/
structure Accountable (s : PlacementSetting) (requests : List Request) : Prop where
  agree : s.applications.Agree
  within : s.applications.WithinWord requests

/-- Then no sum over slots that have their place is too large for a word. -/
theorem Accountable.cost_lt (h : s.Accountable requests) {slots : List Slot}
    (hu : (slots.map Slot.purpose).Nodup) (hs : ∀ x ∈ slots, ∃ d, s.Belongs requests d x) :
    s.applications.cost slots < UInt64.size := by
  refine Nat.lt_of_le_of_lt (h.agree.alike.cost_le_need hu fun x hx => ?_) h.within
  obtain ⟨_, r, hr, hid, _, happ⟩ := hs x hx
  exact ⟨r, hr, hid, happ⟩

/--
The load of every device fits, and every slot has its place. If the batch is accountable, the load
is the demand of the slots.
-/
structure Balanced (s : PlacementSetting) (requests : List Request) (l : Ledger) : Prop where
  load : s.Accountable requests → ∀ d, l.load d = s.applications.cost (l.holding d).slots
  fits : ∀ d, l.load d ≤ s.free.freeCpu d
  belongs : ∀ d, ∀ x ∈ (l.holding d).slots, s.Belongs requests d x

/-- What is on its way up from a device: it comes from there, and its load is its demand. -/
structure Carried (s : PlacementSetting) (requests : List Request) (app : Application)
    (d : DeviceId) (m : Moving) : Prop where
  load : s.Accountable requests → m.load = s.applications.cost m.slots
  belongs : ∀ x ∈ m.slots, s.Belongs requests d x
  knows : ∀ n ∈ m.names, app.Knows n

theorem Balanced.exists_belongs {l : Ledger} {x : Slot} (h : s.Balanced requests l)
    (hx : x ∈ l.slots) : ∃ d, s.Belongs requests d x :=
  (Ledger.mem_slots.mp hx).imp fun d => h.belongs d x

theorem balanced_start : s.Balanced requests (.start s.domain) := by
  constructor
  · intro _ d
    rw [Ledger.load, Ledger.holding_start]
    rfl
  · intro d
    rw [Ledger.load, Ledger.holding_start]
    exact Nat.zero_le _
  · intro d x hx
    rw [Ledger.holding_start] at hx
    exact absurd hx List.not_mem_nil

namespace Balanced

variable {l l' : Ledger} {d : DeviceId} {app : Application}

/-- A ledger stays balanced when one holding changes to a balanced one. -/
theorem modify (h : s.Balanced requests l) {f : Holding → Holding}
    (hload : s.Accountable requests →
      (f (l.holding d)).load = s.applications.cost (f (l.holding d)).slots)
    (hfits : (f (l.holding d)).load ≤ s.free.freeCpu d)
    (hbelongs : ∀ x ∈ (f (l.holding d)).slots, s.Belongs requests d x) :
    s.Balanced requests (l.modify d f) := by
  cases hc : l.contains d with
  | false =>
    rw [Ledger.modify_of_not_contains hc]
    exact h
  | true =>
    have hself := Ledger.holding_modify_self hc f
    constructor
    · intro ha e
      rw [Ledger.load]
      by_cases he : e = d
      · rw [he, hself, hload ha]
      · rw [Ledger.holding_modify_ne he]
        exact h.load ha e
    · intro e
      rw [Ledger.load]
      by_cases he : e = d
      · rw [he, hself]
        exact hfits
      · rw [Ledger.holding_modify_ne he]
        exact h.fits e
    · intro e x hx
      by_cases he : e = d
      · rw [he, hself] at hx
        exact he ▸ hbelongs x hx
      · rw [Ledger.holding_modify_ne he] at hx
        exact h.belongs e x hx

/-- And when slots come to a device that has room for them. -/
theorem gain (h : s.Balanced requests l) {slots : List Slot} {load : Nat}
    (hload : s.Accountable requests → load = s.applications.cost slots)
    (hrange : s.Accountable requests → s.applications.cost (l.slots ++ slots) < UInt64.size)
    (hfits : wrap (l.load d + load) ≤ s.free.freeCpu d)
    (hbelongs : ∀ x ∈ slots, s.Belongs requests d x) :
    s.Balanced requests (l.modify d fun v =>
      { load := wrap (v.load + load), slots := v.slots ++ slots }) := by
  refine h.modify ?_ hfits ?_
  · intro ha
    have hsum : l.load d + load = s.applications.cost ((l.holding d).slots ++ slots) := by
      rw [Applications.cost_append, h.load ha d, hload ha]
    have hlt := Applications.cost_lt_of_sublist
      ((l.slots_sublist d).append (List.Sublist.refl slots)) (hrange ha)
    exact (congrArg wrap hsum).trans (wrap_of_lt hlt)
  · intro x hx
    rcases List.mem_append.mp hx with hx | hx
    · exact h.belongs d x hx
    · exact hbelongs x hx

theorem add (h : s.Balanced requests l) (hc : l.contains d = true) {slot : Slot} {mips : Nat}
    (hmips : s.Accountable requests → mips = s.applications.mipsOf slot.microservice)
    (hrange : s.Accountable requests →
      s.applications.cost (l.slots ++ [slot]) < UInt64.size)
    (hfits : wrap (l.load d + mips) ≤ s.free.freeCpu d) (hslot : s.Belongs requests d slot) :
    s.Balanced requests (l.add d slot mips) := by
  rw [Ledger.add_eq_modify hc]
  exact h.gain hmips hrange hfits fun x hx => List.mem_singleton.mp hx ▸ hslot

theorem settle (h : s.Balanced requests l) {m : Moving} (hm : s.Carried requests app d m)
    (hrange : s.Accountable requests → s.applications.cost (l.slots ++ m.slots) < UInt64.size)
    (hfits : wrap (l.load d + m.load) ≤ s.free.freeCpu d) :
    s.Balanced requests (m.settle l d) :=
  h.gain hm.load hrange hfits hm.belongs

/-- What is left on a device that something was taken off is balanced, and so is what was taken. -/
theorem collect (h : s.Balanced requests l)
    (happ : app ∈ s.applications.values) {m : Moving} (hm : s.Carried requests app d m)
    (hrange : s.Accountable requests → s.applications.cost (l.slots ++ m.slots) < UInt64.size)
    {names : List Name} (hnames : ∀ n ∈ names, app.Knows n) :
    s.Balanced requests (m.collect app l d names).1
      ∧ s.Carried requests app d (m.collect app l d names).2 := by
  have hgone : ∀ x ∈ (l.holding d).slots,
      x.microservice ∈ (names.filter fun n => !m.names.contains n) →
        app.Knows x.microservice ∧ s.applications.Declares x.microservice :=
    fun x hx hn => ⟨hnames _ (List.mem_filter.mp hn).1, (h.belongs d x hx).declares⟩
  constructor
  · refine h.modify ?_ ?_ fun x hx => h.belongs d x (Holding.mem_without.mp hx).1
    · intro ha
      have hlt := Applications.cost_lt_of_sublist
        ((l.slots_sublist d).trans (List.sublist_append_left l.slots m.slots)) (hrange ha)
      exact ha.agree.load_without happ (h.load ha d) hlt hgone
    · exact Nat.le_trans (Holding.load_without_le app _ _) (h.fits d)
  · constructor
    · intro ha
      have hdemand := ha.agree.demand_eq happ fun x hx =>
        hgone x (Holding.mem_taken.mp hx).1 (Holding.mem_taken.mp hx).2
      have hsub :
          ((l.holding d).taken (names.filter fun n => !m.names.contains n)).Sublist l.slots :=
        List.filter_sublist.trans (l.slots_sublist d)
      rw [Moving.collect]
      simp only
      rw [hdemand, wrap_add_wrap, hm.load ha, ← Applications.cost_append, wrap_of_lt]
      rw [Applications.cost_perm List.perm_append_comm]
      exact Applications.cost_lt_of_sublist (hsub.append (List.Sublist.refl _)) (hrange ha)
    · intro x hx
      rcases List.mem_append.mp hx with hx | hx
      · exact hm.belongs x hx
      · exact h.belongs d x (Holding.mem_taken.mp hx).1
    · exact hnames

end Balanced

namespace Carried

variable {app : Application} {d p : DeviceId} {m : Moving}

theorem up (h : s.Carried requests app d m) (hs : s.layout.StepUp s.root d p) :
    s.Carried requests app p m :=
  ⟨h.load, fun x hx => (h.belongs x hx).up hs, h.knows⟩

/-- A new slot of the application that moves all this joins in. -/
theorem join (h : s.Carried requests app d m) (happ : app ∈ s.applications.values) {slot : Slot}
    (hname : slot.microservice ∈ app.names) (hslot : s.Belongs requests d slot)
    (hrange : s.Accountable requests → s.applications.cost (m.slots ++ [slot]) < UInt64.size) :
    s.Carried requests app d { m with
      slots := m.slots ++ [slot]
      load := wrap (m.load + app.mipsOf slot.microservice) } := by
  refine ⟨?_, ?_, h.knows⟩
  · intro ha
    have hrate : app.mipsOf slot.microservice = s.applications.cost [slot] :=
      ha.agree.mipsOf_eq happ (Or.inl hname) hslot.declares
    rw [h.load ha, hrate, ← Applications.cost_append, wrap_of_lt (hrange ha)]
  · intro x hx
    rcases List.mem_append.mp hx with hx | hx
    · exact h.belongs x hx
    · exact List.mem_singleton.mp hx ▸ hslot

end Carried

namespace Balanced

variable {l l' : Ledger} {d : DeviceId} {app : Application}

/-- What is lifted finds a device that has room for it. -/
theorem lift (happ : app ∈ s.applications.values) :
    ∀ {steps : Nat} {current : DeviceId} {l l' : Ledger} {m : Moving},
      s.Balanced requests l → s.Carried requests app current m →
        (s.Accountable requests → s.applications.cost (l.slots ++ m.slots) < UInt64.size) →
        s.lift app steps current l m = some l' → s.Balanced requests l'
  | 0, _, _, _, _, _, _, _, h => by simp [PlacementSetting.lift] at h
  | steps + 1, current, l, l', m, hb, hm, hrange, h => by
    obtain ⟨parent, hroot, hp, _, ⟨hfits, rfl⟩ | ⟨l₁, m₁, hcollect, hlift⟩⟩ := lift_some_cases h
    · exact hb.settle (hm.up ⟨hroot, hp⟩) hrange hfits
    · have hm := hm.up ⟨hroot, hp⟩
      have hknows : ∀ n ∈ app.closeUp (l.hosts parent) m.names, app.Knows n :=
        Application.knows_of_mem_closeUp hm.knows
      have hboth := hb.collect happ hm hrange hknows
      have hsum := m.cost_collect s.applications app l parent
        (app.closeUp (l.hosts parent) m.names)
      rw [hcollect] at hboth hsum
      exact lift happ hboth.1 hboth.2 (hsum ▸ hrange) hlift

/-- A shift keeps load and slots in step and overloads nothing. -/
theorem shift (hb : s.Balanced requests l) (happ : app ∈ s.applications.values) {slot : Slot}
    (hslot : s.Belongs requests d slot) (hname : slot.microservice ∈ app.names)
    (hrange : s.Accountable requests →
      s.applications.cost (l.slots ++ [slot]) < UInt64.size)
    (h : s.shift app l slot d = some l') :
    s.Balanced requests l' := by
  obtain ⟨l₁, m, hcollect, hlift⟩ := shift_some_cases h
  have hempty : s.Carried requests app d ⟨[], [], 0⟩ := by
    refine ⟨fun _ => rfl, ?_, ?_⟩ <;> exact fun x hx => absurd hx List.not_mem_nil
  have hknows : ∀ n ∈ app.closeUp (l.hosts d) [slot.microservice], app.Knows n :=
    Application.knows_of_mem_closeUp fun n hn => Or.inl (List.mem_singleton.mp hn ▸ hname)
  have hsum := Moving.cost_collect s.applications app l d
    (app.closeUp (l.hosts d) [slot.microservice]) ⟨[], [], 0⟩
  have hrange₀ : s.Accountable requests → s.applications.cost (l.slots ++ []) < UInt64.size := by
    intro ha
    exact Applications.cost_lt_of_sublist ((List.Sublist.refl _).append (List.nil_sublist _))
      (hrange ha)
  have hboth := hb.collect happ hempty hrange₀ hknows
  rw [hcollect] at hboth hsum
  obtain ⟨hb₁, hm⟩ : s.Balanced requests l₁ ∧ s.Carried requests app d m := hboth
  -- The new slot makes up the demand that all slots have in the end.
  have hall : s.applications.cost (l₁.slots ++ (m.slots ++ [slot]))
      = s.applications.cost (l.slots ++ [slot]) := by
    simp only [Applications.cost_append] at hsum ⊢
    rw [← Nat.add_assoc, hsum]
    rfl
  have hcarried := hm.join happ hname hslot fun ha =>
    Applications.cost_lt_of_sublist (List.sublist_append_right l₁.slots _) (hall ▸ hrange ha)
  exact lift happ hb₁ hcarried (hall ▸ hrange) hlift

/-- Taking a request back keeps load and slots in step. -/
theorem rollback (hb : s.Balanced requests l) (happ : app ∈ s.applications.values)
    {id : RequestId} (hown : ∀ x ∈ l.slots, x.request = id → x.microservice ∈ app.names)
    (hrange : s.Accountable requests → s.applications.cost l.slots < UInt64.size) :
    s.Balanced requests (l.rollback app id) := by
  constructor
  · intro ha d
    have hlt := Applications.cost_lt_of_sublist (l.slots_sublist d) (hrange ha)
    rw [Ledger.load, Ledger.holding_rollback]
    refine ha.agree.load_keep happ (hb.load ha d) hlt _ ?_
    intro x hx hp
    have hid : x.request = id := by simpa using hp
    exact ⟨Or.inl (hown x (Ledger.mem_slots.mpr ⟨d, hx⟩) hid), (hb.belongs d x hx).declares⟩
  · intro d
    rw [Ledger.load, Ledger.holding_rollback]
    exact Nat.le_trans (Nat.sub_le _ _) (hb.fits d)
  · intro d x hx
    rw [Ledger.holding_rollback, Holding.slots_withoutRequest] at hx
    exact hb.belongs d x (List.mem_filter.mp hx).1

end Balanced

end PlacementSetting

end FogNet
