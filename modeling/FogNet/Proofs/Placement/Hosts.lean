import FogNet.Proofs.Placement.Hauls

/-!
# One host on a path

A walk puts a microservice only where its path has no host yet, or on the device that is the host,
and a shift takes all slots of what it moves with it. So a walk that begins with each microservice
on one device of its path ends like that. Paths are walked depth first: whatever the walks so far
have put on devices of the next path is on the path walked right before. So it holds for every walk,
whatever the requests and the applications are.

## Main statements

* `visits_triplewise` — what two of the walks have in common is on all paths between them
* `Haul.Lands.lone`, `Clear.attempt`, `Clear.walkPast` — along a path it is kept
* `Spread.lone_next`, `Spread.placeRequest` — and from one path to the next
-/

namespace FogNet

namespace Layout

/-- Paths may be repeated in their places. -/
theorem triplewise_repeat {α : Type} (copies : List DeviceId → List α) :
    ∀ {paths : List (List DeviceId)}, paths.Triplewise Between →
      (paths.flatMap fun p => (copies p).map fun _ => p).Triplewise Between
  | [], _ => .nil
  | p :: paths, h => by
    have hself : ∀ cs : List α, (cs.map fun _ => p).Triplewise Between := fun cs => by
      induction cs with
      | nil => exact .nil
      | cons c cs ih =>
        rw [List.map_cons, List.triplewise_cons]
        refine ⟨List.pairwise_of_forall_mem_list fun a ha _ _ d hd _ => ?_, ih⟩
        obtain ⟨_, _, rfl⟩ := List.mem_map.mp ha
        exact hd
    rw [List.triplewise_cons] at h
    have hcopy : ∀ q ∈ (copies p).map fun _ => p, q = p := fun q hq => by
      obtain ⟨_, _, rfl⟩ := List.mem_map.mp hq
      rfl
    rw [List.flatMap_cons, List.triplewise_append]
    refine ⟨hself _, triplewise_repeat copies h.2, ?_, ?_⟩
    · intro q hq
      rw [hcopy q hq, List.pairwise_flatMap]
      refine ⟨fun r _ => ?_, h.1.imp ?_⟩
      · exact List.pairwise_of_forall_mem_list fun a ha b hb d _ hd => by
          obtain ⟨_, _, rfl⟩ := List.mem_map.mp ha
          obtain ⟨_, _, rfl⟩ := List.mem_map.mp hb
          exact hd
      · intro a b hab a' ha b' hb
        obtain ⟨_, _, rfl⟩ := List.mem_map.mp ha
        obtain ⟨_, _, rfl⟩ := List.mem_map.mp hb
        exact hab
    · intro r _
      refine List.pairwise_of_forall_mem_list fun a ha b hb d hd _ => ?_
      rw [hcopy b hb, ← hcopy a ha]
      exact hd

end Layout

namespace Ledger.Lone

variable {path : List DeviceId} {d : DeviceId} {l l' : Ledger}

theorem sub (h : l.Lone path) (hsub : ∀ {d x}, l'.Has d x → l.Has d x) : l'.Lone path :=
  fun _ _ _ _ hx hy => h (hsub hx) (hsub hy)

/-- A new slot on the only device of the path that may host its microservice. -/
theorem add (h : l.Lone path) (hc : l.contains d = true) {slot : Slot} {mips : Nat}
    (hhost : ∀ e ∈ path, ∀ x, l.Has e x → x.microservice = slot.microservice → e = d) :
    (l.add d slot mips).Lone path := by
  intro e e' x y hx hy he he' hsame
  rcases (mem_holding_add hc).mp hx with hold | ⟨rfl, rfl⟩
  · rcases (mem_holding_add hc).mp hy with hold' | ⟨rfl, rfl⟩
    · exact h hold hold' he he' hsame
    · exact hhost e he x hold hsame
  · rcases (mem_holding_add hc).mp hy with hold' | ⟨rfl, rfl⟩
    · exact (hhost e' he' y hold' hsame.symm).symm
    · rfl

end Ledger.Lone

namespace PlacementSetting

variable {s : PlacementSetting} {requests : List Request} {app : Application}
  {path : List DeviceId} {d e : DeviceId} {l l' : Ledger} {w : Walk}

/-- What two of the walks have in common is on all paths between them. -/
theorem visits_triplewise (hf : s.layout.Forest) (requests : List Request) :
    ((s.visits requests).map Prod.fst).Triplewise Layout.Between := by
  have hrepeat := Layout.triplewise_repeat
    (fun p => requests.filter fun r => p.head? == some r.gateway) (hf.leafPaths_triplewise s.root)
  rw [visits, List.map_flatMap]
  simpa only [List.map_map, Function.comp_def] using hrepeat

/-! ## Shifts -/

namespace Haul

variable {h : s.Haul} {k : Nat} {target : DeviceId}

/-- Where a slot has been that has come to a stop. -/
theorem Lands.origin (hl : h.Lands k target l') (hp : h.Proper) (hk : 0 < k) {x : Slot}
    (hx : l'.Has target x) : ∃ c z, h.ledger.Has c z ∧ z.microservice = x.microservice
      ∧ (c = target ∨ ∃ j < k, h.stop? j = some c ∧ h.Gathers (j + 1) x.microservice) := by
  rcases List.mem_append.mp (hl.landed.mem_iff.mp hx) with hx | hx
  · exact ⟨target, x, hx, rfl, Or.inl rfl⟩
  · rcases List.mem_append.mp hx with hx | hx
    · obtain ⟨j, hj, hx⟩ := List.mem_flatMap.mp hx
      rw [slotsAt] at hx
      cases hstop : h.stop? j with
      | none => simp [hstop] at hx
      | some c =>
        rw [hstop, Option.elim_some, List.mem_filter, decide_eq_true_eq] at hx
        exact ⟨c, x, hx.1, rfl, Or.inr ⟨j, List.mem_range.mp hj, hstop, hx.2⟩⟩
    · -- The new slot comes from the device itself, which hosts its microservice.
      obtain rfl := List.mem_singleton.mp hx
      obtain ⟨z, hz, hname⟩ := Ledger.hosts_iff.mp hp.hosted
      exact ⟨h.device, z, hz, hname, Or.inr ⟨0, hk, rfl, _, rfl, .refl⟩⟩

/-- Elsewhere only that is left which was not taken along. -/
theorem Lands.kept (hl : h.Lands k target l') (hp : h.Proper) (ht : h.stop? k = some target)
    {x : Slot} (hx : l'.Has e x) (he : e ≠ target) : h.ledger.Has e x
      ∧ ∀ j < k, h.stop? j = some e → ¬ h.Gathers (j + 1) x.microservice := by
  by_cases hstop : ∃ j < k, h.stop? j = some e
  · obtain ⟨j, hj, hstop⟩ := hstop
    rw [Ledger.Has, hl.left j hj e hstop, List.mem_filter, decide_eq_true_eq] at hx
    exact ⟨hx.1, fun i _ he' => hp.stop?_inj he' hstop ▸ hx.2⟩
  · have hother : ∀ j ≤ k, h.stop? j ≠ some e := by
      intro j hj he'
      rcases Nat.lt_or_eq_of_le hj with hj | rfl
      · exact hstop ⟨j, hj, he'⟩
      · exact he (Option.some.inj (he'.symm.trans ht))
    rw [Ledger.Has, hl.elsewhere e hother] at hx
    exact ⟨hx, fun j hj he' => absurd ⟨j, hj, he'⟩ hstop⟩

/-- What moves is on no other device of the path, before and after. -/
theorem Lands.lone (hl : h.Lands k target l') (hp : h.Proper) (hk : 0 < k)
    (ht : h.stop? k = some target) (hpath : ∀ {j c}, h.stop? j = some c → c ∈ path)
    (hlone : h.ledger.Lone path) : l'.Lone path := by
  -- Of two devices one has got what moved, and the other has kept a slot of the same.
  have hcross : ∀ {d x y}, l'.Has target x → l'.Has d y → d ∈ path →
      x.microservice = y.microservice → d = target := by
    intro d x y hx hy hd hsame
    by_contra hne
    obtain ⟨hy, hleft⟩ := hl.kept hp ht hy hne
    obtain ⟨c, z, hz, hzx, rfl | ⟨j, hj, hstop, hgathered⟩⟩ := hl.origin hp hk hx
    · exact hne (hlone hy hz hd (hpath ht) (hzx.trans hsame).symm)
    · obtain rfl := hlone hy hz hd (hpath hstop) (hzx.trans hsame).symm
      exact hleft j hj hstop (hsame ▸ hgathered)
  intro d e x y hx hy hd he hsame
  by_cases hdt : d = target
  · subst hdt
    exact (hcross hx hy he hsame).symm
  · by_cases het : e = target
    · subst het
      exact hcross hy hx hd hsame.symm
    · exact hlone (hl.kept hp ht hx hdt).1 (hl.kept hp ht hy het).1 hd he hsame

end Haul

/-! ## Attempts -/

/--
A ledger as the walks along a path need it: it has just the devices of the domain, all of the path
are among them, and no microservice is on two of the path.
-/
structure Clear (s : PlacementSetting) (path : List DeviceId) (l : Ledger) : Prop where
  contains : ∀ e, l.contains e = (Ledger.start s.domain).contains e
  listed : path ⊆ s.domain
  lone : l.Lone path

namespace Clear

theorem mem (h : s.Clear path l) (he : e ∈ path) : l.contains e = true :=
  (h.contains e).trans (Ledger.contains_start.mpr (h.listed he))

section

variable (hf : s.layout.Forest) (hpath : s.layout.Ascends s.root path)
include hf hpath

/-- The path may shift what it hosts. -/
theorem proper {h : s.Haul} (hc : s.Clear path h.ledger) (hd : h.device ∈ path)
    (hhost : h.ledger.hostOn path h.slot.microservice = some h.device) : h.Proper where
  forest := hf
  contained he := hc.mem (hpath.mem_of_above? hd he)
  single hj hk hhosts hhosts' := by
    obtain ⟨x, hx, hxn⟩ := Ledger.hosts_iff.mp hhosts
    obtain ⟨y, hy, hyn⟩ := Ledger.hosts_iff.mp hhosts'
    exact hc.lone hx hy (hpath.mem_of_above? hd hj) (hpath.mem_of_above? hd hk)
      (hxn.trans hyn.symm)
  hosted := Ledger.hosts_of_hostOn hhost

/-- There are no more stops than devices that may be placed on. -/
theorem stop?_lt {h : s.Haul} (hc : s.Clear path h.ledger) (hd : h.device ∈ path) {k : Nat}
    (he : h.stop? k = some e) : k < s.domain.length :=
  hf.above?_lt_length he fun _ _ hstop => hc.listed (hpath.mem_of_above? hd hstop)

theorem shift (h : s.Clear path l) (hd : d ∈ path) {slot : Slot}
    (hhost : l.hostOn path slot.microservice = some d) (hl : s.shift app l slot d = some l') :
    l'.Lone path := by
  let haul : s.Haul := ⟨app, l, slot, d⟩
  have hc : s.Clear path haul.ledger := h
  have hp : haul.Proper := hc.proper hf hpath hd hhost
  obtain ⟨k, target, ht, hlands⟩ :=
    hp.lands_of_shifted (fun he => Nat.le_of_lt (hc.stop?_lt hf hpath hd he)) hl
  exact hlands.lone hp ht.1.1 ht.1.2.1 (fun he => hpath.mem_of_above? hd he) h.lone

theorem attempt (h : s.Clear path w.ledger) (hd : d ∈ path) (id : RequestId) (name : Name) :
    s.Clear path (s.attempt app path id d w name).ledger := by
  refine ⟨fun e => (attempt_contains s app path id (h.mem hd) name e).trans (h.contains e),
    h.listed, ?_⟩
  rcases attempt_hosted s app path id d w name with ⟨hl, _⟩ | ⟨honly, _, hl | ⟨hhost, hl⟩⟩
  · exact hl ▸ h.lone
  · rw [hl]
    exact h.lone.add (h.mem hd) (h.lone.hosted hd honly)
  · exact h.shift hf hpath hd hhost hl

theorem attempts (h : s.Clear path w.ledger) (hd : d ∈ path) (id : RequestId)
    (names : List Name) : s.Clear path (names.foldl (s.attempt app path id d) w).ledger := by
  induction names generalizing w with
  | nil => exact h
  | cons name names ih => exact ih (h.attempt hf hpath hd id name)

theorem walkPast (h : s.Clear path w.ledger) (id : RequestId) {devices : List DeviceId}
    (hsub : devices ⊆ path) : s.Clear path (s.walkPast app path id devices w).ledger := by
  induction devices generalizing w with
  | nil => exact h
  | cons d devices ih =>
    have hrest : devices ⊆ path := fun e he => hsub (List.mem_cons_of_mem d he)
    rw [PlacementSetting.walkPast, List.foldl_cons]
    split
    · rw [fill_eq]
      exact ih (h.attempts hf hpath (hsub List.mem_cons_self) id _) hrest
    · exact ih h hrest

theorem placeRequest {b : Batch} (h : s.Clear path b.ledger) (r : Request) :
    (s.placeRequest path b r).ledger.Lone path := by
  unfold PlacementSetting.placeRequest
  split
  · exact h.lone
  · next app _ =>
    have hwalk : s.Clear path (s.walk app path r b.ledger b.failures).ledger :=
      walkPast hf hpath h r.id (List.Subset.refl path)
    simp only
    split
    · exact hwalk.lone
    · exact hwalk.lone.sub fun hx => (Ledger.mem_holding_rollback.mp hx).1

end

end Clear

end PlacementSetting

/-! ## From path to path -/

namespace PlacementSetting

/--
What holds between two requests of a batch, when some were walked for: slots are on paths that were
walked, and on the path that was walked last a microservice is on one device.
-/
structure Spread (visited : List (List DeviceId × Request)) (l : Ledger) : Prop where
  met : ∀ {d x}, l.Has d x → ∃ v ∈ visited, d ∈ v.1
  lone : ∀ {v}, visited.getLast? = some v → l.Lone v.1

variable {s : PlacementSetting} {requests : List Request} {path : List DeviceId} {l l' : Ledger}
  {visited after : List (List DeviceId × Request)} {v : List DeviceId × Request}

theorem spread_start (domain : List DeviceId) : Spread [] (.start domain) where
  met hx := by
    rw [Ledger.Has, Ledger.holding_start] at hx
    exact absurd hx List.not_mem_nil
  lone hv := by simp at hv

namespace Spread

theorem snoc (h : Spread visited l) (hwithin : ∀ {d x}, l'.Has d x → l.Has d x ∨ d ∈ v.1)
    (hlone : l'.Lone v.1) : Spread (visited ++ [v]) l' where
  met hx := by
    rcases hwithin hx with hx | hd
    · obtain ⟨u, hu, hd⟩ := h.met hx
      exact ⟨u, List.mem_append_left _ hu, hd⟩
    · exact ⟨v, List.mem_append_right _ (List.mem_singleton_self v), hd⟩
  lone hu := by
    rw [List.getLast?_concat] at hu
    exact Option.some.inj hu ▸ hlone

/-- On the next path to walk a microservice is on one device as well. -/
theorem lone_next (h : Spread visited l) (hf : s.layout.Forest)
    (hsplit : s.visits requests = visited ++ v :: after) : l.Lone v.1 := by
  intro d e x y hx hy hd he hsame
  rcases List.eq_nil_or_concat' visited with rfl | ⟨before, u, rfl⟩
  · obtain ⟨_, hnone, _⟩ := h.met hx
    exact absurd hnone List.not_mem_nil
  · have htriple := visits_triplewise hf requests
    rw [hsplit, List.append_assoc, List.map_append, List.triplewise_append] at htriple
    -- What the next path has in common with an older one is on the last one, too.
    have hlast : ∀ {c z}, l.Has c z → c ∈ v.1 → c ∈ u.1 := by
      intro c z hz hc
      obtain ⟨w, hw, hcw⟩ := h.met hz
      rcases List.mem_append.mp hw with hw | hw
      · have hpair := htriple.2.2.1 w.1 (List.mem_map_of_mem hw)
        exact List.rel_of_pairwise_cons hpair List.mem_cons_self c hcw hc
      · exact List.mem_singleton.mp hw ▸ hcw
    exact h.lone List.getLast?_concat hx hy (hlast hx hd) (hlast hy he) hsame

theorem placeRequest {r : Request} {b : Batch} (h : Spread visited b.ledger)
    (hf : s.layout.Forest) (hpath : s.layout.Ascends s.root path)
    (hc : s.Clear path b.ledger) :
    Spread (visited ++ [(path, r)]) (s.placeRequest path b r).ledger :=
  h.snoc (placeRequest_within hpath.closed b r) (hc.placeRequest hf hpath r)

end Spread

end PlacementSetting

end FogNet
