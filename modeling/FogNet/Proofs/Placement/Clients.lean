import FogNet.Proofs.Placement.Whereabouts
import FogNet.Proofs.Topology.Path
import FogNet.Proofs.Topology.PathOrder

/-!
# Client devices and shared microservices

A walk passes over client devices, but a shift does not: it sets down on the first device above that
has room, whatever the role of that device. So no client device gets shared microservices as long as
client devices stand at the bottom of the paths, with nothing but client devices below them.
Wherever one stands right above another kind of device, two requests suffice to put a microservice
on it.

## Main statements

* `run_avoids` — with client devices at the bottom none is ever placed on
* `run_reaches` — two requests that put a microservice on a client device above another kind
* `avoids_clients_iff` — client devices are spared exactly if they stand at the bottom
-/

namespace FogNet

namespace Layout

/-- A declared device with the role of a client. -/
def isClient (l : Layout) (id : DeviceId) : Bool :=
  (l.device? id).any fun d => d.role == .client

instance (l : Layout) (root d p : DeviceId) : Decidable (l.StepUp root d p) :=
  inferInstanceAs (Decidable (_ ∧ _))

/-- A client device right above a device of another kind, both in the domain. -/
def ClientOver (l : Layout) (root : DeviceId) (domain : List DeviceId) (d p : DeviceId) : Prop :=
  l.StepUp root d p ∧ d ∈ domain ∧ p ∈ domain ∧ l.isClient p = true ∧ l.isClient d = false

instance (l : Layout) (root : DeviceId) (domain : List DeviceId) (d p : DeviceId) :
    Decidable (l.ClientOver root domain d p) :=
  inferInstanceAs (Decidable (_ ∧ _ ∧ _ ∧ _ ∧ _))

/-- On the paths up to a root only client devices stand right below client devices. -/
def ClientsLow (l : Layout) (root : DeviceId) (domain : List DeviceId) : Prop :=
  ∀ path ∈ l.leafPaths root, ∀ d ∈ path, ∀ p ∈ path, ¬ l.ClientOver root domain d p

instance (l : Layout) (root : DeviceId) (domain : List DeviceId) :
    Decidable (l.ClientsLow root domain) :=
  inferInstanceAs (Decidable (∀ path ∈ l.leafPaths root, ∀ d ∈ path, ∀ p ∈ path,
    ¬ l.ClientOver root domain d p))

end Layout

/-! ## Answers and slots -/

namespace Ledger

theorem mem_of_device?_foldl_assign {id : RequestId} {name : Name} {d : DeviceId} :
    ∀ {es : List (DeviceId × Slot)} {p : Placement},
      (es.foldl assign p).device? id name = some d →
        (∃ x, (d, x) ∈ es) ∨ p.device? id name = some d
  | [], _, h => Or.inr h
  | (d', x) :: es, p, h => by
    rw [List.foldl_cons] at h
    rcases mem_of_device?_foldl_assign h with ⟨y, hy⟩ | h
    · exact Or.inl ⟨y, List.mem_cons_of_mem _ hy⟩
    · rw [device?_assign] at h
      split at h
      · split at h
        · exact Or.inl ⟨x, Option.some.inj h ▸ List.mem_cons_self⟩
        · simp at h
      · exact Or.inr h

/-- An answer puts nothing on a device without slots, even if requests share a number. -/
theorem exists_slot_of_device? {l : Ledger} {complete : List RequestId} {id : RequestId}
    {name : Name} {d : DeviceId} (h : (l.assemble complete).device? id name = some d) :
    ∃ x, x ∈ (l.holding d).slots := by
  rcases mem_of_device?_foldl_assign h with ⟨x, hx⟩ | h
  · exact ⟨x, mem_placements.mp hx⟩
  · rw [Placement.device?, get?_blank] at h
    split at h <;> simp at h

end Ledger

namespace PlacementSetting

open FogNet.Topology (zeroChain zeroChainTopology build_zeroChain)

variable {s : PlacementSetting} {requests : List Request} {path : List DeviceId} {d p : DeviceId}

/-! ## At the bottom -/

theorem isClient_of_usable {l : Ledger} (h : s.usable l d = true) :
    s.layout.isClient d = false := by
  unfold usable at h
  unfold Layout.isClient
  split at h
  · simp at h
  · next dev hdev =>
    rw [hdev, Option.any_some]
    cases hr : dev.role <;> simp [hr, Role.hostsShared] at h ⊢

/-- Placing a request puts nothing on client devices, if they are at the bottom. -/
theorem placeRequest_avoids (hf : s.layout.Forest)
    (hlow : s.layout.ClientsLow s.root s.domain) (hp : path ∈ s.layout.leafPaths s.root) {b : Batch}
    (hc : ∀ e, b.ledger.contains e = (Ledger.start s.domain).contains e)
    (hb : ∀ e, ∀ x ∈ (b.ledger.holding e).slots, s.layout.isClient e = false) (r : Request) :
    (∀ e, (s.placeRequest path b r).ledger.contains e = (Ledger.start s.domain).contains e)
      ∧ ∀ e, ∀ x ∈ ((s.placeRequest path b r).ledger.holding e).slots,
          s.layout.isClient e = false := by
  refine ⟨fun e => (placeRequest_contains s path b r e).trans (hc e), ?_⟩
  unfold placeRequest
  split
  · exact hb
  · next app _ =>
    have hdomain : ∀ {e}, b.ledger.contains e = true → e ∈ s.domain := fun he =>
      Ledger.contains_start.mp ((hc _).symm.trans he)
    have hwalk : ∀ e, ∀ x ∈ ((s.walk app path r b.ledger b.failures).ledger.holding e).slots,
        x ∈ (b.ledger.holding e).slots
          ∨ (e ∈ path ∧ e ∈ s.domain ∧ s.layout.isClient e = false) := by
      refine walk_within r b.failures ?_ ?_
      · rintro c q hs hq ⟨hcp, hcd, hcc⟩
        have hqp := (hf.leafPaths_ascends hp).closed c hcp q hs
        exact ⟨hqp, hdomain hq, Bool.eq_false_iff.mpr fun hclient =>
          hlow path hp c hcp q hqp ⟨hs, hcd, hdomain hq, hclient, hcc⟩⟩
      · exact fun e he hu => ⟨he, hdomain (Advances.of_usable hu), isClient_of_usable hu⟩
    have hslots : ∀ e, ∀ x ∈ ((s.walk app path r b.ledger b.failures).ledger.holding e).slots,
        s.layout.isClient e = false := by
      intro e x hx
      rcases hwalk e x hx with hx | hgood
      · exact hb e x hx
      · exact hgood.2.2
    simp only
    split
    · exact hslots
    · exact fun e x hx => hslots e x (Ledger.mem_holding_rollback.mp hx).1

/-- With client devices at the bottom none is ever placed on. -/
theorem run_avoids (hf : s.layout.Forest) (hlow : s.layout.ClientsLow s.root s.domain)
    {id : RequestId} {name : Name} (h : (s.run requests).placement.device? id name = some d) :
    s.layout.isClient d = false := by
  have hrun : ∀ e, ∀ x ∈ ((s.run requests).ledger.holding e).slots,
      s.layout.isClient e = false := by
    simp only [run, foldl_placePath]
    refine (foldl_rule (I := fun (_ : List (List DeviceId × Request)) (b : Batch) =>
      (∀ e, b.ledger.contains e = (Ledger.start s.domain).contains e)
        ∧ ∀ e, ∀ x ∈ (b.ledger.holding e).slots, s.layout.isClient e = false) ?_ ?_).2
    · refine ⟨fun _ => rfl, fun e x hx => ?_⟩
      rw [Ledger.holding_start] at hx
      exact absurd hx List.not_mem_nil
    · intro before v after b hsplit ⟨hc, hb⟩
      have hv : (v.1, v.2) ∈ s.visits requests :=
        hsplit ▸ List.mem_append_right before List.mem_cons_self
      exact placeRequest_avoids hf hlow (mem_visits.mp hv).1 hc hb v.2
  obtain ⟨x, hx⟩ := Ledger.exists_slot_of_device? h
  exact hrun d x hx

/-! ## Above another kind of device -/

/-- The parent of a device takes what a shift begins with, if it has room for it. -/
theorem shift_parent {app : Application} {l : Ledger} {slot : Slot}
    (hs : s.layout.StepUp s.root d p) (hd : d ∈ s.domain) (hp : l.contains p = true)
    (hfits : wrap ((departing app l slot d).1.load p + (departing app l slot d).2.load)
      ≤ s.free.freeCpu p) :
    s.shift app l slot d
      = some ((departing app l slot d).2.settle (departing app l slot d).1 p) := by
  obtain ⟨steps, hsteps⟩ := Nat.exists_eq_add_of_lt (List.length_pos_of_mem hd)
  have hc := (contains_departing app l slot d p).trans hp
  have hlift : s.shift app l slot d = s.lift app (steps + 1) d (departing app l slot d).1
      (departing app l slot d).2 := by
    rw [Nat.zero_add] at hsteps
    rw [← hsteps]
    rfl
  rw [hlift, lift, if_neg hs.1, hs.2]
  simp [hc, hfits]

/-- An application of one microservice. -/
def lone : Application := { id := "lone", user := 1, microservices := [⟨"m", 1, 0, 0, []⟩] }

theorem mem_readyToPlace_lone {placed : List Name} {n : Name} :
    n ∈ lone.readyToPlace placed ↔ n = "m" ∧ n ∉ placed := by
  simp [Application.mem_readyToPlace, lone, Application.names, Application.requirements,
    Application.moduleEdges]

@[simp] theorem id_lone : lone.id = "lone" := rfl

@[simp] theorem mipsOf_lone : lone.mipsOf "m" = 1 := rfl

theorem closeUp_lone (hosted : Name → Bool) (moving : List Name) :
    lone.closeUp hosted moving = moving := by
  unfold Application.closeUp
  exact dif_pos rfl

/-- A device is tried for the one microservice, unless that is placed. -/
theorem fill_lone (id : RequestId) (w : Walk) (hw : w.placed = []) :
    s.fill lone path id d w [] = s.attempt lone path id d w "m" := by
  unfold fill
  split
  · next hnone =>
    refine absurd (List.find?_eq_none.mp hnone "m" ?_) (by simp)
    rw [mem_readyToPlace_lone, hw]
    exact ⟨rfl, List.not_mem_nil⟩
  · next name hname =>
    obtain ⟨rfl, _⟩ := mem_readyToPlace_lone.mp (List.mem_of_find?_eq_some hname)
    unfold fill
    split
    · rfl
    · next name' hname' =>
      obtain ⟨rfl, _⟩ := mem_readyToPlace_lone.mp (List.mem_of_find?_eq_some hname')
      exact absurd (List.find?_some hname') (by simp)

theorem fill_placed (id : RequestId) (w : Walk) (hw : "m" ∈ w.placed) :
    s.fill lone path id d w [] = w := by
  unfold fill
  split
  · rfl
  · next name hname =>
    obtain ⟨rfl, hn⟩ := mem_readyToPlace_lone.mp (List.mem_of_find?_eq_some hname)
    exact absurd hw hn

/-- The walk ends at the first device on which the one microservice can be placed. -/
theorem walk_lone {met after : List DeviceId} (hpath : path = met ++ d :: after) {r : Request}
    (hr : r.placed = .empty) {l : Ledger} {failures : Nat}
    (hskip : ∀ e ∈ met, s.usable l e = true →
      s.attempt lone path r.id e ⟨l, [], failures⟩ "m" = ⟨l, [], failures⟩)
    (hu : s.usable l d = true) {w : Walk}
    (hw : s.attempt lone path r.id d ⟨l, [], failures⟩ "m" = w) (hplaced : "m" ∈ w.placed) :
    s.walk lone path r l failures = w := by
  let visit (w : Walk) (device : DeviceId) : Walk :=
    if s.usable w.ledger device then s.fill lone path r.id device w [] else w
  have hmet : met.foldl visit ⟨l, [], failures⟩ = ⟨l, [], failures⟩ := by
    refine foldl_rule (I := fun (_ : List DeviceId) (w : Walk) => w = ⟨l, [], failures⟩) rfl ?_
    rintro before e rest _ hsplit rfl
    by_cases hue : s.usable l e = true
    · refine (if_pos hue).trans ((fill_lone _ _ rfl).trans ?_)
      exact hskip e (hsplit ▸ List.mem_append_right before List.mem_cons_self) hue
    · exact if_neg hue
  have hstep : visit ⟨l, [], failures⟩ d = w :=
    (if_pos hu).trans ((fill_lone _ _ rfl).trans hw)
  have hafter : after.foldl visit w = w := by
    refine foldl_rule (I := fun (_ : List DeviceId) (w' : Walk) => w' = w) rfl ?_
    rintro _ e _ _ _ rfl
    exact (ite_congr rfl (fun _ => fill_placed _ _ hplaced) fun _ => rfl).trans (ite_self _)
  have hwalk : s.walk lone path r l failures = path.foldl visit ⟨l, r.placed.keys, failures⟩ := rfl
  have hkeys : r.placed.keys = [] := by rw [hr]; rfl
  rw [hwalk, hkeys]
  refine (congrArg (fun q : List DeviceId => q.foldl visit _) hpath).trans ?_
  rw [List.foldl_append, hmet, List.foldl_cons, hstep, hafter]

/-- Two requests for the one microservice from one gateway. -/
def twice (gateway : DeviceId) : List Request :=
  [⟨1, "lone", gateway, .empty⟩, ⟨2, "lone", gateway, .empty⟩]

/-- Room for one instance on a device, for two right above it, and for none elsewhere. -/
def room (d p : DeviceId) : Snapshot :=
  (SortedMap.empty.insert d { cpuMips := 1 }).insert p { cpuMips := 2 }

theorem freeCpu_room (d p e : DeviceId) :
    (room d p).freeCpu e = if e = p then 2 else if e = d then 1 else 0 := by
  rw [Snapshot.freeCpu, room, SortedMap.get?_insert, SortedMap.get?_insert]
  split
  · rfl
  · split <;> rfl

/-- The setting in which two requests reach the device above. -/
def tight (l : Layout) (root : DeviceId) (domain : List DeviceId) (d p : DeviceId) :
    PlacementSetting :=
  ⟨l, root, domain, .ofList [lone], room d p⟩

/-- The ledger after the first of the two requests. -/
def once (domain : List DeviceId) (d : DeviceId) : Ledger :=
  (Ledger.start domain).add d ⟨1, "lone", "m"⟩ 1

section Reaches

variable {l : Layout} {root : DeviceId} {domain : List DeviceId}

theorem contains_once (hd : d ∈ domain) (e : DeviceId) :
    (once domain d).contains e = (Ledger.start domain).contains e :=
  (Ledger.grows_add (Ledger.contains_start.mpr hd) _ _).contains e

theorem holding_once (hd : d ∈ domain) (e : DeviceId) :
    (once domain d).holding e = if e = d then ⟨1, [⟨1, "lone", "m"⟩]⟩ else {} := by
  have hc := Ledger.contains_start.mpr hd
  rw [once, Ledger.add_eq_modify hc]
  split
  · next he =>
    rw [he, Ledger.holding_modify_self hc, Ledger.holding_start]
    rfl
  · next he => rw [Ledger.holding_modify_ne he, Ledger.holding_start]

theorem hostOn_once (hd : d ∈ domain) {met : List DeviceId} (hmet : d ∉ met)
    (after : List DeviceId) :
    (once domain d).hostOn (met ++ d :: after) "m" = some d := by
  refine List.find?_eq_some_iff_append.mpr ⟨?_, met, after, rfl, ?_⟩
  · rw [Ledger.hosts, holding_once hd, if_pos rfl]
    rfl
  · intro e he
    rw [Ledger.hosts, holding_once hd, if_neg fun heq : e = d => hmet (heq ▸ he)]
    rfl

variable (h : l.ClientOver root domain d p)
include h

theorem ne_of_over : d ≠ p := fun he => by
  have hclient := h.2.2.2.1.symm.trans ((congrArg l.isClient he).symm.trans h.2.2.2.2)
  exact absurd hclient (by decide)

theorem usable_below : (tight l root domain d p).usable (.start domain) d = true := by
  obtain ⟨⟨_, hparent⟩, hdomain, _, _, hother⟩ := h
  obtain ⟨dev, hdev, _⟩ := Layout.parent?_eq_some.mp hparent
  rw [Layout.isClient, hdev, Option.any_some] at hother
  rw [usable, show (tight l root domain d p).layout.device? d = some dev from hdev]
  simp only [Ledger.contains_start.mpr hdomain, Bool.and_true]
  cases hr : dev.role <;> simp [hr, Role.hostsShared] at hother ⊢

/-- The first request finds room on the lower device. -/
theorem walk_first {met : List DeviceId} (hmet : d ∉ met)
    (after : List DeviceId) (g : DeviceId) :
    (tight l root domain d p).walk lone (met ++ d :: after) ⟨1, "lone", g, .empty⟩
      (.start domain) 0 = ⟨once domain d, ["m"], 0⟩ := by
  have hne := ne_of_over h
  have hnone : (Ledger.start domain).hostOn (met ++ d :: after) "m" = none := by
    refine List.find?_eq_none.mpr fun e _ => ?_
    rw [Ledger.hosts, Ledger.holding_start]
    exact Bool.false_ne_true
  have hload : ∀ e, (Ledger.start domain).load e = 0 := fun e => by
    rw [Ledger.load, Ledger.holding_start]
  refine walk_lone rfl rfl ?_ (usable_below h) ?_ List.mem_cons_self
  · intro e he hu
    have hed : e ≠ d := fun heq => hmet (heq ▸ he)
    have hep : e ≠ p := by
      rintro rfl
      exact absurd (h.2.2.2.1.symm.trans (isClient_of_usable hu)) (by decide)
    simp (disch := decide) [attempt, hnone, hload, tight, freeCpu_room, hep, hed, wrap_of_lt]
  · simp (disch := decide) [attempt, hnone, hload, tight, freeCpu_room, hne, once, wrap_of_lt]

/-- For the second one there is no room, and the device above has room for both. -/
theorem shift_once : ∃ l', (tight l root domain d p).shift lone (once domain d)
      ⟨2, "lone", "m"⟩ d = some l'
    ∧ ∀ id, id = 1 ∨ id = 2 → ⟨id, "lone", "m"⟩ ∈ (l'.holding p).slots := by
  have hne := (ne_of_over h).symm
  obtain ⟨hs, hd, hp, _⟩ := h
  have hc := (contains_once hd p).trans (Ledger.contains_start.mpr hp)
  have hdepart : departing lone (once domain d) ⟨2, "lone", "m"⟩ d
      = (SortedMap.modify (once domain d) d (Holding.without lone ["m"]),
        ⟨["m"], [⟨1, "lone", "m"⟩, ⟨2, "lone", "m"⟩], 2⟩) := by
    simp (disch := decide) [departing, Moving.collect, closeUp_lone, holding_once hd, Holding.taken,
      Holding.demand, sumOf, wrap_of_lt]
  refine ⟨_, shift_parent hs hd hc ?_, ?_⟩
  · rw [hdepart]
    simp (disch := decide) [Ledger.load, Ledger.holding_modify_ne hne, holding_once hd, hne, tight,
      freeCpu_room, wrap_of_lt]
  · intro id hid
    refine (Moving.mem_holding_settle ((contains_departing _ _ _ _ p).trans hc)).mpr
      (Or.inr ⟨rfl, ?_⟩)
    rw [hdepart]
    rcases hid with rfl | rfl
    · exact List.mem_cons_self
    · exact List.mem_cons_of_mem _ List.mem_cons_self

theorem walk_second {met : List DeviceId} (hmet : d ∉ met)
    (after : List DeviceId) (g : DeviceId) :
    ∃ l', (tight l root domain d p).walk lone (met ++ d :: after) ⟨2, "lone", g, .empty⟩
        (once domain d) 0 = ⟨l', ["m"], 0⟩
      ∧ ∀ id, id = 1 ∨ id = 2 → ⟨id, "lone", "m"⟩ ∈ (l'.holding p).slots := by
  have hd := h.2.1
  obtain ⟨l', hshift, hslots⟩ := shift_once h
  have hhost := hostOn_once hd hmet after
  have hfull : ¬ wrap ((once domain d).load d + 1) ≤ (room d p).freeCpu d := by
    rw [Ledger.load, holding_once hd, if_pos rfl, freeCpu_room, if_neg (ne_of_over h), if_pos rfl]
    decide
  refine ⟨l', walk_lone rfl rfl ?_ ?_ ?_ List.mem_cons_self, hslots⟩
  · intro e he _
    have hed : d ≠ e := fun heq => hmet (heq ▸ he)
    simp [attempt, hhost, hed]
  · exact (usable_congr (contains_once hd d)).trans (usable_below h)
  · have hfree : (tight l root domain d p).free = room d p := rfl
    simp [attempt, hhost, hfree, hfull, hshift]

omit h in
theorem placeRequest_lone {b : Batch} {id : RequestId} {g : DeviceId} {w : Walk}
    (hw : (tight l root domain d p).walk lone path ⟨id, "lone", g, .empty⟩ b.ledger b.failures = w)
    {e : DeviceId} (he : ⟨id, "lone", "m"⟩ ∈ (w.ledger.holding e).slots) :
    (tight l root domain d p).placeRequest path b ⟨id, "lone", g, .empty⟩
      = ⟨w.ledger, b.complete ++ [id], w.failures⟩ := by
  have happ : (tight l root domain d p).applications.get? "lone" = some lone := rfl
  have hcomplete : isComplete lone ⟨id, "lone", g, .empty⟩ w.ledger = true := by
    refine isComplete_iff.mpr fun n hn => Or.inr ?_
    obtain rfl : n = "m" := by simpa [lone, Application.names] using hn
    exact serves_iff.mpr ⟨_, Ledger.mem_slots.mpr ⟨e, he⟩, rfl⟩
  simp [placeRequest, happ, hw, hcomplete]

/-- Two requests put their microservice on a client device above a device of another kind. -/
theorem run_reaches (hf : l.Forest) (hpath : path ∈ l.leafPaths root) (hd : d ∈ path) :
    ∃ g, ((tight l root domain d p).run (twice g)).placement.device? 1 "m" = some p := by
  obtain ⟨met, after, rfl, hmet⟩ := List.eq_append_cons_of_mem hd
  obtain ⟨g, hg⟩ : ∃ g, (met ++ d :: after).head? = some g := by
    cases met <;> exact ⟨_, rfl⟩
  have hvisits := visits_of_head (s := tight l root domain d p) hf hpath (twice g)
    (by simp [twice, hg])
  obtain ⟨l', hsecond, hslots⟩ := walk_second h hmet after g
  have hone : (⟨1, "lone", "m"⟩ : Slot) ∈ ((once domain d).holding d).slots := by
    rw [holding_once h.2.1, if_pos rfl]
    exact List.mem_cons_self
  have hplaced := placeRequest_lone (b := { ledger := .start (tight l root domain d p).domain })
    (walk_first h hmet after g) hone
  have hledger : ((tight l root domain d p).run (twice g)).ledger = l' := by
    rw [run, foldl_placePath, hvisits]
    simp only [twice, List.map_cons, List.map_nil, List.foldl_cons, List.foldl_nil]
    rw [hplaced, placeRequest_lone hsecond (hslots 2 (Or.inr rfl))]
  refine ⟨g, Placement.mem_on.mp ((run_on (s := tight l root domain d p) hf ?_ p).mem_iff.mp ?_)⟩
  · simp [twice]
  · rw [hledger]
    exact List.mem_map.mpr ⟨_, hslots 1 (Or.inl rfl), rfl⟩

end Reaches

/-! ## Just where client devices are at the bottom -/

/--
In no batch, whatever the applications, the requests and the free resources, a client device is
placed on, if and only if client devices are at the bottom.
-/
theorem avoids_clients_iff {t : Topology} {l : Layout} (hb : Topology.build l = .ok t)
    (root : DeviceId) (domain : List DeviceId) :
    (∀ applications free requests id name d,
      (run ⟨t.toLayout, root, domain, applications, free⟩ requests).placement.device? id name
        = some d → t.isClient d = false) ↔ t.ClientsLow root domain := by
  have hf := Layout.forest_of_build hb
  constructor
  · intro hall path hpath d hd p _ hover
    obtain ⟨g, hdevice⟩ := run_reaches hover hf hpath hd
    have hfalse := hall _ _ _ 1 "m" p hdevice
    exact absurd (hover.2.2.2.1.symm.trans hfalse) (by decide)
  · intro hlow applications free requests id name d h
    exact run_avoids (s := ⟨t.toLayout, root, domain, applications, free⟩) hf hlow h

/-- At the end of a chain a client device is never placed on. -/
theorem avoids_clients_iff_zeroChain : zeroChainTopology.isClient 3 = true
    ∧ ∀ applications free requests id name,
      (run ⟨zeroChain, 0, zeroChainTopology.domain 0, applications, free⟩ requests).placement.device?
        id name ≠ some 3 := by
  have hclient : zeroChainTopology.isClient 3 = true := by decide +kernel
  have hlow : zeroChainTopology.ClientsLow 0 (zeroChainTopology.domain 0) := by decide +kernel
  refine ⟨hclient, fun applications free requests id name h => ?_⟩
  have hfalse := (avoids_clients_iff build_zeroChain 0 (zeroChainTopology.domain 0)).mpr hlow
    applications free requests id name 3 h
  exact absurd (hclient.symm.trans hfalse) (by decide)

/-- A client device between a cloud and a gateway. -/
def clientBetween : Layout :=
  { devices := [
      { id := 1, name := "cloud", role := .cloud, capacity := { cpuMips := 100 } },
      { id := 2, name := "phone", role := .client, parent := some 1,
        capacity := { cpuMips := 100 } },
      { id := 3, name := "gw", role := .fcn, parent := some 2, capacity := { cpuMips := 30 } }] }

/-- The topology of `clientBetween`: its routes are settled after two sweeps. -/
def clientBetweenTopology : Topology :=
  { clientBetween with
    routes := (Relaxation.firstSweep clientBetween.linkLatency).sweep.sweep.table }

theorem build_clientBetween : Topology.build clientBetween = .ok clientBetweenTopology := by
  refine Topology.build_eq_ok (by decide +kernel) ?_ (by decide +kernel) (by decide +kernel)
  rw [Relaxation.routes, Relaxation.settle_of_changed (by decide +kernel),
    Relaxation.settle_of_still (by decide +kernel)]

/-- Between a cloud and a gateway one may be, also with what the devices have to offer. -/
theorem not_avoids_clients : ¬ ∀ (l : Layout) (t : Topology) (root : DeviceId)
    (applications : Applications) (free : Snapshot) (requests : List Request) (id : RequestId)
    (name : Name) (d : DeviceId), Topology.build l = .ok t →
      (run ⟨t.toLayout, root, t.domain root, applications, free⟩ requests).placement.device? id name
        = some d → t.isClient d = false := by
  intro hall
  have hfalse := hall clientBetween _ 1
    (.ofList [{ id := "a", user := 1, microservices := [⟨"m", 30, 0, 0, []⟩] }])
    (.ofList (clientBetween.devices.map fun d => (d.id, d.capacity)))
    [⟨1, "a", 3, .empty⟩, ⟨2, "a", 3, .empty⟩] 1 "m" 2 build_clientBetween (by decide +kernel)
  exact absurd hfalse (by decide +kernel)

end PlacementSetting

end FogNet
