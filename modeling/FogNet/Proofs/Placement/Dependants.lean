import FogNet.Proofs.Placement.Whereabouts
import FogNet.Proofs.Topology.PathOrder

/-!
# A walk keeps what feeds below what it feeds

A request's microservices are placed after all that feeds them over edges going up, and no lower on
the path. A later shift moves them again, also for other requests, but along with a microservice
goes what it feeds on the devices that it leaves. This keeps the order as long as each microservice
is on at most one device of the path: then what moves has all its slots with it.

A request that shares a device with slots of complete requests is carried by them: these have a slot
for everything that the application declares, so what such a microservice feeds is on the path, and
an instance of that goes nowhere else.

## Main statements

* `Application.closeUp_induction`, `Application.mem_closeUp_of_feedsUp` — what moves along
* `Errand.Lawful` — what holds at every moment of a walk
* `Errand.Lawful.add`, `Errand.Lawful.raise`, `Errand.Lawful.shift` — one lemma per change
* `Errand.Lawful.walk` — a walk keeps it
-/

namespace FogNet

/-! ## What moves along -/

namespace Application

variable {app : Application} {hosted : Name → Bool} {x y : Name}

/-- An edge going up leads from one microservice to another. -/
def FeedsUp (app : Application) (x y : Name) : Prop :=
  ∃ e ∈ app.moduleEdges, e.direction = .up ∧ e.source = x ∧ e.destination = y

theorem FeedsUp.feeds (h : app.FeedsUp x y) : app.Feeds y := by
  obtain ⟨e, he, hup, _, hy⟩ := h
  exact ⟨e, he, hup, hy⟩

/-- What feeds a microservice must be placed before it. -/
theorem FeedsUp.mem_requirements (h : app.FeedsUp x y) : x ∈ app.requirements y := by
  obtain ⟨e, he, hup, rfl, rfl⟩ := h
  refine List.mem_flatMap.mpr ⟨e, he, List.mem_append_right _ ?_⟩
  rw [if_pos ⟨rfl, hup⟩]
  exact List.mem_singleton_self _

theorem subset_foldl_joinAlong (edges : List Edge) (moving : List Name) :
    moving ⊆ edges.foldl (joinAlong hosted) moving := by
  rcases foldl_joinAlong_cases hosted edges moving with h | ⟨h, _⟩
  · rw [h]
    exact List.Subset.refl _
  · exact h

theorem joinAlong_induction {P : Name → Prop} {e : Edge} {moving : List Name}
    (seeds : ∀ n ∈ moving, P n)
    (join : e.direction = .up → hosted e.destination = true → P e.source → P e.destination) :
    ∀ n ∈ joinAlong hosted moving e, P n := by
  intro n hn
  unfold joinAlong at hn
  split at hn
  · next h =>
    rcases List.mem_append.mp hn with hn | hn
    · exact seeds n hn
    · exact List.mem_singleton.mp hn ▸ join h.1 h.2.2.2 (seeds _ h.2.1)
  · exact seeds n hn

/-- What is true of all that moves, and passes on to what it feeds, is true of what moves along. -/
theorem closeUp_induction {P : Name → Prop} {moving : List Name} (seeds : ∀ n ∈ moving, P n)
    (join : ∀ x y, app.FeedsUp x y → hosted y = true → P x → P y) :
    ∀ n ∈ app.closeUp hosted moving, P n := by
  fun_induction closeUp app hosted moving with
  | case1 => exact seeds
  | case2 moving _ _ ih =>
    refine ih ?_
    refine foldl_rule (I := fun (_ : List Edge) (names : List Name) => ∀ n ∈ names, P n) seeds ?_
    intro before e after names hedges hnames
    have he : e ∈ app.moduleEdges := hedges ▸ List.mem_append_right before List.mem_cons_self
    exact joinAlong_induction hnames fun hup hhosted =>
      join e.source e.destination ⟨e, he, hup, rfl, rfl⟩ hhosted

theorem mem_foldl_joinAlong_of_edge {e : Edge} (hup : e.direction = .up)
    (hhosted : hosted e.destination = true) : ∀ {edges : List Edge} {moving : List Name},
      e ∈ edges → e.source ∈ moving → e.destination ∈ edges.foldl (joinAlong hosted) moving
  | e' :: edges, moving, he, hs => by
    rw [List.foldl_cons]
    rcases List.mem_cons.mp he with rfl | he
    · refine subset_foldl_joinAlong edges _ ?_
      unfold joinAlong
      split
      · exact List.mem_append_right _ (List.mem_singleton_self _)
      · next h =>
        by_contra hd
        exact h ⟨hup, hs, hd, hhosted⟩
    · refine mem_foldl_joinAlong_of_edge hup hhosted he ?_
      rcases joinAlong_cases hosted moving e' with h | ⟨_, h⟩
      · rwa [h]
      · rw [h]
        exact List.mem_append_left _ hs

/-- What a microservice feeds on the device moves along with it. -/
theorem mem_closeUp_of_feedsUp {moving : List Name} (h : app.FeedsUp x y)
    (hx : x ∈ app.closeUp hosted moving) (hy : hosted y = true) :
    y ∈ app.closeUp hosted moving := by
  obtain ⟨e, he, hup, rfl, rfl⟩ := h
  rw [← joinOnce_closeUp]
  exact mem_foldl_joinAlong_of_edge hup hy he hx

/--
What an application may move: what it declares, but for its client module, and what its edges going
up lead to.
-/
def Moves (app : Application) (name : Name) : Prop :=
  (name ∈ app.names ∧ name ≠ app.clientModule) ∨ app.Feeds name

instance (app : Application) (name : Name) : Decidable (app.Moves name) :=
  inferInstanceAs (Decidable (_ ∨ _))

end Application

namespace Ledger

/-- A slot is in the holding of a device. -/
def Has (l : Ledger) (d : DeviceId) (x : Slot) : Prop := x ∈ (l.holding d).slots

theorem hosts_eq_false {l : Ledger} {d : DeviceId} {name : Name} :
    l.hosts d name = false ↔ ∀ x, l.Has d x → x.microservice ≠ name := by
  rw [Bool.eq_false_iff, ne_eq, hosts_iff]
  simp [Has]

/-- On a path no microservice is on two devices. -/
def Lone (path : List DeviceId) (l : Ledger) : Prop :=
  ∀ ⦃d e x y⦄, l.Has d x → l.Has e y → d ∈ path → e ∈ path → x.microservice = y.microservice → d = e

theorem hosts_of_hostOn {l : Ledger} {path : List DeviceId} {name : Name} {d : DeviceId}
    (h : l.hostOn path name = some d) : l.hosts d name = true :=
  List.find?_some (p := fun d => l.hosts d name) h

/-- If the path has no host but one device, a microservice is on no other device of it. -/
theorem Lone.hosted {l : Ledger} {path : List DeviceId} {name : Name} {d : DeviceId}
    (h : l.Lone path) (hd : d ∈ path) (hhost : ∀ host, l.hostOn path name = some host → host = d) :
    ∀ e ∈ path, ∀ x, l.Has e x → x.microservice = name → e = d := by
  intro e he x hx hxn
  have hsome : (l.hostOn path name).isSome = true :=
    List.find?_isSome.mpr ⟨e, he, hosts_iff.mpr ⟨x, hx, hxn⟩⟩
  obtain ⟨host, hfound⟩ := Option.isSome_iff_exists.mp hsome
  obtain ⟨y, hy, hyn⟩ := hosts_iff.mp (hosts_of_hostOn hfound)
  obtain rfl := hhost host hfound
  exact h hx hy he hd (hxn.trans hyn.symm)

end Ledger

namespace PlacementSetting

variable {s : PlacementSetting}

/-! ## A walk and what holds on it -/

/--
What does not change on a walk: its path, its request with its application, and the applications of
all requests. None of these other applications declares what this one may move.
-/
structure Errand (s : PlacementSetting) where
  path : List DeviceId
  ascends : s.layout.Ascends s.root path
  id : RequestId
  app : Application
  /-- The application of each request. -/
  owner : RequestId → Option Application
  owned : owner id = some app
  apart : ∀ {id' a n}, owner id' = some a → n ∈ a.names → n ≠ a.clientModule → app.Moves n →
    a = app

/-- An attempt places on the first device of the path that hosts the microservice, if one does. -/
theorem attempt_hosted (s : PlacementSetting) (app : Application) (path : List DeviceId)
    (id : RequestId) (d : DeviceId) (v : Walk) (name : Name) :
    ((s.attempt app path id d v name).ledger = v.ledger
        ∧ (s.attempt app path id d v name).placed = v.placed)
      ∨ (∀ host, v.ledger.hostOn path name = some host → host = d)
        ∧ (s.attempt app path id d v name).placed = name :: v.placed
        ∧ ((s.attempt app path id d v name).ledger
              = v.ledger.add d ⟨id, app.id, name⟩ (app.mipsOf name)
          ∨ v.ledger.hostOn path name = some d
            ∧ s.shift app v.ledger ⟨id, app.id, name⟩ d
              = some (s.attempt app path id d v name).ledger) := by
  unfold attempt
  simp only
  split
  · next host hhost =>
    split
    · next heq =>
      subst heq
      have honly : ∀ host', v.ledger.hostOn path name = some host' → host' = host :=
        fun host' h => Option.some.inj (h.symm.trans hhost)
      split
      · exact Or.inr ⟨honly, rfl, Or.inl rfl⟩
      · split
        · next ledger hl => exact Or.inr ⟨honly, rfl, Or.inr ⟨hhost, hl⟩⟩
        · exact Or.inl ⟨rfl, rfl⟩
    · exact Or.inl ⟨rfl, rfl⟩
  · next hnone =>
    split
    · exact Or.inr ⟨fun host h => by simp [hnone] at h, rfl, Or.inl rfl⟩
    · exact Or.inl ⟨rfl, rfl⟩

namespace Errand

/--
What holds at every moment of a walk, when some devices were met and some names were placed. It
speaks of slots that are on devices, or on their way and come as far as a device.
-/
structure Lawful (w : Errand s) (met : List DeviceId) (placed : List Name)
    (at' : DeviceId → Slot → Prop) : Prop where
  /-- Slots are for declared microservices, but for no client module. -/
  origin : ∀ {d x}, at' d x → ∃ a, w.owner x.request = some a ∧ x.microservice ∈ a.names
    ∧ x.microservice ≠ a.clientModule
  /-- No edge that goes up points down the tree. -/
  upward : ∀ {d e x y a}, at' d x → at' e y → x.request = y.request →
    w.owner x.request = some a → a.FeedsUp x.microservice y.microservice → s.layout.OnWay s.root d e
  /-- A microservice is on one device of the path. -/
  single : ∀ {d e x y}, at' d x → at' e y → d ∈ w.path → e ∈ w.path →
    x.microservice = y.microservice → d = e
  /-- The other requests have slots for all that they ask for. -/
  whole : ∀ {d x a n}, at' d x → x.request ≠ w.id → w.owner x.request = some a → n ∈ a.names →
    n ≠ a.clientModule → ∃ e y, at' e y ∧ y.purpose = (x.request, n)
  /-- A slot of this request is on a device that was met, or it is carried by another one. -/
  own : ∀ {d x}, at' d x → x.request = w.id → d ∈ w.path
    ∧ (d ∈ met ∨ ∃ y, at' d y ∧ y.microservice = x.microservice ∧ y.request ≠ w.id)
  ready : ∀ {d x}, at' d x → x.request = w.id →
    x.microservice ∈ placed ∧ w.app.requirements x.microservice ⊆ placed

variable {w : Errand s} {met : List DeviceId} {placed : List Name} {d e : DeviceId} {x : Slot}
  {at' : DeviceId → Slot → Prop}

namespace Lawful

theorem mono (h : w.Lawful met placed at') (d : DeviceId) : w.Lawful (met ++ [d]) placed at' where
  origin := h.origin
  upward := h.upward
  single := h.single
  whole := h.whole
  own hx hid := ⟨(h.own hx hid).1, (h.own hx hid).2.imp_left (List.mem_append_left _)⟩
  ready := h.ready

/-- A complete request has what its microservice feeds above it, on the path. -/
theorem mate (h : w.Lawful met placed at') (hx : at' d x) (hne : x.request ≠ w.id)
    (hd : d ∈ w.path) {n : Name} (hm : w.app.Moves x.microservice)
    (hf : w.app.FeedsUp x.microservice n) (hn : n ∈ w.app.names) (hc : n ≠ w.app.clientModule) :
    ∃ e y, at' e y ∧ y.microservice = n ∧ y.request = x.request ∧ e ∈ w.path
      ∧ s.layout.OnWay s.root d e := by
  obtain ⟨a, howner, hname, hclient⟩ := h.origin hx
  obtain rfl := w.apart howner hname hclient hm
  obtain ⟨e, y, hy, hp⟩ := h.whole hx hne howner hn hc
  obtain ⟨hrequest, rfl⟩ := Prod.mk.inj hp
  have hway := h.upward hx hy hrequest.symm howner hf
  exact ⟨e, y, hy, rfl, hrequest, w.ascends.mem_of_onWay hd hway, hway⟩

/-! ## A new slot -/

/--
What the request already has below a new slot is met, or it is carried by a slot of a complete
request, which has what this feeds above it.
-/
theorem feeds_below (h : w.Lawful met placed at') {n : Name}
    (hmet : ∀ e ∈ met, s.layout.OnWay s.root e d)
    (hhost : ∀ e ∈ w.path, ∀ x, at' e x → x.microservice = n → e = d) (hname : n ∈ w.app.names)
    (hne : n ≠ w.app.clientModule) (hx : at' e x) (hid : x.request = w.id)
    (hf : w.app.FeedsUp x.microservice n) : s.layout.OnWay s.root e d := by
  obtain ⟨hpath, hmem | ⟨y, hy, hsame, hother⟩⟩ := h.own hx hid
  · exact hmet e hmem
  · obtain ⟨a, howner, hxn, hxc⟩ := h.origin hx
    obtain rfl : a = w.app := Option.some.inj (howner.symm.trans (hid ▸ w.owned))
    obtain ⟨e', z, hz, hzn, _, hpath', hway⟩ := h.mate hy hother hpath
      (hsame ▸ Or.inl ⟨hxn, hxc⟩) (hsame ▸ hf) hname hne
    exact hhost e' hpath' z hz hzn ▸ hway

/-- A new slot may be on the device where the path hosts its microservice, or if none does so. -/
theorem add (h : w.Lawful met placed at') {n : Name} (hd : d ∈ met) (hp : d ∈ w.path)
    (hmet : ∀ e ∈ met, s.layout.OnWay s.root e d) (hready : n ∈ w.app.readyToPlace placed)
    (hclient : w.app.clientModule ∈ placed)
    (hhost : ∀ e ∈ w.path, ∀ x, at' e x → x.microservice = n → e = d) :
    w.Lawful met (n :: placed)
      (fun e x => at' e x ∨ (e = d ∧ x = ⟨w.id, w.app.id, n⟩)) := by
  obtain ⟨hname, hnew, hrequired⟩ := Application.mem_readyToPlace.mp hready
  have hne : n ≠ w.app.clientModule := fun he => hnew (he ▸ hclient)
  constructor
  · rintro e x (hx | ⟨rfl, rfl⟩)
    · exact h.origin hx
    · exact ⟨w.app, w.owned, hname, hne⟩
  · rintro e e' x y a (hx | ⟨rfl, rfl⟩) (hy | ⟨rfl, rfl⟩) hid howner hf
    · exact h.upward hx hy hid howner hf
    · obtain rfl : a = w.app := Option.some.inj (howner.symm.trans (hid ▸ w.owned))
      exact h.feeds_below hmet hhost hname hne hx hid hf
    · -- What the new slot feeds has waited for it.
      obtain rfl : a = w.app := Option.some.inj (howner.symm.trans w.owned)
      exact absurd ((h.ready hy hid.symm).2 hf.mem_requirements) hnew
    · obtain rfl : a = w.app := Option.some.inj (howner.symm.trans w.owned)
      exact absurd (hrequired n hf.mem_requirements) hnew
  · rintro e e' x y (hx | ⟨rfl, rfl⟩) (hy | ⟨rfl, rfl⟩) he he' hsame
    · exact h.single hx hy he he' hsame
    · exact hhost e he x hx hsame
    · exact (hhost e' he' y hy hsame.symm).symm
    · rfl
  · rintro e x a n' (hx | ⟨rfl, rfl⟩) hid howner hn' hc
    · obtain ⟨e', y, hy, hpurpose⟩ := h.whole hx hid howner hn' hc
      exact ⟨e', y, Or.inl hy, hpurpose⟩
    · exact absurd rfl hid
  · rintro e x (hx | ⟨rfl, rfl⟩) hid
    · refine ⟨(h.own hx hid).1, (h.own hx hid).2.imp_right ?_⟩
      rintro ⟨y, hy, hsame⟩
      exact ⟨y, Or.inl hy, hsame⟩
    · exact ⟨hp, Or.inl hd⟩
  · rintro e x (hx | ⟨rfl, rfl⟩) hid
    · exact ⟨List.mem_cons_of_mem _ (h.ready hx hid).1,
        fun m hm => List.mem_cons_of_mem _ ((h.ready hx hid).2 hm)⟩
    · exact ⟨List.mem_cons_self, fun m hm => List.mem_cons_of_mem _ (hrequired m hm)⟩

end Lawful

/-! ## Slots on their way up -/

/--
What moves, when it has come as far as a device: with each microservice all of its slots on the
path, some of which are of complete requests, and all that it feeds on that device.
-/
structure Carries (w : Errand s) (c : DeviceId) (l : Ledger) (m : Moving) : Prop where
  named : ∀ x ∈ m.slots, x.microservice ∈ m.names
  moves : ∀ n ∈ m.names, w.app.Moves n
  clear : ∀ n ∈ m.names, ∀ e ∈ w.path, l.hosts e n = false
  carried : ∀ n ∈ m.names, ∃ y ∈ m.slots, y.microservice = n ∧ y.request ≠ w.id
  closed : ∀ n ∈ m.names, ∀ y, w.app.FeedsUp n y → l.hosts c y = false

/-- What has begun to move, or has been joined, is moving with all that must go along. -/
theorem Lawful.carries {l : Ledger} {m : Moving} (h : w.Lawful met placed (m.At l d))
    (hd : d ∈ w.path) {hosted : Name → Bool} {seeds : List Name}
    (hnames : m.names = w.app.closeUp hosted seeds)
    (hseeds : ∀ n ∈ seeds, w.app.Moves n
      ∧ ∃ y, m.At l d d y ∧ y.microservice = n ∧ y.request ≠ w.id)
    (hhosted : ∀ n, hosted n = true → ∃ y, m.At l d d y ∧ y.microservice = n)
    (hstill : ∀ n, l.hosts d n = true → hosted n = true)
    (hgone : ∀ n ∈ m.names, l.hosts d n = false)
    (hnamed : ∀ x ∈ m.slots, x.microservice ∈ m.names) : w.Carries d l m := by
  have hall : ∀ n ∈ m.names, w.app.Moves n
      ∧ ∃ y, m.At l d d y ∧ y.microservice = n ∧ y.request ≠ w.id := by
    rw [hnames]
    refine Application.closeUp_induction hseeds ?_
    rintro _ n hf hn ⟨hm, x, hx, rfl, hne⟩
    have hmoves : w.app.Moves n := Or.inr hf.feeds
    obtain ⟨z, hz, rfl⟩ := hhosted n hn
    obtain ⟨a, howner, hname, hclient⟩ := h.origin hz
    obtain rfl := w.apart howner hname hclient hmoves
    obtain ⟨e, y, hy, hyn, hyx, he, _⟩ := h.mate hx hne hd hm hf hname hclient
    obtain rfl := h.single hy hz he hd hyn
    exact ⟨hmoves, y, hy, hyn, hyx ▸ hne⟩
  have hclear : ∀ n ∈ m.names, ∀ e ∈ w.path, l.hosts e n = false := by
    intro n hn e he
    rw [Ledger.hosts_eq_false]
    intro z hz hzn
    obtain ⟨_, y, hy, hyn, _⟩ := hall n hn
    obtain rfl := h.single (Or.inl hz) hy he hd (hzn.trans hyn.symm)
    exact Ledger.hosts_eq_false.mp (hgone n hn) z hz hzn
  constructor
  · exact hnamed
  · exact fun n hn => (hall n hn).1
  · exact hclear
  · intro n hn
    obtain ⟨_, y, hy | ⟨_, hy⟩, hyn, hne⟩ := hall n hn
    · exact absurd hyn (Ledger.hosts_eq_false.mp (hgone n hn) y hy)
    · exact ⟨y, hy, hyn, hne⟩
  · intro n hn y hf
    rw [Bool.eq_false_iff]
    intro hy
    have hjoined : y ∈ m.names :=
      hnames ▸ Application.mem_closeUp_of_feedsUp hf (hnames ▸ hn) (hstill y hy)
    rw [hgone y hjoined] at hy
    exact Bool.false_ne_true hy

/-- What a moving slot feeds is not on the device that it leaves, so it is further up. -/
theorem Lawful.fed_above {l : Ledger} {m : Moving} {c p : DeviceId}
    (h : w.Lawful met placed (m.At l c)) (hm : w.Carries c l m) (hs : s.layout.StepUp s.root c p)
    {y : Slot} {a : Application} (hx : x ∈ m.slots) (hy : l.Has e y) (hid : x.request = y.request)
    (howner : w.owner x.request = some a) (hf : a.FeedsUp x.microservice y.microservice) :
    s.layout.OnWay s.root p e := by
  have hmoving : m.At l c c x := Or.inr ⟨rfl, hx⟩
  obtain ⟨b, hb, hname, hclient⟩ := h.origin hmoving
  obtain rfl := Option.some.inj (howner.symm.trans hb)
  obtain rfl := w.apart howner hname hclient (hm.moves _ (hm.named x hx))
  rcases Relation.ReflTransGen.cases_head (h.upward hmoving (Or.inl hy) hid howner hf) with
    rfl | ⟨p', hs', hway⟩
  · exact absurd rfl (Ledger.hosts_eq_false.mp (hm.closed _ (hm.named x hx) _ hf) y hy)
  · rwa [Layout.stepUp_rightUnique hs hs']

/-- What moves may go up by one device. -/
theorem Lawful.raise {l : Ledger} {m : Moving} {c p : DeviceId}
    (h : w.Lawful met placed (m.At l c)) (hm : w.Carries c l m) (hs : s.layout.StepUp s.root c p)
    (hc : c ∈ w.path) : w.Lawful met placed (m.At l p) := by
  have hp : p ∈ w.path := w.ascends.closed c hc p hs
  -- Every slot was somewhere before.
  have hback : ∀ {e x}, m.At l p e x → ∃ e', m.At l c e' x := by
    rintro e x (hx | ⟨_, hx⟩)
    · exact ⟨e, Or.inl hx⟩
    · exact ⟨c, Or.inr ⟨rfl, hx⟩⟩
  have hforth : ∀ {e x}, m.At l c e x → ∃ e', m.At l p e' x := by
    rintro e x (hx | ⟨_, hx⟩)
    · exact ⟨e, Or.inl hx⟩
    · exact ⟨p, Or.inr ⟨rfl, hx⟩⟩
  have hapart : ∀ {e x y}, l.Has e x → e ∈ w.path → y ∈ m.slots →
      x.microservice ≠ y.microservice := fun hx he hy =>
    Ledger.hosts_eq_false.mp (hm.clear _ (hm.named _ hy) _ he) _ hx
  constructor
  · intro e x hx
    obtain ⟨_, hx⟩ := hback hx
    exact h.origin hx
  · rintro e e' x y a (hx | ⟨rfl, hx⟩) (hy | ⟨rfl, hy⟩) hid howner hf
    · exact h.upward (Or.inl hx) (Or.inl hy) hid howner hf
    · exact (h.upward (Or.inl hx) (Or.inr ⟨rfl, hy⟩) hid howner hf).tail hs
    · exact h.fed_above hm hs hx hy hid howner hf
    · exact Relation.ReflTransGen.refl
  · rintro e e' x y (hx | ⟨rfl, hx⟩) (hy | ⟨rfl, hy⟩) he he' hsame
    · exact h.single (Or.inl hx) (Or.inl hy) he he' hsame
    · exact absurd hsame (hapart hx he hy)
    · exact absurd hsame.symm (hapart hy he' hx)
    · rfl
  · intro e x a n hx hid howner hn hclient
    obtain ⟨_, hx⟩ := hback hx
    obtain ⟨_, y, hy, hpurpose⟩ := h.whole hx hid howner hn hclient
    obtain ⟨e', hy⟩ := hforth hy
    exact ⟨e', y, hy, hpurpose⟩
  · rintro e x (hx | ⟨rfl, hx⟩) hid
    · obtain ⟨he, hmem | ⟨y, hy | ⟨rfl, hy⟩, hsame, hne⟩⟩ := h.own (Or.inl hx) hid
      · exact ⟨he, Or.inl hmem⟩
      · exact ⟨he, Or.inr ⟨y, Or.inl hy, hsame, hne⟩⟩
      · exact absurd hsame.symm (hapart hx he hy)
    · obtain ⟨y, hy, hsame, hne⟩ := hm.carried _ (hm.named x hx)
      exact ⟨hp, Or.inr ⟨y, Or.inr ⟨rfl, hy⟩, hsame, hne⟩⟩
  · intro e x hx hid
    obtain ⟨_, hx⟩ := hback hx
    exact h.ready hx hid

theorem Lawful.congr {at'' : DeviceId → Slot → Prop} (h : w.Lawful met placed at')
    (hiff : ∀ d x, at'' d x ↔ at' d x) : w.Lawful met placed at'' := by
  have heq : at'' = at' := funext fun d => funext fun x => propext (hiff d x)
  exact heq ▸ h

/-- What is fed on a full device joins. -/
theorem Carries.collect {l : Ledger} {m : Moving} {c : DeviceId} (hm : w.Carries c l m)
    (h : w.Lawful met placed (m.At l d)) (hd : d ∈ w.path) (hc : l.contains d = true) :
    w.Carries d (m.collect w.app l d (w.app.closeUp (l.hosts d) m.names)).1
      (m.collect w.app l d (w.app.closeUp (l.hosts d) m.names)).2 := by
  have hat := Moving.at_collect w.app (w.app.closeUp (l.hosts d) m.names) m hc
  refine (h.congr hat).carries hd rfl ?_ ?_ ?_ ?_ ?_
  · intro n hn
    obtain ⟨y, hy, hyn, hne⟩ := hm.carried n hn
    exact ⟨hm.moves n hn, y, (hat d y).mpr (Or.inr ⟨rfl, hy⟩), hyn, hne⟩
  · intro n hn
    obtain ⟨y, hy, hyn⟩ := Ledger.hosts_iff.mp hn
    exact ⟨y, (hat d y).mpr (Or.inl hy), hyn⟩
  · intro n hn
    obtain ⟨y, hy, hyn⟩ := Ledger.hosts_iff.mp hn
    exact Ledger.hosts_iff.mpr ⟨y, ((Moving.mem_holding_collect hc).mp hy).1, hyn⟩
  · intro n hn
    rw [Ledger.hosts_eq_false]
    rintro y hy rfl
    obtain ⟨hy, hkept⟩ := (Moving.mem_holding_collect hc).mp hy
    refine hkept ⟨rfl, hn, fun hold => ?_⟩
    exact Ledger.hosts_eq_false.mp (hm.clear _ hold d hd) y hy rfl
  · intro x hx
    rcases Moving.mem_slots_collect.mp hx with hx | ⟨_, hx, _⟩
    · exact Application.closeUp_subset _ _ _ _ (hm.named x hx)
    · exact hx

/-- A shift begins where the path hosts the microservice. -/
theorem Lawful.departing {l : Ledger} {n : Name}
    (h : w.Lawful met placed (fun e x => l.Has e x ∨ (e = d ∧ x = ⟨w.id, w.app.id, n⟩)))
    (hd : d ∈ w.path) (hc : l.contains d = true) (hm : w.app.Moves n)
    (hn : ∃ y, l.Has d y ∧ y.microservice = n ∧ y.request ≠ w.id) :
    w.Lawful met placed ((departing w.app l ⟨w.id, w.app.id, n⟩ d).2.At
        (departing w.app l ⟨w.id, w.app.id, n⟩ d).1 d)
      ∧ w.Carries d (departing w.app l ⟨w.id, w.app.id, n⟩ d).1
        (departing w.app l ⟨w.id, w.app.id, n⟩ d).2 := by
  have hat := at_departing w.app ⟨w.id, w.app.id, n⟩ hc
  have hat' := h.congr hat
  refine ⟨hat', hat'.carries hd rfl ?_ ?_ ?_ ?_ ?_⟩
  · intro n' hn'
    obtain rfl := List.mem_singleton.mp hn'
    obtain ⟨y, hy, hyn, hne⟩ := hn
    exact ⟨hm, y, (hat d y).mpr (Or.inl hy), hyn, hne⟩
  · intro n' hn'
    obtain ⟨y, hy, hyn⟩ := Ledger.hosts_iff.mp hn'
    exact ⟨y, (hat d y).mpr (Or.inl hy), hyn⟩
  · intro n' hn'
    obtain ⟨y, hy, hyn⟩ := Ledger.hosts_iff.mp hn'
    exact Ledger.hosts_iff.mpr ⟨y, ((Moving.mem_holding_collect hc).mp hy).1, hyn⟩
  · intro n' hn'
    rw [Ledger.hosts_eq_false]
    rintro y hy rfl
    exact ((Moving.mem_holding_collect hc).mp hy).2 ⟨rfl, hn', List.not_mem_nil⟩
  · intro x hx
    rcases List.mem_append.mp hx with hx | hx
    · rcases Moving.mem_slots_collect.mp hx with hx | ⟨_, hx, _⟩
      · exact absurd hx List.not_mem_nil
      · exact hx
    · rw [List.mem_singleton.mp hx]
      exact Application.closeUp_subset _ _ _ _ (List.mem_singleton_self n)

/-! ## Attempts and walks -/

/-- A shift of what a path hosts keeps all that holds with the new slot. -/
theorem Lawful.shift {l l' : Ledger} {n : Name}
    (h : w.Lawful met placed (fun e x => l.Has e x ∨ (e = d ∧ x = ⟨w.id, w.app.id, n⟩)))
    (hd : d ∈ w.path) (hc : l.contains d = true) (hm : w.app.Moves n)
    (hn : ∃ y, l.Has d y ∧ y.microservice = n ∧ y.request ≠ w.id)
    (hl : s.shift w.app l ⟨w.id, w.app.id, n⟩ d = some l') : w.Lawful met placed l'.Has := by
  refine shift_rule (I := fun c l m => c ∈ w.path ∧ w.Lawful met placed (m.At l c)
    ∧ w.Carries c l m) (J := fun l => w.Lawful met placed l.Has) ?_ ?_ ?_ hl
  · intro c p l m hs hp ⟨hcp, hlaw, hcarries⟩
    exact (hlaw.raise hcarries hs hcp).congr fun e x => Moving.mem_holding_settle hp
  · intro c p l m hs hp ⟨hcp, hlaw, hcarries⟩
    have hpath := w.ascends.closed c hcp p hs
    have hraised := hlaw.raise hcarries hs hcp
    exact ⟨hpath, hraised.congr (Moving.at_collect _ _ _ hp), hcarries.collect hraised hpath hp⟩
  · exact ⟨hd, h.departing hd hc hm hn⟩

/-- An attempt keeps what holds, if it is made on a device that the path leads to. -/
theorem Lawful.attempt {v : Walk} {n : Name} (h : w.Lawful met v.placed v.ledger.Has)
    (hd : d ∈ met) (hp : d ∈ w.path) (hmet : ∀ e ∈ met, s.layout.OnWay s.root e d)
    (hc : v.ledger.contains d = true) (hready : n ∈ w.app.readyToPlace v.placed)
    (hclient : w.app.clientModule ∈ v.placed) :
    w.Lawful met (s.attempt w.app w.path w.id d v n).placed
      (s.attempt w.app w.path w.id d v n).ledger.Has := by
  obtain ⟨hname, hnew, _⟩ := Application.mem_readyToPlace.mp hready
  rcases attempt_hosted s w.app w.path w.id d v n with ⟨hl, hplaced⟩ | ⟨honly, hplaced, hl⟩
  · rwa [hl, hplaced]
  · have hlone : v.ledger.Lone w.path := fun _ _ _ _ => h.single
    have hadd := h.add hd hp hmet hready hclient (hlone.hosted hp honly)
    rw [hplaced]
    rcases hl with hl | ⟨hhost, hl⟩
    · rw [hl]
      exact hadd.congr fun e x => Ledger.mem_holding_add hc
    · refine hadd.shift hp hc (Or.inl ⟨hname, fun he => hnew (he ▸ hclient)⟩) ?_ hl
      obtain ⟨y, hy, rfl⟩ := Ledger.hosts_iff.mp (Ledger.hosts_of_hostOn hhost)
      exact ⟨y, hy, rfl, fun hid => hnew (h.ready hy hid).1⟩

/-- A walk keeps what holds. -/
theorem Lawful.walk {r : Request} {l : Ledger} (failures : Nat) (hid : r.id = w.id)
    (hclient : w.app.clientModule ∈ r.placed.keys) (h : w.Lawful [] r.placed.keys l.Has) :
    w.Lawful w.path (s.walk w.app w.path r l failures).placed
      (s.walk w.app w.path r l failures).ledger.Has := by
  refine (walk_induction (I := fun met v => w.app.clientModule ∈ v.placed
    ∧ w.Lawful met v.placed v.ledger.Has) ⟨hclient, h⟩ ?_ ?_).2
  · exact fun _ d _ ⟨hclient, h⟩ => ⟨hclient, h.mono d⟩
  · rintro met d after v n hpath hu hready ⟨hclient, h⟩
    have hp : d ∈ w.path := hpath ▸ List.mem_append_right met List.mem_cons_self
    have hmet : ∀ e ∈ met ++ [d], s.layout.OnWay s.root e d := fun e he =>
      (hpath ▸ w.ascends).onWay_of_met he
    refine ⟨?_, hid ▸ h.attempt (List.mem_append_right _ (List.mem_singleton_self d)) hp hmet
      (Advances.of_usable hu) hready hclient⟩
    rcases attempt_hosted s w.app w.path r.id d v n with ⟨_, hplaced⟩ | ⟨_, hplaced, _⟩
    · rwa [hplaced]
    · rw [hplaced]
      exact List.mem_cons_of_mem _ hclient

end Errand

end PlacementSetting

end FogNet
