import FogNet.Proofs.Machine.Accounts
import FogNet.Proofs.Placement.Hosts

/-!
# No edge that goes up points down the tree

Paths are walked depth first. So whatever the walks so far have put on devices of the present path
is on the path walked right before, and there each microservice is on one device. With that a walk
finds the order of microservices kept, whichever requests came before, and leaves it so.

This needs applications that keep apart. It is not enough that none declares what another one
declares: an application whose edge going up leads to a microservice of another one takes that along
in its shifts, but not what the microservice feeds in turn.

## Main statements

* `Ordered.placeRequest` — what one request leaves behind
* `up_edges_ascend` — an answer respects every edge going up
-/

namespace FogNet

/-- None of the applications may move what another one declares, but for its client module. -/
def Applications.Apart (apps : Applications) : Prop :=
  ∀ a ∈ apps.values, ∀ b ∈ apps.values, ∀ n ∈ a.names, n ≠ a.clientModule → b.Moves n → a = b

instance (apps : Applications) : Decidable apps.Apart :=
  inferInstanceAs (Decidable (∀ a ∈ apps.values, ∀ b ∈ apps.values, ∀ n ∈ a.names,
    n ≠ a.clientModule → b.Moves n → a = b))

/-- Nothing but the client module is placed before, and that at the gateway. -/
def Applications.Pins (apps : Applications) (requests : List Request) : Prop :=
  ∀ r ∈ requests, ∀ app, apps.get? r.app = some app →
    r.placed = SortedMap.empty.insert app.clientModule r.gateway

theorem Applications.Pins.keys {apps : Applications} {requests : List Request}
    (h : apps.Pins requests) {r : Request} (hr : r ∈ requests) {app : Application}
    (happ : apps.get? r.app = some app) : r.placed.keys = [app.clientModule] := by
  rw [h r hr app happ]
  rfl

namespace PlacementSetting

variable {s : PlacementSetting} {requests : List Request} {path : List DeviceId}

/-- The application of each request of a batch. -/
def owner (s : PlacementSetting) (requests : List Request) (id : RequestId) : Option Application :=
  (requests.find? fun r => r.id == id).bind fun r => s.applications.get? r.app

theorem owner_eq (hn : (requests.map Request.id).Nodup) {r : Request} (hr : r ∈ requests) :
    s.owner requests r.id = s.applications.get? r.app := by
  rw [owner, find?_request hn hr, Option.bind_some]

theorem owner_some {id : RequestId} {app : Application} (h : s.owner requests id = some app) :
    ∃ r ∈ requests, r.id = id ∧ s.applications.get? r.app = some app := by
  obtain ⟨r, hr, happ⟩ := Option.bind_eq_some_iff.mp h
  exact ⟨r, List.mem_of_find?_eq_some hr, by simpa using List.find?_some hr, happ⟩

/-! ## Between two requests -/

/-- What holds between two requests of a batch, when some were walked for. -/
structure Ordered (s : PlacementSetting) (requests : List Request)
    (visited : List (List DeviceId × Request)) (l : Ledger) : Prop where
  /-- No edge that goes up points down the tree. -/
  upward : ∀ {d e x y a}, l.Has d x → l.Has e y → x.request = y.request →
    s.owner requests x.request = some a → a.FeedsUp x.microservice y.microservice →
      s.layout.OnWay s.root d e
  /-- Slots are on paths that were walked. -/
  met : ∀ {d x}, l.Has d x → ∃ v ∈ visited, d ∈ v.1
  /-- On the path that was walked last a microservice is on one device. -/
  single : ∀ {v}, visited.getLast? = some v → ∀ {d e x y}, l.Has d x → l.Has e y → d ∈ v.1 →
    e ∈ v.1 → x.microservice = y.microservice → d = e

theorem ordered_start (s : PlacementSetting) (requests : List Request) :
    s.Ordered requests [] (.start s.domain) := by
  have hnone : ∀ {d x}, ¬ (Ledger.start s.domain).Has d x := fun {d x} hx => by
    rw [Ledger.Has, Ledger.holding_start] at hx
    exact absurd hx List.not_mem_nil
  exact ⟨fun hx => absurd hx hnone, fun hx => absurd hx hnone,
    fun hv => absurd hv (by simp)⟩

namespace Ordered

variable {visited after : List (List DeviceId × Request)} {v : List DeviceId × Request}
  {l l' : Ledger}

theorem spread (h : s.Ordered requests visited l) : Spread visited l :=
  ⟨h.met, fun hv _ _ _ _ => h.single hv⟩

/-- On the next path to walk a microservice is on one device as well. -/
theorem single_next (h : s.Ordered requests visited l) (hf : s.layout.Forest)
    (hsplit : s.visits requests = visited ++ v :: after) {d e : DeviceId} {x y : Slot}
    (hx : l.Has d x) (hy : l.Has e y) (hd : d ∈ v.1) (he : e ∈ v.1)
    (hsame : x.microservice = y.microservice) : d = e :=
  h.spread.lone_next hf hsplit hx hy hd he hsame

theorem sub (h : s.Ordered requests visited l) (hsub : ∀ {d x}, l'.Has d x → l.Has d x) :
    s.Ordered requests visited l' :=
  ⟨fun hx hy => h.upward (hsub hx) (hsub hy), fun hx => h.met (hsub hx),
    fun hv _ _ _ _ hx hy => h.single hv (hsub hx) (hsub hy)⟩

/-- Walking a path that is next leaves what holds, if the walk does so with its slots. -/
theorem snoc (h : s.Ordered requests visited l)
    (hwithin : ∀ {d x}, l'.Has d x → l.Has d x ∨ d ∈ v.1)
    (hupward : ∀ {d e x y a}, l'.Has d x → l'.Has e y → x.request = y.request →
      s.owner requests x.request = some a → a.FeedsUp x.microservice y.microservice →
        s.layout.OnWay s.root d e)
    (hsingle : ∀ {d e x y}, l'.Has d x → l'.Has e y → d ∈ v.1 → e ∈ v.1 →
      x.microservice = y.microservice → d = e) : s.Ordered requests (visited ++ [v]) l' := by
  have hspread := h.spread.snoc hwithin fun _ _ _ _ => hsingle
  exact ⟨hupward, hspread.met, fun hv _ _ _ _ hx hy => hspread.lone hv hx hy⟩

end Ordered

/-! ## One request -/

/--
A slot is for a microservice that its request does not bring along, and the request has slots for
all others of these.
-/
theorem Settled.slot {visited : List (List DeviceId × Request)} {b : Batch} {d : DeviceId}
    {x : Slot}
    (hs : s.Settled visited b) (hb : s.Consistent requests (visited.map fun v => v.2.id) b)
    (hn : (requests.map Request.id).Nodup) (hsub : ∀ v ∈ visited, v.2 ∈ requests)
    (hx : b.ledger.Has d x) : ∃ r ∈ requests, r.id = x.request ∧ ∃ app,
      s.applications.get? r.app = some app ∧ x.microservice ∈ app.names
        ∧ x.microservice ∉ r.placed.keys ∧ ∀ n ∈ app.names, n ∉ r.placed.keys →
          ∃ e y, b.ledger.Has e y ∧ y.purpose = (x.request, n) := by
  have hslot : x ∈ b.ledger.slots := Ledger.mem_slots.mpr ⟨d, hx⟩
  obtain ⟨v, hv, hid⟩ := List.mem_map.mp (hb.done _ (hb.complete x hslot))
  obtain ⟨r, hr, hrid, _, app, happ, hleft⟩ := hb.balanced.belongs d x hx
  obtain ⟨hname, hnew⟩ := Application.mem_outstanding.mp hleft
  obtain rfl : v.2 = r := List.inj_on_of_nodup_map hn (hsub v hv) hr (hid.trans hrid.symm)
  obtain ⟨app', happ', hcomplete⟩ := (hs.complete v hv).mp (hid ▸ hb.complete x hslot)
  obtain rfl := Option.some.inj (happ.symm.trans happ')
  refine ⟨v.2, hr, hrid, app, happ, hname, hnew, fun n hname hk => ?_⟩
  rcases isComplete_iff.mp hcomplete n hname with hk' | hserves
  · exact absurd hk' hk
  · obtain ⟨y, hy, hpurpose⟩ := serves_iff.mp hserves
    obtain ⟨e, hy⟩ := Ledger.mem_slots.mp hy
    exact ⟨e, y, hy, hid ▸ hpurpose⟩

/-- The errand of a request on a path to walk. -/
def errand (hf : s.layout.Forest) (hn : (requests.map Request.id).Nodup)
    (hapart : s.applications.Apart) (hpath : path ∈ s.layout.leafPaths s.root) {r : Request}
    (hr : r ∈ requests) {app : Application} (happ : s.applications.get? r.app = some app) :
    Errand s where
  path := path
  ascends := hf.leafPaths_ascends hpath
  id := r.id
  app := app
  owner := s.owner requests
  owned := (owner_eq hn hr).trans happ
  apart := by
    intro id a n ha hname hc hm
    obtain ⟨r', _, _, ha⟩ := owner_some ha
    exact hapart a (Applications.mem_values ha) app (Applications.mem_values happ) n hname hc hm

section Step

variable (hf : s.layout.Forest) (hn : (requests.map Request.id).Nodup)
  (hapart : s.applications.Apart) (hpins : s.applications.Pins requests)
include hf hn hapart hpins

/-- Before the next walk the slots are as its errand needs them, and none is of its request. -/
theorem Ordered.lawful {before after : List (List DeviceId × Request)} {r : Request} {b : Batch}
    (h : s.Ordered requests before b.ledger)
    (hsplit : s.visits requests = before ++ (path, r) :: after)
    (hnew : r.id ∉ before.map fun v => v.2.id)
    (hb : s.Consistent requests (before.map fun v => v.2.id) b) (hs : s.Settled before b)
    (hpath : path ∈ s.layout.leafPaths s.root) (hr : r ∈ requests) {app : Application}
    (happ : s.applications.get? r.app = some app) :
    (errand hf hn hapart hpath hr happ).Lawful [] r.placed.keys b.ledger.Has := by
  have hslot := fun {d x} (hx : b.ledger.Has d x) => hs.slot hb hn
    (fun v hv => (mem_visits.mp (hsplit ▸ List.mem_append_left _ hv)).2.1) hx
  have hother : ∀ {d x}, b.ledger.Has d x → x.request ≠ r.id := fun hx =>
    hb.not_mem hnew _ (Ledger.mem_slots.mpr ⟨_, hx⟩)
  refine ⟨?_, h.upward, h.single_next hf hsplit, ?_, fun hx hid => absurd hid (hother hx),
    fun hx hid => absurd hid (hother hx)⟩
  · intro d x hx
    obtain ⟨r', hr', hid, a, ha, hname, hk, _⟩ := hslot hx
    rw [hpins.keys hr' ha, List.mem_singleton] at hk
    exact ⟨a, hid ▸ (owner_eq hn hr').trans ha, hname, hk⟩
  · intro d x a n hx _ howner hname hc
    obtain ⟨r', hr', hid, a', ha', _, _, hall⟩ := hslot hx
    obtain rfl := Option.some.inj (howner.symm.trans (hid ▸ (owner_eq hn hr').trans ha'))
    refine hall n hname ?_
    rwa [hpins.keys hr' ha', List.mem_singleton]

theorem Ordered.placeRequest {before after : List (List DeviceId × Request)} {r : Request}
    {b : Batch} (h : s.Ordered requests before b.ledger)
    (hsplit : s.visits requests = before ++ (path, r) :: after)
    (hnew : r.id ∉ before.map fun v => v.2.id)
    (hb : s.Consistent requests (before.map fun v => v.2.id) b) (hs : s.Settled before b) :
    s.Ordered requests (before ++ [(path, r)]) (s.placeRequest path b r).ledger := by
  obtain ⟨hpath, hr, hhead⟩ := mem_visits.mp
    (hsplit ▸ List.mem_append_right before List.mem_cons_self : (path, r) ∈ s.visits requests)
  unfold PlacementSetting.placeRequest
  split
  · exact h.snoc Or.inl h.upward (h.single_next hf hsplit)
  · next app happ =>
    have hlaw := h.lawful hf hn hapart hpins hsplit hnew hb hs hpath hr happ
    have hwalk := hlaw.walk b.failures rfl (by
      rw [hpins.keys hr happ]
      exact List.mem_singleton_self _)
    have hwithin : ∀ e, ∀ x ∈ ((s.walk app path r b.ledger b.failures).ledger.holding e).slots,
        x ∈ (b.ledger.holding e).slots ∨ e ∈ path :=
      walk_within r b.failures
        (fun c p hs' _ hc => (hf.leafPaths_ascends hpath).closed c hc p hs') fun e he _ => he
    have hordered : s.Ordered requests (before ++ [(path, r)])
        (s.walk app path r b.ledger b.failures).ledger :=
      h.snoc (fun hx => hwithin _ _ hx) hwalk.upward hwalk.single
    simp only
    split
    · exact hordered
    · exact hordered.sub fun hx => (Ledger.mem_holding_rollback.mp hx).1

/-- At the end of a batch no edge that goes up points down the tree. -/
theorem run_upward {r : Request} (hr : r ∈ requests) {app : Application}
    (happ : s.applications.get? r.app = some app) {x y : Name} (hfeeds : app.FeedsUp x y)
    {d e : DeviceId} (hd : (s.run requests).placement.device? r.id x = some d)
    (he : (s.run requests).placement.device? r.id y = some e) : s.layout.OnWay s.root d e := by
  obtain ⟨b, _, ⟨_, hordered⟩, hl, _⟩ := visits_induction hf hn
    (I := fun visited b => s.Settled visited b ∧ s.Ordered requests visited b.ledger)
    ⟨settled_start s, ordered_start s requests⟩ (by
      intro before path r after b hsplit hnew hb ⟨hs, ho⟩
      obtain ⟨hpath, hr, hhead⟩ := mem_visits.mp
        (hsplit ▸ List.mem_append_right before List.mem_cons_self : (path, r) ∈ s.visits requests)
      exact ⟨hs.placeRequest hb hr (hf.leafPaths_onWay hpath hhead) hnew,
        ho.placeRequest hf hn hapart hpins hsplit hnew hb hs⟩)
  have hslot : ∀ {n c}, (s.run requests).placement.device? r.id n = some c →
      ∃ z, b.ledger.Has c z ∧ z.purpose = (r.id, n) := by
    intro n c hc
    obtain ⟨z, hz, hp⟩ := List.mem_map.mp ((run_on hf hn c).mem_iff.mpr (Placement.mem_on.mpr hc))
    exact ⟨z, hl ▸ hz, hp⟩
  obtain ⟨u, hu, hpu⟩ := hslot hd
  obtain ⟨v, hv, hpv⟩ := hslot he
  obtain ⟨hid, rfl⟩ := Prod.mk.inj hpu
  obtain ⟨hid', rfl⟩ := Prod.mk.inj hpv
  exact hordered.upward hu hv (hid.trans hid'.symm)
    (hid ▸ (owner_eq hn hr).trans happ) hfeeds

end Step

/-- What an answer places is on a path from a leaf, and so below the root. -/
theorem run_below_root (hf : s.layout.Forest) (hn : (requests.map Request.id).Nodup)
    {id : RequestId} {name : Name} {d : DeviceId}
    (h : (s.run requests).placement.device? id name = some d) :
    s.layout.OnWay s.root d s.root := by
  obtain ⟨r, hr, rfl, hway, _⟩ := run_device? hf hn h
  have hanswered := Placement.contains_of_mem_on (Placement.mem_on.mpr h)
  obtain ⟨⟨path, hpath, hhead⟩, _⟩ := (run_contains_iff hf hn hr).mp hanswered
  have hascends := hf.leafPaths_ascends hpath
  exact hascends.onWay_root (hascends.mem_of_onWay (List.mem_of_mem_head? hhead) hway)

/--
With applications that keep apart, an answer puts each microservice on the way from the gateway up
to the root, and along an edge going up it never goes down.
-/
theorem up_edges_ascend {l : Layout} {t : Topology} (hb : Topology.build l = .ok t)
    {root : DeviceId} {domain : List DeviceId} {applications : Applications} {free : Snapshot}
    {requests : List Request} (hn : (requests.map Request.id).Nodup)
    (hpins : applications.Pins requests) (hapart : applications.Apart) {p : Placement}
    (hp : (run ⟨t.toLayout, root, domain, applications, free⟩ requests).placement = p) :
    ∀ r ∈ requests,
      (∀ name d, p.device? r.id name = some d →
        t.OnWay root r.gateway d ∧ t.OnWay root d root)
      ∧ ∀ app, applications.get? r.app = some app → ∀ e ∈ app.moduleEdges, e.direction = .up →
        ∀ d d', p.device? r.id e.source = some d → p.device? r.id e.destination = some d' →
          t.OnWay root d d' := by
  subst hp
  have hf := Layout.forest_of_build hb
  intro r hr
  refine ⟨fun name d hd => ⟨?_, run_below_root hf hn hd⟩, ?_⟩
  · obtain ⟨r', hr', hid, hway, _⟩ := run_device? hf hn hd
    rwa [← List.inj_on_of_nodup_map hn hr' hr hid]
  · intro app happ e he hup d d' hd hd'
    exact run_upward hf hn hapart hpins hr happ ⟨e, he, hup, rfl, rfl⟩ hd hd'

open Orchestrator (twoTier twoTierTopology build_twoTier feeding)

/-- Requests from the gateway of `Orchestrator.twoTier`, with the client module placed there. -/
def gatewayRequests (apps : List AppId) : List Request :=
  apps.mapIdx fun i app => ⟨i + 1, app, 2, SortedMap.empty.insert "client" 2⟩

theorem pins_gatewayRequests {applications : Applications}
    (h : ∀ app ∈ applications.values, app.clientModule = "client") (apps : List AppId) :
    applications.Pins (gatewayRequests apps) := by
  intro r hr app happ
  obtain ⟨_, _, rfl⟩ := List.mem_mapIdx.mp hr
  rw [h app (Applications.mem_values happ)]

/-- `Orchestrator.twoTier` with all that it has to offer. -/
def freshSetting (applications : Applications) : PlacementSetting :=
  ⟨twoTierTopology.toLayout, 1, twoTierTopology.domain 1, applications,
    .ofList (twoTier.devices.map fun d => (d.id, d.capacity))⟩

/-- An application with an edge going up from `m` to `x`. -/
def feeder : Application :=
  { id := "a", user := 1, microservices := [⟨"m", 30, 0, 0, []⟩, ⟨"x", 30, 0, 0, []⟩],
    edges := [feeding] }

/-- The second request makes `x` go up for both, and `m` stays below. -/
theorem up_edges_ascend_feeder : ∃ p,
    ((freshSetting (.ofList [feeder])).run (gatewayRequests ["a", "a"])).placement = p
      ∧ p.device? 1 "m" = some 2 ∧ p.device? 1 "x" = some 1 ∧ twoTierTopology.OnWay 1 2 1 := by
  obtain ⟨p, hp⟩ : ∃ p, ((freshSetting (.ofList [feeder])).run
    (gatewayRequests ["a", "a"])).placement = p := ⟨_, rfl⟩
  have hm : p.device? 1 "m" = some 2 := by
    rw [← hp]
    decide +kernel
  have hx : p.device? 1 "x" = some 1 := by
    rw [← hp]
    decide +kernel
  have hapart : (Applications.ofList [feeder]).Apart := by decide +kernel
  obtain ⟨_, hup⟩ := up_edges_ascend build_twoTier (by decide +kernel)
    (pins_gatewayRequests (by decide +kernel) ["a", "a"]) hapart hp _ List.mem_cons_self
  exact ⟨p, hp, hm, hx, hup feeder rfl feeding (by decide +kernel) rfl 2 1 hm hx⟩

/-- An application that feeds `x` without declaring it, and one that declares it and feeds `y`. -/
def outsiders : List Application :=
  [{ id := "a", user := 1, microservices := [⟨"m", 30, 0, 0, []⟩], edges := [feeding] },
    { id := "b", user := 1, microservices := [⟨"x", 30, 0, 0, []⟩, ⟨"y", 30, 0, 0, []⟩],
      edges := [{ feeding with source := "x", destination := "y" }] }]

/--
It is not enough that no name is declared twice: the third request makes `x` go up, but not what `x`
feeds.
-/
theorem not_up_edges_ascend : ¬ ∀ (l : Layout) (t : Topology) (root : DeviceId)
    (applications : Applications) (free : Snapshot) (requests : List Request),
    Topology.build l = .ok t → (requests.map Request.id).Nodup → applications.Pins requests →
    (∀ a ∈ applications.values, ∀ b ∈ applications.values, ∀ n ∈ a.names, n ∈ b.names → a = b) →
    ∀ p, (run ⟨t.toLayout, root, t.domain root, applications, free⟩ requests).placement = p →
    ∀ r ∈ requests, ∀ app, applications.get? r.app = some app → ∀ e ∈ app.moduleEdges,
      e.direction = .up → ∀ d d', p.device? r.id e.source = some d →
        p.device? r.id e.destination = some d' → t.OnWay root d d' := by
  intro hall
  have hway : twoTierTopology.OnWay 1 1 2 := hall twoTier _ 1 (.ofList outsiders)
    (freshSetting .empty).free (gatewayRequests ["b", "a", "a"]) build_twoTier (by decide +kernel)
    (pins_gatewayRequests (by decide +kernel) _) (by decide +kernel) _ rfl _ List.mem_cons_self
    _ rfl { feeding with source := "x", destination := "y" } (by decide +kernel) rfl 1 2
    (by decide +kernel) (by decide +kernel)
  rcases Relation.ReflTransGen.cases_head hway with h | ⟨_, hs, _⟩
  · exact absurd h (by decide)
  · exact absurd rfl hs.1

end PlacementSetting

end FogNet
