import FogNet.Proofs.Placement.Slots
import Mathlib.Data.List.Perm.Subperm

/-!
# What is demanded

An application rates slots by what it declares, also slots of others that it has to move. It rates
them as everyone does, if applications agree on what the microservices demand that they share. It is
not enough that those agree that declare the microservice, since a shift also moves what an edge
going up leads to.

Sums of demands are kept in words. What slots demand is no more than what the requests need that
they are for. So no sum of a batch is too large for a word, if all that its requests need is not.

## Main statements

* `Applications.Agree.demand_eq` — an application rates the slots it moves as everyone does
* `Applications.Alike.cost_le_need` — slots demand no more than the requests need that they are for
* `Applications.Agree.load_keep`, `Applications.Agree.load_without` — what is taken off a device is
  taken off its load
-/

namespace FogNet

/-- A list without repetitions has no larger sum than one that holds all of its elements. -/
theorem sumOf_map_le_of_subset {α : Type} {l l' : List α} (hn : l.Nodup) (hsub : l ⊆ l')
    (f : α → Nat) : sumOf (l.map f) ≤ sumOf (l'.map f) := by
  obtain ⟨l₁, hp, hs⟩ := List.subperm_of_subset hn hsub
  rw [← sumOf_perm (hp.map f)]
  exact sumOf_sublist (hs.map f)

namespace Slot

/-- What a slot is there for: one microservice of one request. -/
def purpose (x : Slot) : RequestId × Name := (x.request, x.microservice)

end Slot

/-! ## What an application demands and knows -/

namespace Application

variable {app : Application} {placed : List Name} {n : Name}

/-- A microservice that some edge going up leads to. -/
def Feeds (app : Application) (name : Name) : Prop :=
  ∃ e ∈ app.moduleEdges, e.direction = .up ∧ e.destination = name

instance (app : Application) (name : Name) : Decidable (app.Feeds name) :=
  inferInstanceAs (Decidable (∃ e ∈ app.moduleEdges, e.direction = .up ∧ e.destination = name))

/-- A microservice that an application may have to move. -/
def Knows (app : Application) (name : Name) : Prop := name ∈ app.names ∨ app.Feeds name

instance (app : Application) (name : Name) : Decidable (app.Knows name) :=
  inferInstanceAs (Decidable (_ ∨ _))

theorem mem_foldl_joinAlong {hosted : Name → Bool} {name : Name} : ∀ {edges : List Edge}
    {moving : List Name}, name ∈ edges.foldl (joinAlong hosted) moving →
      name ∈ moving ∨ ∃ e ∈ edges, e.direction = .up ∧ e.destination = name
  | [], _, h => Or.inl h
  | e :: edges, moving, h => by
    rw [List.foldl_cons] at h
    rcases mem_foldl_joinAlong h with h | ⟨e', he', h⟩
    · unfold joinAlong at h
      split at h
      · next hj =>
        rcases List.mem_append.mp h with h | h
        · exact Or.inl h
        · exact Or.inr ⟨e, List.mem_cons_self, hj.1, (List.mem_singleton.mp h).symm⟩
      · exact Or.inl h
    · exact Or.inr ⟨e', List.mem_cons_of_mem _ he', h⟩

/-- What moves along is known to the application, if what it moves is. -/
theorem knows_of_mem_closeUp {app : Application} {hosted : Name → Bool} {moving : List Name}
    (hm : ∀ n ∈ moving, app.Knows n) : ∀ n ∈ app.closeUp hosted moving, app.Knows n := by
  fun_induction closeUp app hosted moving with
  | case1 => exact hm
  | case2 moving _ _ ih =>
    refine ih ?_
    intro n hn
    rcases mem_foldl_joinAlong hn with hn | hn
    · exact hm n hn
    · exact Or.inr hn

/-- What is left to place of an application, each microservice once. -/
def outstanding (app : Application) (placed : List Name) : List Name :=
  (app.names.filter fun n => !placed.contains n).eraseDups

theorem mem_outstanding : n ∈ app.outstanding placed ↔ n ∈ app.names ∧ n ∉ placed := by
  simp [outstanding]

/-- What slots demand in all, by what one application says. -/
def cost (app : Application) (slots : List Slot) : Nat :=
  sumOf (slots.map fun x => app.mipsOf x.microservice)

theorem mipsOf_of_not_mem (h : n ∉ app.names) : app.mipsOf n = 0 := by
  have hnone : app.microservice? n = none := by
    refine List.find?_eq_none.mpr fun m hm hname => h ?_
    exact List.mem_map.mpr ⟨m, hm, by simpa using hname⟩
  rw [mipsOf, hnone]
  rfl

end Application

namespace Applications

/-! ## What applications say of each other -/

/-- All that know a microservice which one of them declares give it the same demand. -/
def Agree (apps : Applications) : Prop :=
  ∀ a ∈ apps.values, ∀ b ∈ apps.values, ∀ n ∈ a.names, b.Knows n → b.mipsOf n = a.mipsOf n

instance (apps : Applications) : Decidable apps.Agree :=
  inferInstanceAs (Decidable (∀ a ∈ apps.values, ∀ b ∈ apps.values, ∀ n ∈ a.names,
    b.Knows n → b.mipsOf n = a.mipsOf n))

/-- All that declare a microservice give it the same demand. -/
def Alike (apps : Applications) : Prop :=
  ∀ a ∈ apps.values, ∀ b ∈ apps.values, ∀ n ∈ a.names, n ∈ b.names → b.mipsOf n = a.mipsOf n

instance (apps : Applications) : Decidable apps.Alike :=
  inferInstanceAs (Decidable (∀ a ∈ apps.values, ∀ b ∈ apps.values, ∀ n ∈ a.names,
    n ∈ b.names → b.mipsOf n = a.mipsOf n))

/-- The demand of a microservice, by the first application that declares it. -/
def mipsOf (apps : Applications) (name : Name) : Nat :=
  ((apps.values.find? fun a => a.names.contains name).map fun a => a.mipsOf name).getD 0

/-- What slots demand in all. -/
def cost (apps : Applications) (slots : List Slot) : Nat :=
  sumOf (slots.map fun x => apps.mipsOf x.microservice)

/-- Some application declares the microservice. -/
def Declares (apps : Applications) (name : Name) : Prop := ∃ a ∈ apps.values, name ∈ a.names

/-- The demand of all that a request does not bring along. -/
def need (apps : Applications) (r : Request) : Nat :=
  (apps.get? r.app).elim 0 fun app => sumOf ((app.outstanding r.placed.keys).map app.mipsOf)

/-- All that requests need together is not too large for a word. -/
def WithinWord (apps : Applications) (requests : List Request) : Prop :=
  sumOf (requests.map apps.need) < UInt64.size

instance (apps : Applications) (requests : List Request) : Decidable (apps.WithinWord requests) :=
  inferInstanceAs (Decidable (_ < _))

variable {apps : Applications} {app : Application} {n : Name}

theorem need_of_get? {r : Request} (h : apps.get? r.app = some app) :
    apps.need r = sumOf ((app.outstanding r.placed.keys).map app.mipsOf) := by
  rw [need, h, Option.elim_some]

theorem WithinWord.sublist {requests requests' : List Request} (h : apps.WithinWord requests')
    (hsub : requests.Sublist requests') : apps.WithinWord requests :=
  Nat.lt_of_le_of_lt (sumOf_sublist (hsub.map _)) h

/-- Different requests that are among others need no more than these. -/
theorem WithinWord.of_subset {requests requests' : List Request} (h : apps.WithinWord requests')
    (hn : requests.Nodup) (hsub : requests ⊆ requests') : apps.WithinWord requests :=
  Nat.lt_of_le_of_lt (sumOf_map_le_of_subset hn hsub _) h

theorem WithinWord.need_lt {requests : List Request} (h : apps.WithinWord requests) {r : Request}
    (hr : r ∈ requests) : apps.need r < UInt64.size :=
  Nat.lt_of_le_of_lt (sumOf_sublist ((List.singleton_sublist.mpr hr).map apps.need)) h

theorem mem_values {id : AppId} {app : Application} (h : apps.get? id = some app) :
    app ∈ apps.values :=
  List.mem_map.mpr ⟨(id, app), (apps.mem_entries_iff id app).mpr h, rfl⟩

/-- What some application declares is rated by one that declares it. -/
theorem Declares.exists_mipsOf {n : Name} (hd : apps.Declares n) :
    ∃ b ∈ apps.values, n ∈ b.names ∧ apps.mipsOf n = b.mipsOf n := by
  obtain ⟨a, ha, hn⟩ := hd
  obtain ⟨b, hb⟩ := Option.isSome_iff_exists.mp
    ((List.find?_isSome (p := fun a : Application => a.names.contains n)).mpr
      ⟨a, ha, List.contains_iff_mem.mpr hn⟩)
  refine ⟨b, List.mem_of_find?_eq_some hb, by simpa using List.find?_some hb, ?_⟩
  rw [mipsOf, hb, Option.map_some, Option.getD_some]

/-! ## Rates -/

theorem Agree.mipsOf_eq (h : apps.Agree) (happ : app ∈ apps.values)
    (hk : app.Knows n) (hd : apps.Declares n) : app.mipsOf n = apps.mipsOf n := by
  obtain ⟨b, hb, hn, he⟩ := hd.exists_mipsOf
  rw [he]
  exact h b hb app happ n hn hk

theorem Agree.alike (h : apps.Agree) : apps.Alike :=
  fun a ha b hb n hn hn' => h a ha b hb n hn (Or.inl hn')

theorem Alike.mipsOf_eq (h : apps.Alike) (happ : app ∈ apps.values) (hn : n ∈ app.names) :
    app.mipsOf n = apps.mipsOf n := by
  obtain ⟨b, hb, hbn, he⟩ := Declares.exists_mipsOf ⟨app, happ, hn⟩
  rw [he]
  exact h b hb app happ n hbn hn

/-- An application rates a microservice as everyone does, or it does not declare it. -/
theorem Alike.mipsOf_le (h : apps.Alike) (happ : app ∈ apps.values) (n : Name) :
    app.mipsOf n ≤ apps.mipsOf n := by
  by_cases hn : n ∈ app.names
  · exact Nat.le_of_eq (h.mipsOf_eq happ hn)
  · rw [Application.mipsOf_of_not_mem hn]
    exact Nat.zero_le _

/-- Slots that an application rates as everyone does. -/
theorem demand_eq {slots : List Slot}
    (hs : ∀ x ∈ slots, app.mipsOf x.microservice = apps.mipsOf x.microservice) :
    Holding.demand app slots = wrap (apps.cost slots) := by
  rw [Holding.demand, cost, List.map_congr_left hs]

/-- An application rates slots that it knows as everyone does. -/
theorem Agree.demand_eq (h : apps.Agree) (happ : app ∈ apps.values) {slots : List Slot}
    (hs : ∀ x ∈ slots, app.Knows x.microservice ∧ apps.Declares x.microservice) :
    Holding.demand app slots = wrap (apps.cost slots) :=
  Applications.demand_eq fun x hx => h.mipsOf_eq happ (hs x hx).1 (hs x hx).2

theorem Alike.demand_le (h : apps.Alike) (happ : app ∈ apps.values) (slots : List Slot) :
    Holding.demand app slots ≤ apps.cost slots :=
  Nat.le_trans (wrap_le _) (sumOf_map_le fun x _ => h.mipsOf_le happ x.microservice)

/-! ## Slots -/

theorem cost_append (slots slots' : List Slot) :
    apps.cost (slots ++ slots') = apps.cost slots + apps.cost slots' := by
  rw [cost, List.map_append, sumOf_append, cost, cost]

theorem cost_perm {slots slots' : List Slot} (h : slots.Perm slots') :
    apps.cost slots = apps.cost slots' := sumOf_perm (h.map _)

theorem cost_lt_of_sublist {slots slots' : List Slot} (h : slots.Sublist slots')
    (hrange : apps.cost slots' < UInt64.size) : apps.cost slots < UInt64.size :=
  Nat.lt_of_le_of_lt (sumOf_sublist (h.map _)) hrange

theorem cost_filter (apps : Applications) (p : Slot → Bool) (slots : List Slot) :
    apps.cost (slots.filter p) + apps.cost (slots.filter fun x => !p x) = apps.cost slots :=
  sumOf_map_filter p _ slots

/-- Slots demand no more than the requests need that they are for. -/
theorem Alike.cost_le_need (h : apps.Alike) {slots : List Slot} {requests : List Request}
    (hu : (slots.map Slot.purpose).Nodup)
    (hs : ∀ x ∈ slots, ∃ r ∈ requests, r.id = x.request ∧ ∃ app, apps.get? r.app = some app
      ∧ x.microservice ∈ app.outstanding r.placed.keys) :
    apps.cost slots ≤ sumOf (requests.map apps.need) := by
  -- The purposes of the slots are among all that is left to place for these requests.
  let all : List (RequestId × Name) := requests.flatMap fun r =>
    ((apps.get? r.app).elim [] fun app => app.outstanding r.placed.keys).map fun n => (r.id, n)
  have hsub : slots.map Slot.purpose ⊆ all := by
    rintro _ hp
    obtain ⟨x, hx, rfl⟩ := List.mem_map.mp hp
    obtain ⟨r, hr, hid, app, happ, hname⟩ := hs x hx
    refine List.mem_flatMap.mpr ⟨r, hr, ?_⟩
    rw [happ, Option.elim_some]
    exact List.mem_map.mpr ⟨x.microservice, hname, by rw [Slot.purpose, hid]⟩
  calc apps.cost slots
      = sumOf ((slots.map Slot.purpose).map fun a => apps.mipsOf a.2) := by
        rw [List.map_map]
        rfl
    _ ≤ sumOf (all.map fun a => apps.mipsOf a.2) := sumOf_map_le_of_subset hu hsub _
    _ = sumOf (requests.map apps.need) := by
      rw [List.map_flatMap, sumOf_flatMap]
      congr 1
      refine List.map_congr_left fun r _ => ?_
      rw [need, List.map_map]
      cases happ : apps.get? r.app with
      | none => rfl
      | some app =>
        simp only [Option.elim_some]
        congr 1
        refine List.map_congr_left fun n hn => ?_
        exact (h.mipsOf_eq (mem_values happ) (Application.mem_outstanding.mp hn).1).symm

/-! ## Holdings -/

/-- Keeping some slots keeps load and slots in step. -/
theorem Agree.load_keep (h : apps.Agree) (happ : app ∈ apps.values) {v : Holding}
    (hv : v.load = apps.cost v.slots) (hrange : apps.cost v.slots < UInt64.size) (p : Slot → Bool)
    (hs : ∀ x ∈ v.slots, p x = false → app.Knows x.microservice ∧ apps.Declares x.microservice) :
    (v.keep app p).load = apps.cost (v.keep app p).slots := by
  have hsplit := apps.cost_filter p v.slots
  have hgone : Holding.demand app (v.slots.filter fun x => !p x)
      = apps.cost (v.slots.filter fun x => !p x) := by
    rw [h.demand_eq happ, wrap_of_lt (by omega)]
    intro x hx
    obtain ⟨hx, hp⟩ := List.mem_filter.mp hx
    exact hs x hx (by simpa using hp)
  simp only [Holding.keep, hgone, hv]
  omega

/-- So does taking some microservices off. -/
theorem Agree.load_without (h : apps.Agree) (happ : app ∈ apps.values) : ∀ {names : List Name}
    {v : Holding}, v.load = apps.cost v.slots → apps.cost v.slots < UInt64.size →
      (∀ x ∈ v.slots, x.microservice ∈ names →
        app.Knows x.microservice ∧ apps.Declares x.microservice) →
      (v.without app names).load = apps.cost (v.without app names).slots
  | [], _, hv, _, _ => hv
  | n :: names, v, hv, hrange, hs => by
    rw [Holding.without, List.foldl_cons, ← Holding.without]
    refine h.load_without happ (h.load_keep happ hv hrange _ fun x hx hp => ?_) ?_ ?_
    · have hn : x.microservice = n := by simpa using hp
      exact hs x hx (hn ▸ List.mem_cons_self)
    · exact cost_lt_of_sublist List.filter_sublist hrange
    · exact fun x hx hn => hs x (List.mem_filter.mp hx).1 (List.mem_cons_of_mem n hn)

end Applications

end FogNet
