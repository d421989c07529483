import FogNet.Placement.Ledger
import FogNet.Remaining
import FogNet.Topology.Domain

/-!
# Shifting towards the root

When a device that hosts a microservice cannot take one more instance, the microservice moves up
together with everything on the device that it feeds over edges going up. On a device above that is
full too, what the moving microservices feed there joins them. The first device that can take the
whole load gets it; without one nothing changes.

## Main statements

* `closeUp_subset`, `joinOnce_closeUp` — what moves along holds what moves, and no edge adds to it
-/

namespace FogNet

/-- All that placement looks at besides the requests. -/
structure PlacementSetting where
  layout : Layout
  /-- The orchestrating device. -/
  root : DeviceId
  /-- The devices that may be placed on. -/
  domain : List DeviceId
  applications : Applications
  /-- What the domain has left when the batch begins. -/
  free : Snapshot

namespace Application

/-! ## What moves along -/

/-- Adds the destination of an edge going up, if its source moves and the destination is hosted. -/
def joinAlong (hosted : Name → Bool) (moving : List Name) (e : Edge) : List Name :=
  if e.direction = .up ∧ e.source ∈ moving ∧ e.destination ∉ moving ∧ hosted e.destination = true
  then moving ++ [e.destination]
  else moving

/-- Tries every edge once. -/
def joinOnce (app : Application) (hosted : Name → Bool) (moving : List Name) : List Name :=
  app.moduleEdges.foldl (joinAlong hosted) moving

theorem joinAlong_cases (hosted : Name → Bool) (moving : List Name) (e : Edge) :
    joinAlong hosted moving e = moving ∨
      (e.destination ∉ moving ∧ joinAlong hosted moving e = moving ++ [e.destination]) := by
  unfold joinAlong
  split
  · next h => exact Or.inr ⟨h.2.2.1, rfl⟩
  · exact Or.inl rfl

theorem foldl_joinAlong_cases (hosted : Name → Bool) : ∀ (edges : List Edge) (moving : List Name),
    edges.foldl (joinAlong hosted) moving = moving ∨
      (moving ⊆ edges.foldl (joinAlong hosted) moving ∧
        ∃ e ∈ edges, e.destination ∉ moving
          ∧ e.destination ∈ edges.foldl (joinAlong hosted) moving)
  | [], _ => Or.inl rfl
  | e :: edges, moving => by
    rw [List.foldl_cons]
    rcases joinAlong_cases hosted moving e with he | ⟨hnew, he⟩
    · rw [he]
      rcases foldl_joinAlong_cases hosted edges moving with h | ⟨hsub, x, hx, h⟩
      · exact Or.inl h
      · exact Or.inr ⟨hsub, x, List.mem_cons_of_mem _ hx, h⟩
    · rw [he]
      have hgrow : moving ++ [e.destination]
          ⊆ edges.foldl (joinAlong hosted) (moving ++ [e.destination]) := by
        rcases foldl_joinAlong_cases hosted edges (moving ++ [e.destination]) with h | ⟨h, _⟩
        · rw [h]; exact fun _ hx => hx
        · exact h
      exact Or.inr ⟨fun x hx => hgrow (List.mem_append_left _ hx), e, List.mem_cons_self, hnew,
        hgrow (List.mem_append_right _ List.mem_cons_self)⟩

/-- The moving microservices with all hosted ones that they feed, directly or not, going up. -/
def closeUp (app : Application) (hosted : Name → Bool) (moving : List Name) : List Name :=
  let next := app.joinOnce hosted moving
  if _h : next = moving then moving else app.closeUp hosted next
termination_by remaining (app.moduleEdges.map Edge.destination) moving
decreasing_by
  rcases foldl_joinAlong_cases hosted app.moduleEdges moving with h | ⟨hsub, e, he, hnew, hmet⟩
  · exact absurd h _h
  · exact remaining_lt hsub (List.mem_map.mpr ⟨e, he, rfl⟩) hnew hmet

theorem closeUp_subset (app : Application) (hosted : Name → Bool) (moving : List Name) :
    ∀ n ∈ moving, n ∈ app.closeUp hosted moving := by
  fun_induction closeUp app hosted moving with
  | case1 => exact fun _ h => h
  | case2 moving _ hne ih =>
    rcases foldl_joinAlong_cases hosted app.moduleEdges moving with h | ⟨hsub, _⟩
    · exact absurd h hne
    · exact fun n hn => ih n (hsub hn)

/-- Closing again adds nothing. -/
theorem joinOnce_closeUp (app : Application) (hosted : Name → Bool) (moving : List Name) :
    app.joinOnce hosted (app.closeUp hosted moving) = app.closeUp hosted moving := by
  fun_induction closeUp app hosted moving with
  | case1 _ _ h => exact h
  | case2 _ _ _ ih => exact ih

end Application

/-! ## The way up -/

/-- What is on its way up. -/
structure Moving where
  names : List Name
  slots : List Slot
  load : Nat

namespace Moving

/-- Takes microservices off a device, to move along. -/
def collect (app : Application) (l : Ledger) (device : DeviceId) (names : List Name)
    (moving : Moving) : Ledger × Moving :=
  let holding := l.holding device
  let taken := holding.taken (names.filter fun n => !moving.names.contains n)
  (l.modify device (Holding.without app (names.filter fun n => !moving.names.contains n)),
    { names
      slots := moving.slots ++ taken
      load := wrap (moving.load + Holding.demand app taken) })

/-- Puts everything that is moving on a device. -/
def settle (l : Ledger) (device : DeviceId) (moving : Moving) : Ledger :=
  l.modify device fun h =>
    { load := wrap (h.load + moving.load), slots := h.slots ++ moving.slots }

end Moving

namespace PlacementSetting

/-- Goes up from a device until one can take the whole load, at most `steps` devices far. -/
def lift (s : PlacementSetting) (app : Application) :
    (steps : Nat) → (current : DeviceId) → Ledger → Moving → Option Ledger
  | 0, _, _, _ => none
  | steps + 1, current, l, moving =>
    if current = s.root then none
    else
      match s.layout.parent? current with
      | none => none
      | some parent =>
        if !l.contains parent then none
        else if wrap (l.load parent + moving.load) ≤ s.free.freeCpu parent then
          some (moving.settle l parent)
        else
          -- Too full: what is fed here leaves together with what came from below.
          let names := app.closeUp (l.hosts parent) moving.names
          let (l, moving) := moving.collect app l parent names
          s.lift app steps parent l moving

/--
Moves a microservice with all that depends on it, and one new slot, from a device towards the root.
Without a device that can take them there is no new ledger.
-/
def shift (s : PlacementSetting) (app : Application) (l : Ledger) (slot : Slot)
    (device : DeviceId) : Option Ledger :=
  let names := app.closeUp (l.hosts device) [slot.microservice]
  let (l, moving) := Moving.collect app l device names ⟨[], [], 0⟩
  -- The slot that found no room is not on the device, so it is added to what was taken off.
  s.lift app s.domain.length device l
    { moving with
      slots := moving.slots ++ [slot]
      load := wrap (moving.load + app.mipsOf slot.microservice) }

end PlacementSetting

end FogNet
