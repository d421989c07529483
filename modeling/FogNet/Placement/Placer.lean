import FogNet.Placement.Edgeward

/-!
# Placers

A placer applies a strategy to one batch after another. It keeps the ledger of the batch that it
placed last until the batch is settled with the snapshot it was placed from.

## Main statements

* `isIdle_iff`, `load_of_isIdle` — an idle placer keeps no books, and so it holds no load
-/

namespace FogNet

/-- A strategy, with the books of the batch that it placed last. -/
structure Placer where
  strategy : Strategy
  ledger : Ledger := SortedMap.empty

namespace Placer

/-- The CPU that the last batch took on a device. -/
def load (p : Placer) (device : DeviceId) : Nat := p.ledger.load device

/-- Whether no books are kept. -/
def isIdle (p : Placer) : Bool := p.ledger.isEmpty

/-- Places a batch. The books of an earlier one are closed, settled or not. -/
def place (p : Placer) (s : PlacementSetting) (requests : List Request) :
    PlacementResult × Placer :=
  let result := p.strategy.run s requests
  (result, { p with ledger := result.ledger })

/-- Takes what the batch took from what the devices have left, and closes the books. -/
def settle (p : Placer) (free : Snapshot) : Snapshot × Placer :=
  (p.ledger.commit free, { p with ledger := SortedMap.empty })

theorem isIdle_iff {p : Placer} : p.isIdle = true ↔ p.ledger = SortedMap.empty := by
  rw [isIdle, SortedMap.isEmpty, List.isEmpty_iff]
  constructor
  · intro h
    refine SortedMap.ext_get? fun d => ?_
    rw [SortedMap.get?, h]
    rfl
  · rintro h
    rw [h]
    rfl

/-- An idle placer holds no load. -/
theorem load_of_isIdle {p : Placer} (h : p.isIdle = true) (device : DeviceId) :
    p.load device = 0 := by
  rw [load, isIdle_iff.mp h]
  rfl

end Placer

end FogNet
