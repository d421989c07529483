import FogNet.Metric
import FogNet.SortedMap

/-!
# Registries of measurements

A registry sums up measurements: it counts what happens, adds up amounts, and sorts durations and
queue lengths into buckets. Where the measurements of one kind are told apart by a label, there is
one sum for each label that was seen.

## Main statements

* `Histogram.observe_count` — every observation counts, whatever its value
* `ofMetrics_append` — measurements are summed up one after another
-/

namespace FogNet

/-! ## Histograms -/

/-- How many of the observed values lie under each of some bounds. -/
structure Histogram where
  /-- The bounds, ascending, each with the number of values not above it. -/
  buckets : List (Float × Nat)
  sum : Float := 0.0
  count : Nat := 0

namespace Histogram

/-- The histogram for some bounds before any observation. -/
def ofBounds (bounds : List Float) : Histogram := { buckets := bounds.map fun b => (b, 0) }

def observe (h : Histogram) (value : Float) : Histogram :=
  { buckets := h.buckets.map fun (bound, n) => (bound, if value ≤ bound then n + 1 else n)
    sum := h.sum + value
    count := h.count + 1 }

/-- Every observation counts, whatever its value. -/
@[simp] theorem observe_count (h : Histogram) (value : Float) :
    (h.observe value).count = h.count + 1 := rfl

/-- The bounds for durations, in seconds. -/
def secondsBounds : List Float :=
  [0.001, 0.005, 0.01, 0.025, 0.05, 0.1, 0.25, 0.5, 1.0, 2.5, 5.0, 10.0, 30.0, 60.0]

/-- The bounds for the length of a queue. -/
def lengthBounds : List Float := [0.0, 1.0, 2.0, 5.0, 10.0, 25.0, 50.0, 100.0]

end Histogram

/-! ## Registries -/

structure Registry where
  /-- By class of links. -/
  messagesTransmitted : SortedMap String Nat := SortedMap.empty
  /-- By class of links. -/
  bytesTransmitted : SortedMap String Float := SortedMap.empty
  networkUsage : Float := 0.0
  /-- By reason. -/
  messagesDropped : SortedMap String Nat := SortedMap.empty
  cloudTraffic : Nat := 0
  placementCycles : Nat := 0
  requestsPlaced : Float := 0.0
  requestsPending : Histogram := .ofBounds Histogram.lengthBounds
  shiftFailures : Nat := 0
  /-- By microservice. -/
  instancesLaunched : SortedMap String Nat := SortedMap.empty
  discoveryUpdates : Nat := 0
  /-- By tuple type. -/
  execution : SortedMap String Histogram := SortedMap.empty
  /-- By the number of the loop. -/
  loopLatency : SortedMap String Histogram := SortedMap.empty

namespace Registry

/-- Counts one more under a label. -/
def countUnder (m : SortedMap String Nat) (label : String) : SortedMap String Nat :=
  m.upsert label 0 fun n => n + 1

/-- Observes some seconds under a label. -/
def observeUnder (m : SortedMap String Histogram) (label : String) (seconds : Float) :
    SortedMap String Histogram :=
  m.upsert label (.ofBounds Histogram.secondsBounds) fun h => h.observe seconds

/-- Sums up one measurement. -/
def record (r : Registry) : Metric → Registry
  | .messageTransmitted link bytes =>
    { r with
      messagesTransmitted := countUnder r.messagesTransmitted link
      bytesTransmitted := r.bytesTransmitted.upsert link 0.0 fun n => n + Float.ofNat bytes }
  | .networkUsage seconds bytes =>
    { r with networkUsage := r.networkUsage + seconds * Float.ofNat bytes }
  | .messageDropped reason => { r with messagesDropped := countUnder r.messagesDropped reason }
  | .cloudTraffic => { r with cloudTraffic := r.cloudTraffic + 1 }
  | .placementCycle placed pending =>
    { r with
      placementCycles := r.placementCycles + 1
      requestsPlaced := r.requestsPlaced + Float.ofNat placed
      requestsPending := r.requestsPending.observe (Float.ofNat pending) }
  | .shiftFailure => { r with shiftFailures := r.shiftFailures + 1 }
  | .instanceLaunched microservice =>
    { r with instancesLaunched := countUnder r.instancesLaunched microservice }
  | .discoveryUpdate => { r with discoveryUpdates := r.discoveryUpdates + 1 }
  | .execution tupleType seconds =>
    { r with execution := observeUnder r.execution tupleType seconds }
  | .loopLatency loop seconds =>
    { r with loopLatency := observeUnder r.loopLatency (toString loop) seconds }

/-- Sums up measurements in their order. -/
def ofMetrics (ms : List Metric) : Registry := ms.foldl record {}

/-- Measurements are summed up one after another. -/
theorem ofMetrics_append (ms : List Metric) (m : Metric) :
    ofMetrics (ms ++ [m]) = (ofMetrics ms).record m := by
  simp [ofMetrics]

end Registry

end FogNet
