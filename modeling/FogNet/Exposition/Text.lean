import FogNet.Exposition.Registry
import FogNet.Number.Shortest

/-!
# The text exposition of a registry

A registry is written as lines of text: families of samples, sorted by name, each with a line of
help and a line that tells its type. A sample may have labels. Families whose samples have labels
are written only with samples.

## Main statements

* `escape_plain` — what holds no backslash, quote or newline is written as it is
-/

namespace FogNet

namespace Exposition

/-! ## Samples -/

/-- The characters of a label value between its quotes. -/
def escapeChar (c : Char) : List Char :=
  if c = '\\' then ['\\', '\\']
  else if c = '"' then ['\\', '"']
  else if c = '\n' then ['\\', 'n']
  else [c]

/-- A label value without its quotes. -/
def escape (value : String) : String := String.ofList (value.toList.flatMap escapeChar)

theorem flatMap_escapeChar : ∀ {l : List Char}, (∀ c ∈ l, c ≠ '\\' ∧ c ≠ '"' ∧ c ≠ '\n') →
    l.flatMap escapeChar = l
  | [], _ => rfl
  | c :: l, h => by
    obtain ⟨h1, h2, h3⟩ := h c List.mem_cons_self
    rw [List.flatMap_cons, flatMap_escapeChar fun x hx => h x (List.mem_cons_of_mem _ hx)]
    simp [escapeChar, h1, h2, h3]

/-- What holds no backslash, quote or newline is written as it is. -/
theorem escape_plain {value : String}
    (h : ∀ c ∈ value.toList, c ≠ '\\' ∧ c ≠ '"' ∧ c ≠ '\n') : escape value = value := by
  rw [escape, flatMap_escapeChar h, String.ofList_toList]

/-- A label with its value. -/
abbrev Label := String × String

def labelText (l : Label) : String := l.1 ++ "=\"" ++ escape l.2 ++ "\""

/-- Labels in braces, or nothing without labels. -/
def labelsText (labels : List Label) : String :=
  if labels.isEmpty then "" else "\x7b" ++ String.intercalate "," (labels.map labelText) ++ "\x7d"

/-- One line: name, labels and value. -/
def sample (name : String) (labels : List Label) (value : String) : String :=
  name ++ labelsText labels ++ " " ++ value

/-- The lines of a histogram: the buckets, the last one without bound, the sum and the count. -/
def histogramSamples (name : String) (labels : List Label) (h : Histogram) : List String :=
  (h.buckets.map fun (bound, n) =>
      sample (name ++ "_bucket") (labels ++ [("le", Number.shortest bound)]) (toString n))
    ++ [sample (name ++ "_bucket") (labels ++ [("le", "+Inf")]) (toString h.count),
      sample (name ++ "_sum") labels (Number.shortest h.sum),
      sample (name ++ "_count") labels (toString h.count)]

/-! ## Families -/

/-- Samples of one name. -/
structure Family where
  name : String
  help : String
  kind : String
  samples : List String

namespace Family

def counter (name help value : String) : Family :=
  { name, help, kind := "counter", samples := [sample name [] value] }

/-- A counter for each value of a label. -/
def counters {α : Type} (name help label : String) (text : α → String)
    (values : SortedMap String α) : Family :=
  { name, help, kind := "counter"
    samples := values.entries.map fun (value, n) => sample name [(label, value)] (text n) }

def histogram (name help : String) (h : Histogram) : Family :=
  { name, help, kind := "histogram", samples := histogramSamples name [] h }

/-- A histogram for each value of a label. -/
def histograms (name help label : String) (values : SortedMap String Histogram) : Family :=
  { name, help, kind := "histogram"
    samples := values.entries.flatMap fun (value, h) => histogramSamples name [(label, value)] h }

/-- The lines of a family; without samples there are none. -/
def lines (f : Family) : List String :=
  if f.samples.isEmpty then []
  else ("# HELP " ++ f.name ++ " " ++ f.help) :: ("# TYPE " ++ f.name ++ " " ++ f.kind) :: f.samples

end Family

/-- The families of a registry, sorted by name. -/
def families (r : Registry) : List Family :=
  [.counter "fogmesh_cloud_traffic_total" "Messages arriving at a cloud device"
      (toString r.cloudTraffic),
    .counter "fogmesh_discovery_updates_total" "Service discovery entries appended"
      (toString r.discoveryUpdates),
    .histograms "fogmesh_execution_cpu_seconds"
      "CPU time spent executing a message, by tuple type" "tuple_type" r.execution,
    .counters "fogmesh_instances_launched_total" "Microservice instances launched, by microservice"
      "microservice" toString r.instancesLaunched,
    .histograms "fogmesh_loop_latency_seconds" "End-to-end application loop latency" "loop"
      r.loopLatency,
    .counters "fogmesh_messages_dropped_total" "Dropped messages, by reason" "reason" toString
      r.messagesDropped,
    .counters "fogmesh_messages_transmitted_total" "Messages put on a link, by link class" "link"
      toString r.messagesTransmitted,
    .counter "fogmesh_network_usage_total"
      "Sum of latency (s) times size (bytes) over all transmissions"
      (Number.shortest r.networkUsage),
    .counter "fogmesh_placement_cycles_total" "Placement cycles that ran over a non-empty queue"
      (toString r.placementCycles),
    .histogram "fogmesh_placement_requests_pending" "Requests left queued after a placement cycle"
      r.requestsPending,
    .counter "fogmesh_placement_requests_placed_total" "Placement requests fully placed"
      (Number.shortest r.requestsPlaced),
    .counter "fogmesh_shift_failures_total" "Shift-upstream attempts that reached the domain root"
      (toString r.shiftFailures),
    .counters "fogmesh_transmitted_bytes_total" "Bytes put on a link, by link class" "link"
      Number.shortest r.bytesTransmitted]

/-- The lines of the exposition of a registry. -/
def lines (r : Registry) : List String := (families r).flatMap Family.lines

end Exposition

end FogNet
