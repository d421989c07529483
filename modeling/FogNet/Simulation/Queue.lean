import FogNet.Event
import FogNet.SortedMap

/-!
# The queue of what is to come

All that is scheduled, in the order in which it will happen: by time, at one time by priority, then
by device, and at last in the order in which it was scheduled. The number of the scheduling makes
every key new, so nothing replaces anything.

## Main statements

* `Key.lt_time` — what comes first is not later
* `Key.compare_eq_lt_of_sequence` — what is scheduled first comes first, if all else is equal
-/

namespace FogNet

/-! ## Keys -/

/-- The place of a task in the queue. -/
structure Key where
  time : Duration
  priority : Priority
  device : DeviceId
  /-- How many tasks had been scheduled, this one included. -/
  sequence : Nat
  deriving DecidableEq, Repr

namespace Key

/-- By time, priority, device and sequence. -/
def order : Key → Key → Ordering :=
  compareLex (compareOn Key.time)
    (compareLex (compareOn Key.priority)
      (compareLex (compareOn Key.device) (compareOn Key.sequence)))

instance : Ord Key := ⟨order⟩

instance : Std.TransOrd Key := inferInstanceAs (Std.TransCmp (compareLex (compareOn Key.time)
    (compareLex (compareOn Key.priority)
      (compareLex (compareOn Key.device) (compareOn Key.sequence)))))

instance : Std.LawfulEqOrd Key where
  eq_of_compare {a b} h := by
    change order a b = .eq at h
    simp only [order, compareLex_eq_eq] at h
    obtain ⟨ht, hp, hd, hs⟩ := h
    have ht := Std.LawfulEqOrd.eq_of_compare (show compare a.time b.time = .eq from ht)
    have hp := Std.LawfulEqOrd.eq_of_compare (show compare a.priority b.priority = .eq from hp)
    have hd := Std.LawfulEqOrd.eq_of_compare (show compare a.device b.device = .eq from hd)
    have hs := Std.LawfulEqOrd.eq_of_compare (show compare a.sequence b.sequence = .eq from hs)
    cases a; cases b; simp_all

/-- What comes first is not later. -/
theorem lt_time {a b : Key} (h : compare a b = .lt) : a.time ≤ b.time := by
  change (compare a.time b.time).then _ = .lt at h
  rcases Nat.lt_trichotomy a.time b.time with hlt | heq | hgt
  · exact Nat.le_of_lt hlt
  · exact Nat.le_of_eq heq
  · rw [Nat.compare_eq_gt.mpr hgt] at h
    simp [Ordering.then] at h

/-- What is scheduled first comes first, if all else is equal. -/
theorem compare_eq_lt_of_sequence {a b : Key} (ht : a.time = b.time) (hp : a.priority = b.priority)
    (hd : a.device = b.device) (hs : a.sequence < b.sequence) : compare a b = .lt := by
  have he {α : Type} [Ord α] [Std.ReflOrd α] {x y : α} (h : x = y) : compare x y = .eq := by
    subst h; exact Std.ReflCmp.compare_self
  change (compare a.time b.time).then ((compare a.priority b.priority).then
    ((compare a.device b.device).then (compare a.sequence b.sequence))) = .lt
  rw [he ht, he hp, he hd, Nat.compare_eq_lt.mpr hs]
  rfl

end Key

/-! ## Tasks -/

/-- What can be scheduled. -/
inductive Task where
  /-- Something happens to the device of the key. -/
  | device (event : Event)
  /-- The interval of a sensor is over. -/
  | sensorTick (sensor : SensorId)
  /-- An instance has processed a message. -/
  | executionCompleted (target : InstanceId) (message : Message)

namespace Task

def priority : Task → Priority
  | device event => event.priority
  | sensorTick _ => .client
  | executionCompleted _ _ => .internal

end Task

/-- What is scheduled, first things first. -/
abbrev Queue := SortedMap Key Task

end FogNet
