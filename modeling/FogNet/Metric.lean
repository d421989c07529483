import FogNet.Duration

/-!
# Measurements

What a device or the simulation measures while it works. A measurement only reports; nothing that
is computed depends on it. `Recorded` is a value together with the measurements taken on the way to
it. There is no value when a duration on the way left its range, but the measurements taken before
still count.

## Main statements

* `metrics_bind` — measurements are kept in the order in which they are taken
* `value_bind` — a computation goes on only with a value
* `bind_some_cases` — the steps of a computation that has a value
-/

namespace FogNet

/-- One measurement. -/
inductive Metric where
  /-- A message was put on a link. -/
  | messageTransmitted (link : String) (bytes : Nat)
  /-- A message of a size goes over a link with a latency in seconds. -/
  | networkUsage (seconds : Float) (bytes : Nat)
  | messageDropped (reason : String)
  /-- A message reached the cloud. -/
  | cloudTraffic
  /-- A placement cycle placed some requests and left some pending. -/
  | placementCycle (placed pending : Nat)
  /-- Nothing towards the root could take what had to move there. -/
  | shiftFailure
  | instanceLaunched (microservice : String)
  /-- A device learned of a host. -/
  | discoveryUpdate
  /-- A message was executed for some seconds. -/
  | execution (tupleType : String) (seconds : Float)
  /-- A message closed a loop some seconds after the sensor message it descends from. -/
  | loopLatency (loop : Nat) (seconds : Float)
  deriving DecidableEq

/-- A value with the measurements that were taken on the way to it. -/
structure Recorded (α : Type) where
  /-- In the order in which they were taken. -/
  metrics : List Metric
  /-- None when a duration left its range. -/
  value : Option α

namespace Recorded

variable {α β γ : Type}

@[inline] def bind (r : Recorded α) (f : α → Recorded β) : Recorded β :=
  match r.value with
  | none => ⟨r.metrics, none⟩
  | some a => ⟨r.metrics ++ (f a).metrics, (f a).value⟩

instance : Monad Recorded where
  pure a := ⟨[], some a⟩
  bind := bind

/-- Takes a measurement. -/
def record (m : Metric) : Recorded Unit := ⟨[m], some ()⟩

/-- Takes several measurements. -/
def recordAll (ms : List Metric) : Recorded Unit := ⟨ms, some ()⟩

/-- A value that may be out of range. -/
def ofOption (a : Option α) : Recorded α := ⟨[], a⟩

@[simp] theorem metrics_pure (a : α) : (pure a : Recorded α).metrics = [] := rfl

@[simp] theorem value_pure (a : α) : (pure a : Recorded α).value = some a := rfl

@[simp] theorem metrics_record (m : Metric) : (record m).metrics = [m] := rfl

@[simp] theorem value_record (m : Metric) : (record m).value = some () := rfl

@[simp] theorem metrics_recordAll (ms : List Metric) : (recordAll ms).metrics = ms := rfl

@[simp] theorem value_recordAll (ms : List Metric) : (recordAll ms).value = some () := rfl

/-- Measurements are kept in the order in which they are taken. -/
theorem metrics_bind (r : Recorded α) (f : α → Recorded β) :
    (r >>= f).metrics = r.metrics ++ (r.value.elim [] fun a => (f a).metrics) := by
  change (bind r f).metrics = _
  unfold bind
  cases r.value <;> simp

/-- A computation goes on only with a value. -/
theorem value_bind (r : Recorded α) (f : α → Recorded β) :
    (r >>= f).value = r.value.bind fun a => (f a).value := by
  change (bind r f).value = _
  unfold bind
  cases r.value <;> rfl

/-- What has a value had one at every step, and was measured at each of them. -/
theorem bind_some_cases {r : Recorded α} {f : α → Recorded β} {b : β}
    (h : (r >>= f).value = some b) : ∃ a, r.value = some a ∧ (f a).value = some b
      ∧ (r >>= f).metrics = r.metrics ++ (f a).metrics := by
  rw [value_bind, Option.bind_eq_some_iff] at h
  obtain ⟨a, hr, hf⟩ := h
  refine ⟨a, hr, hf, ?_⟩
  rw [metrics_bind, hr, Option.elim_some]

/-- To put a result together is no step of its own. -/
theorem bind_pure_cases {r : Recorded α} {f : α → β} {b : β}
    (h : (r >>= fun a => pure (f a)).value = some b) : ∃ a, r.value = some a ∧ f a = b
      ∧ (r >>= fun a => pure (f a)).metrics = r.metrics := by
  obtain ⟨a, hr, hf, hmetrics⟩ := bind_some_cases h
  refine ⟨a, hr, Option.some.inj hf, ?_⟩
  rw [hmetrics, metrics_pure, List.append_nil]

@[ext] theorem ext {r s : Recorded α} (hm : r.metrics = s.metrics) (hv : r.value = s.value) :
    r = s := by
  cases r; cases s; simp_all

instance : LawfulMonad Recorded := LawfulMonad.mk' Recorded
  (by
    intro α r
    ext1
    · change (bind r _).metrics = _
      unfold bind
      cases h : r.value <;> simp
    · change (bind r _).value = _
      unfold bind
      cases h : r.value <;> simp)
  (by
    intro α β a f
    ext1
    · simp [metrics_bind]
    · simp [value_bind])
  (by
    intro α β γ r f g
    ext1
    · rw [metrics_bind, metrics_bind, metrics_bind, value_bind]
      cases h : r.value with
      | none => simp
      | some a => simp [metrics_bind]
    · rw [value_bind, value_bind, value_bind]
      cases h : r.value with
      | none => simp
      | some a => simp [value_bind])

end Recorded

end FogNet
