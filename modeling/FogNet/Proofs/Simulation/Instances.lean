import FogNet.Proofs.Machine.Effects
import FogNet.Proofs.Simulation.Messages
import FogNet.Proofs.Simulation.Scheduling

/-!
# Instances stay

Nothing ends an instance. Whatever a simulation does, what runs on a device still runs there
afterwards, under the same number. Setup does even less: it leaves alone all of a machine that has
to do with messages and hosts.

## Main statements

* `addSensor_still`, `addActuator_still` — what setup leaves alone
* `happen_grows`, `process_grows` — a step ends no instance
* `invariant_of_ran` — what setup, the start and all steps keep holds in every reached simulation
-/

namespace FogNet

namespace Simulation

variable {net : Network} {s s' : Simulation}

/-- An instance of a microservice runs on its device. -/
def Runs (s : Simulation) (app : AppId) (name : Name) (p : InstanceId) : Prop :=
  ∃ m, s.machine? p.device = some m ∧ p ∈ m.deployment.instancesOf app name

/-- What runs in one simulation runs in the other. -/
def Grows (s s' : Simulation) : Prop := ∀ app name p, s.Runs app name p → s'.Runs app name p

theorem grows_of_machines (h : s'.machines = s.machines) : s.Grows s' := by
  rintro app name p ⟨m, hm, hp⟩
  exact ⟨m, by rw [machine?, h]; exact hm, hp⟩

theorem Grows.trans {s₁ s₂ s₃ : Simulation} (h : s₁.Grows s₂) (h' : s₂.Grows s₃) : s₁.Grows s₃ :=
  fun app name p hp => h' app name p (h app name p hp)

/-- A machine may change as long as its instances stay. -/
theorem grows_insert {d : DeviceId} {m m' : Machine} (hm : s.machine? d = some m)
    (h : ∀ app name, m.deployment.instancesOf app name ⊆ m'.deployment.instancesOf app name) :
    s.Grows { s with machines := s.machines.insert d m' } := by
  rintro app name p ⟨m₁, hm₁, hp⟩
  by_cases hd : p.device = d
  · rw [hd, hm, Option.some.injEq] at hm₁
    rw [← hm₁] at hp
    refine ⟨m', ?_, h app name hp⟩
    rw [machine?, hd, SortedMap.get?_insert_self]
  · refine ⟨m₁, ?_, hp⟩
    rw [machine?, SortedMap.get?_insert_ne _ _ hd]
    exact hm₁

theorem registerClient_instances {m m' : Machine} {app : AppId}
    (h : m.registerClient net app = .ok m') (app' : AppId) (name : Name) :
    m.deployment.instancesOf app' name ⊆ m'.deployment.instancesOf app' name := by
  obtain ⟨_, _, _, hd, rfl⟩ := Machine.registerClient_ok_cases h
  rw [Deployment.registerClient_ok hd]
  exact fun _ hp => hp

/-! ## Setup -/

/-- Nothing is scheduled, and machines keep their links, hosts, orchestrators and instances. -/
structure Still (s s' : Simulation) : Prop where
  queue : ∀ e ∈ s'.queue.entries, e ∈ s.queue.entries
  machine : ∀ d m', s'.machine? d = some m' → ∃ m, s.machine? d = some m
    ∧ m'.outbound = m.outbound ∧ m'.directory = m.directory ∧ m'.orchestrator = m.orchestrator
  grows : s.Grows s'

theorem still_of_machines (hqueue : ∀ e ∈ s'.queue.entries, e ∈ s.queue.entries)
    (hmachines : s'.machines = s.machines) : s.Still s' where
  queue := hqueue
  machine d m' hm := by
    rw [machine?, hmachines] at hm
    exact ⟨m', hm, rfl, rfl, rfl⟩
  grows := grows_of_machines hmachines

theorem take_still {key : Key} {task : Task} (hq : s.queue.first? = some (key, task)) :
    s.Still (s.take key task) := by
  refine still_of_machines (fun e he => ?_) rfl
  rw [Queue.entries_of_first hq]
  exact List.mem_cons_of_mem _ he

/-- A machine may change in what it is equipped with. -/
theorem still_insert {g : DeviceId} {m m' : Machine} (hm : s.machine? g = some m)
    (hmachines : s'.machines = s.machines.insert g m') (hqueue : s'.queue = s.queue)
    (houtbound : m'.outbound = m.outbound) (hdirectory : m'.directory = m.directory)
    (horchestrator : m'.orchestrator = m.orchestrator)
    (hinstances : ∀ app name,
      m.deployment.instancesOf app name ⊆ m'.deployment.instancesOf app name) : s.Still s' where
  queue e he := by
    rw [← hqueue]
    exact he
  machine d m₁ hm₁ := by
    rw [machine?, hmachines, SortedMap.get?_insert] at hm₁
    split at hm₁
    · next hd =>
      rw [← Option.some.inj hm₁, hd]
      exact ⟨m, hm, houtbound, hdirectory, horchestrator⟩
    · exact ⟨m₁, hm₁, rfl, rfl, rfl⟩
  grows := (grows_insert hm hinstances).trans (grows_of_machines hmachines)

theorem addSensor_still {sensor : Sensor} (h : s.addSensor sensor = .ok s') : s.Still s' := by
  obtain ⟨m, m', hplace, hregister, rfl⟩ := addSensor_ok_cases h
  obtain ⟨_, hm⟩ := placeForSensor_ok_cases hplace
  have hinstances := registerClient_instances hregister
  obtain ⟨_, _, _, _, rfl⟩ := Machine.registerClient_ok_cases hregister
  exact still_insert hm rfl rfl rfl rfl rfl hinstances

theorem addActuator_still {actuator : Actuator} (h : s.addActuator actuator = .ok s') :
    s.Still s' := by
  obtain ⟨_, _, m, hm, rfl⟩ := addActuator_ok_cases h
  exact still_insert hm rfl rfl rfl rfl rfl fun _ _ _ hp => hp

/-! ## Steps -/

theorem happen_grows {device : DeviceId} {event : Event} (h : s.happen device event = .ok s') :
    s.Grows s' := by
  rcases happen_books h with ⟨_, rfl⟩ | ⟨m, _, m', hm, hv, hbooks⟩
  · exact grows_of_machines rfl
  · have heffect := Machine.effect_of_handle hv
    have hinsert : s.Grows { s with machines := s.machines.insert device m' } :=
      grows_insert hm fun app name => Machine.instances_of_effect heffect app name
    exact hinsert.trans (grows_of_machines hbooks.machines)

theorem process_grows {key : Key} {task : Task} (h : s.process key task = .ok s') : s.Grows s' := by
  cases task with
  | device event => exact happen_grows h
  | sensorTick id =>
    obtain ⟨_, hbooks, _⟩ := tick_books h
    exact grows_of_machines hbooks.machines
  | executionCompleted target message =>
    rw [← Except.ok.inj h]
    exact grows_of_machines (complete_books s target message).machines

/-! ## Runs -/

/--
A property of reached simulations: it holds at first, and setup, the start and all steps keep it.
Setup touches no task and no message, and the start schedules only what opens a simulation.
-/
theorem invariant_of_ran {seed : UInt64} {history : List Step}
    {P : List Step → Simulation → Prop} (h : Ran net seed history s)
    (hcreate : P [] (create net seed))
    (hstill : ∀ {history : List Step} {s s' : Simulation}, P history s → s.Still s' →
      s'.queue = s.queue → s'.lastMessage = s.lastMessage → P history s')
    (hstart : ∀ {history : List Step} {s s' : Simulation} {bookings : List Booking},
      Ran net seed history s → s.start = .ok s' → P history { s with started := true } →
        Books { s with started := true } s' bookings → (∀ b ∈ bookings, s.Opening b) →
          P history s')
    (hstep : ∀ {history : List Step} {s s' : Simulation} {key : Key} {task : Task},
      Ran net seed history s → P history s → s.queue.first? = some (key, task) →
        (s.take key task).process key task = .ok s' → P (history ++ [⟨s, key, task⟩]) s') :
    P history s := by
  induction h with
  | create => exact hcreate
  | sensor _ hs ih =>
    have hsame := addSensor_still hs
    obtain ⟨_, _, _, _, rfl⟩ := addSensor_ok_cases hs
    exact hstill ih hsame rfl rfl
  | actuator _ hs ih =>
    have hsame := addActuator_still hs
    obtain ⟨_, _, _, _, rfl⟩ := addActuator_ok_cases hs
    exact hstill ih hsame rfl rfl
  | @start history s s' h hs ih =>
    obtain ⟨bookings, hbooks, hopening⟩ := start_books hs
    have hstarted : P history { s with started := true } :=
      hstill ih (still_of_machines (fun _ he => he) rfl) rfl rfl
    exact hstart h hs hstarted hbooks hopening
  | step h hq hp ih => exact hstep h ih hq hp
  | @settle history s stop _ ih =>
    exact hstill ih (still_of_machines (fun _ he => he) rfl) rfl rfl

end Simulation

end FogNet
