import FogNet.Proofs.Machine.Launches
import FogNet.Proofs.Simulation.Agenda
import FogNet.Proofs.Simulation.Range
import FogNet.Proofs.Topology.Nearest
import Mathlib.Data.List.Forall2

/-!
# Which sensors are accepted

A sensor is checked by the simulation, by the machine of its gateway and by the deployment there,
and the last check comes together with the first change. Here setup is done in place, so what was
changed before a sensor is refused would stay; nothing was. A deployment keeps in mind for which
applications it registered a client module, whatever happens to the module, so no two accepted
sensors have the same gateway and application.

## Main statements

* `attachSensor_eq` — setup in place
* `addSensor_ok_iff` — which sensors are accepted
* `invariant_attached` — what devices keep in mind about sensors, whatever is called
* `sensors_accepted` — the sensors that were accepted, and what the start submits for them
-/

namespace FogNet

open List (Perm)
open Relation

/-! ## Setup in place -/

/-- What is left in place of a state: the new one, or the old one where a change is refused. -/
def leave {ε σ : Type} (r : Except ε σ) (s : σ) : EStateM.Result ε σ Unit :=
  match r with
  | .ok s' => .ok () s'
  | .error e => .error e s

/-- Works on a part of a state. What became of the part is put back, even if work is given up. -/
def onPart {ε ε' σ τ : Type} (part : τ) (put : σ → τ → σ) (wrap : ε → ε')
    (work : EStateM ε τ Unit) : EStateM ε' σ Unit := fun s =>
  match work part with
  | .ok () t => .ok () (put s t)
  | .error e t => .error (wrap e) (put s t)

namespace Deployment

/-- Registers a client module in place. -/
def claim (app : AppId) (module : Name) : EStateM NodeError Deployment Unit := do
  let d ← get
  if d.claims app then throw (.duplicateClientModule d.device app)
  else set { d with pendingClients := d.pendingClients.insert app module }

theorem claim_eq (d : Deployment) (app : AppId) (module : Name) :
    claim app module d = leave (d.registerClient app module) d := by
  have hrun : claim app module d = (if d.claims app then throw (.duplicateClientModule d.device app)
      else set { d with pendingClients := d.pendingClients.insert app module } :
        EStateM NodeError Deployment Unit) d := rfl
  rw [hrun, registerClient_eq]
  split <;> rfl

end Deployment

namespace Machine

variable {net : Network} {m m' : Machine} {app : AppId}

/-- Registers the client module of an application in place. -/
def claim (net : Network) (app : AppId) : EStateM NodeError Machine Unit := do
  let m ← get
  match net.application? app with
  | none => throw (.unknownApplication app)
  | some a =>
    onPart m.deployment (fun m deployment => { m with deployment }) (fun e => e)
      (Deployment.claim app a.clientModule)

theorem claim_eq (net : Network) (m : Machine) (app : AppId) :
    claim net app m = leave (m.registerClient net app) m := by
  have hrun : claim net app m = (match net.application? app with
      | none => throw (.unknownApplication app)
      | some a => onPart m.deployment (fun m deployment => { m with deployment }) (fun e => e)
          (Deployment.claim app a.clientModule) : EStateM NodeError Machine Unit) m := rfl
  rw [hrun, registerClient]
  cases net.application? app with
  | none => rfl
  | some a =>
    simp only [onPart, Deployment.claim_eq]
    cases m.deployment.registerClient app a.clientModule <;> rfl

theorem registerClient_ok_iff :
    (∃ m', m.registerClient net app = .ok m')
      ↔ (∃ a, net.application? app = some a) ∧ m.deployment.claims app = false := by
  unfold registerClient
  cases net.application? app with
  | none => simp
  | some a =>
    simp only [Deployment.registerClient_eq]
    cases m.deployment.claims app <;> simp [Except.map]

/-- No event makes a device forget that it registered a client module, or registers one. -/
theorem claims_of_effect {event : Event} {actions : List Action}
    (h : m.Effect net event actions m') (app : AppId) :
    m'.deployment.claims app = m.deployment.claims app := by
  cases h with
  | launched microservice _ => exact Deployment.claims_launch _ _ _ _
  | _ => rfl

end Machine

/-- Where a sensor is attached, and for which application. -/
def Sensor.place (x : Sensor) : DeviceId × AppId := (x.gateway, x.app)

namespace Simulation

variable {net : Network} {seed : UInt64} {s s' : Simulation} {l : Layout} {x : Sensor}

/-- Attaches a sensor in place. -/
def attachSensor (x : Sensor) : EStateM SetupError Simulation Unit := do
  let s ← get
  match s.placeForSensor x with
  | .error e => throw e
  | .ok gateway =>
    onPart gateway (fun s m => { s with machines := s.machines.insert x.gateway m }) .node
      (Machine.claim s.network x.app)
    modify fun s => { s with sensors := s.sensors.insert x.id x }

/-- Setup in place does the same: when a sensor is refused, all is as it was. -/
theorem attachSensor_eq (s : Simulation) (x : Sensor) :
    attachSensor x s = leave (s.addSensor x) s := by
  have hrun : attachSensor x s = (match s.placeForSensor x with
      | .error e => throw e
      | .ok gateway => do
        onPart gateway (fun s m => { s with machines := s.machines.insert x.gateway m }) .node
          (Machine.claim s.network x.app)
        modify fun s => { s with sensors := s.sensors.insert x.id x } :
          EStateM SetupError Simulation Unit) s := rfl
  rw [hrun, addSensor]
  cases hplace : s.placeForSensor x with
  | error e => rfl
  | ok gateway =>
    obtain ⟨_, hgateway⟩ := placeForSensor_ok_cases hplace
    have hmachines : s.machines.insert x.gateway gateway = s.machines :=
      SortedMap.insert_of_get? hgateway
    simp only [bind, EStateM.bind, onPart, Machine.claim_eq]
    cases gateway.registerClient s.network x.app with
    | ok gateway' => rfl
    | error e =>
      simp only [leave, hmachines]

/-! ## Which sensors are accepted -/

/-- What it takes for a sensor to be accepted. -/
structure Admits (s : Simulation) (x : Sensor) : Prop where
  unused : s.sensors.contains x.id = false
  interval : x.interval ≠ 0
  edge : ∃ app e, s.network.application? x.app = some app ∧ e ∈ app.edges ∧ e.kind = .sensor
    ∧ e.source = x.tupleType
  gateway : s.network.topology.contains x.gateway = true
  orchestrated : ∃ d, ReflTransGen s.network.topology.toLayout.Under x.gateway d
    ∧ s.network.topology.toLayout.IsOrchestrator d
  unclaimed : ∀ m, s.machine? x.gateway = some m → m.deployment.claims x.app = false

/-- What the simulation itself checks. -/
theorem placeForSensor_ok_iff {m : Machine} : s.placeForSensor x = .ok m
    ↔ s.sensors.contains x.id = false ∧ x.interval ≠ 0
      ∧ (∃ app, s.network.application? x.app = some app
        ∧ (app.sensorEdge? x.tupleType).isSome = true)
      ∧ s.machine? x.gateway = some m
      ∧ (s.network.topology.orchestratorFor x.gateway).isSome = true := by
  unfold placeForSensor
  cases s.sensors.contains x.id with
  | true => simp
  | false =>
    by_cases hinterval : x.interval = 0
    · simp [hinterval]
    cases s.network.application? x.app with
    | none => simp [hinterval]
    | some app =>
      cases hedge : app.sensorEdge? x.tupleType with
      | none => simp [hinterval, hedge]
      | some e =>
        cases s.machine? x.gateway with
        | none => simp [hinterval, hedge]
        | some gateway =>
          cases s.network.topology.orchestratorFor x.gateway <;> simp [hinterval, hedge]

/-- A sensor is accepted just when it passes the checks of the simulation and of its gateway. -/
theorem addSensor_ok_iff_place : (∃ s', s.addSensor x = .ok s')
    ↔ ∃ m, s.placeForSensor x = .ok m ∧ m.deployment.claims x.app = false := by
  unfold addSensor
  cases hplace : s.placeForSensor x with
  | error e => simp
  | ok m =>
    obtain ⟨_, _, ⟨app, happ, _⟩, _⟩ := placeForSensor_ok_iff.mp hplace
    have hregister : (∃ m', m.registerClient s.network x.app = .ok m') ↔ _ :=
      Machine.registerClient_ok_iff
    cases hr : m.registerClient s.network x.app with
    | error e =>
      rw [hr] at hregister
      have hno : ¬ m.deployment.claims x.app = false := fun hfree => by
        obtain ⟨_, he⟩ := hregister.mpr ⟨⟨app, happ⟩, hfree⟩
        cases he
      simpa [hr] using hno
    | ok m' =>
      have hfree := (hregister.mp ⟨m', hr⟩).2
      simp [hr, hfree]

theorem sensorEdge?_isSome_iff {app : Application} {tupleType : TupleType} :
    (app.sensorEdge? tupleType).isSome = true
      ↔ ∃ e ∈ app.edges, e.kind = .sensor ∧ e.source = tupleType := by
  simp [Application.sensorEdge?]

/-- Someone orchestrates a device just when an orchestrating device is above it. -/
theorem orchestratorFor_isSome_iff (hf : l.Forest) {d : DeviceId} (hd : d ∈ l.ids) :
    (l.orchestratorFor d).isSome = true
      ↔ ∃ root, ReflTransGen l.Under d root ∧ l.IsOrchestrator root := by
  have hnone := hf.orchestratorFor_eq_none_iff hd
  rw [Option.isSome_iff_ne_none, Ne, hnone]
  simp

/-- A sensor is accepted just when it has what it takes, if all devices have their machines. -/
theorem addSensor_ok_iff (hf : s.network.topology.toLayout.Forest)
    (hmachines : ∀ d, s.machines.contains d = s.network.topology.contains d) :
    (∃ s', s.addSensor x = .ok s') ↔ s.Admits x := by
  rw [addSensor_ok_iff_place]
  have hids {d : DeviceId} (hd : s.network.topology.contains d = true) :
      d ∈ s.network.topology.toLayout.ids := Layout.contains_iff.mp hd
  constructor
  · rintro ⟨m, hplace, hfree⟩
    obtain ⟨hunused, hinterval, ⟨app, happ, hedge⟩, hm, hroot⟩ := placeForSensor_ok_iff.mp hplace
    obtain ⟨e, he, hkind, hsource⟩ := sensorEdge?_isSome_iff.mp hedge
    have hgateway : s.network.topology.contains x.gateway = true := by
      rw [← hmachines, SortedMap.contains_eq, show s.machines.get? x.gateway = some m from hm]
      rfl
    refine ⟨hunused, hinterval, ⟨app, e, happ, he, hkind, hsource⟩, hgateway,
      (orchestratorFor_isSome_iff hf (hids hgateway)).mp hroot, fun m' hm' => ?_⟩
    rw [hm, Option.some.injEq] at hm'
    exact hm' ▸ hfree
  · intro h
    obtain ⟨app, e, happ, he, hkind, hsource⟩ := h.edge
    have hknown := h.gateway
    rw [← hmachines, SortedMap.contains_eq, Option.isSome_iff_exists] at hknown
    obtain ⟨m, hm⟩ := hknown
    exact ⟨m, placeForSensor_ok_iff.mpr ⟨h.unused, h.interval,
      ⟨app, happ, sensorEdge?_isSome_iff.mpr ⟨e, he, hkind, hsource⟩⟩, hm,
      (orchestratorFor_isSome_iff hf (hids h.gateway)).mpr h.orchestrated⟩, h.unclaimed m hm⟩

/-! ## What devices keep in mind -/

/-- The places of the sensors that are attached. -/
def places (s : Simulation) : List (DeviceId × AppId) := s.sensors.values.map Sensor.place

/--
All devices have their machines. A device claims a client module just for the applications of the
sensors that are attached to it, of which no two are for the same application, and which it can
serve.
-/
structure Attached (net : Network) (s : Simulation) : Prop where
  network : s.network = net
  machines : ∀ d, s.machines.contains d = net.topology.contains d
  claims : ∀ d m app, s.machine? d = some m →
    (m.deployment.claims app = true ↔ (d, app) ∈ s.places)
  distinct : s.places.Nodup
  served : ∀ x ∈ s.sensors.values, (∃ app, net.application? x.app = some app)
    ∧ ∃ root, net.topology.orchestratorFor x.gateway = some root

namespace Attached

theorem create (hb : Topology.build l = .ok net.topology) :
    (create net seed).Attached net where
  network := rfl
  machines d := by
    have hf : net.topology.toLayout.Forest := Layout.forest_of_build hb
    cases hd : net.topology.contains d with
    | true => exact (create_arranged hf).machines d hd
    | false =>
      -- A machine belongs to a device of the network.
      refine Bool.eq_false_iff.mpr fun hknown => ?_
      obtain ⟨m, hm⟩ := Option.isSome_iff_exists.mp hknown
      obtain ⟨dev, hdev, rfl, _⟩ := machine?_create hm
      rw [show net.topology.contains dev.id = (net.topology.device? dev.id).isSome from rfl,
        hf.device?_eq hdev] at hd
      cases hd
  claims d m app hm := by
    obtain ⟨dev, _, _, rfl⟩ := machine?_create hm
    exact iff_of_false Bool.false_ne_true List.not_mem_nil
  distinct := List.nodup_nil
  served _ hx := absurd hx List.not_mem_nil

theorem of_same (h : s.Attached net) (hnetwork : s'.network = s.network)
    (hmachines : s'.machines = s.machines) (hsensors : s'.sensors = s.sensors) :
    s'.Attached net where
  network := hnetwork.trans h.network
  machines := hmachines ▸ h.machines
  claims d m app hm := by
    rw [machine?, hmachines] at hm
    rw [places, hsensors]
    exact h.claims d m app hm
  distinct := by
    rw [places, hsensors]
    exact h.distinct
  served := hsensors ▸ h.served

/-- A machine may change as long as it claims for the same applications. -/
theorem insert (h : s.Attached net) {d : DeviceId} {m m' : Machine} (hm : s.machine? d = some m)
    (hclaims : ∀ app, m'.deployment.claims app = m.deployment.claims app) :
    Attached net { s with machines := s.machines.insert d m' } where
  network := h.network
  machines e := by
    rw [← h.machines e]
    exact SortedMap.contains_insert_of_get? hm m' e
  claims e m₁ app hm₁ := by
    rw [machine?, SortedMap.get?_insert] at hm₁
    split at hm₁
    · next he =>
      rw [← Option.some.inj hm₁, hclaims, he]
      exact h.claims d m app hm
    · exact h.claims e m₁ app hm₁
  distinct := h.distinct
  served := h.served

end Attached

/-- An accepted sensor comes to those that are attached. -/
theorem addSensor_entries (h : s.addSensor x = .ok s') :
    s'.sensors.entries.Perm ((x.id, x) :: s.sensors.entries) := by
  obtain ⟨m, _, hplace, _, rfl⟩ := addSensor_ok_cases h
  obtain ⟨hunused, _⟩ := placeForSensor_ok_cases hplace
  rw [SortedMap.contains_eq, Option.isSome_eq_false_iff, Option.isNone_iff_eq_none] at hunused
  exact SortedMap.entries_insert_new hunused x

/-- An accepted sensor claims a place that was free. -/
theorem Attached.addSensor (hs : s.Attached net) (h : s.addSensor x = .ok s') :
    s'.Attached net := by
  have hperm : s'.places.Perm (x.place :: s.places) :=
    ((addSensor_entries h).map Prod.snd).map Sensor.place
  have hvalues : s'.sensors.values.Perm (x :: s.sensors.values) :=
    (addSensor_entries h).map Prod.snd
  obtain ⟨m, m', hplace, hregister, rfl⟩ := addSensor_ok_cases h
  obtain ⟨_, _, ⟨app, happ, _⟩, hm, hroot⟩ := placeForSensor_ok_iff.mp hplace
  have hfree := (Machine.registerClient_ok_iff.mp ⟨m', hregister⟩).2
  obtain ⟨_, deployment, _, hregistered, rfl⟩ := Machine.registerClient_ok_cases hregister
  have hnew : x.place ∉ s.places := fun hmem => by
    rw [(hs.claims x.gateway m x.app hm).mpr hmem] at hfree
    cases hfree
  constructor
  · exact hs.network
  · intro e
    rw [← hs.machines e]
    exact SortedMap.contains_insert_of_get? hm _ e
  · intro e m₁ app' hm₁
    rw [hperm.mem_iff, List.mem_cons]
    rw [machine?, SortedMap.get?_insert] at hm₁
    split at hm₁
    · next he =>
      subst he
      rw [← Option.some.inj hm₁, Deployment.claims_registerClient hregistered,
        hs.claims x.gateway m app' hm]
      simp [Sensor.place]
    · next he =>
      rw [hs.claims e m₁ app' hm₁]
      simp [Sensor.place, he]
  · exact hperm.nodup_iff.mpr (List.nodup_cons.mpr ⟨hnew, hs.distinct⟩)
  · intro y hy
    rcases List.mem_cons.mp (hvalues.mem_iff.mp hy) with rfl | hy
    · rw [hs.network] at happ hroot
      exact ⟨⟨app, happ⟩, Option.isSome_iff_exists.mp hroot⟩
    · exact hs.served y hy

/-- Whatever is called, devices keep in mind which sensors are attached to them. -/
theorem invariant_attached (net : Network) : Invariant (Attached net) := by
  refine .of_setup (fun hs h => h.addSensor hs) (fun {_ _ actuator} hs h => ?_)
    (fun h hnetwork hmachines hsensors _ => h.of_same hnetwork hmachines hsensors)
    (fun h hm heffect => ?_)
  · obtain ⟨_, _, m, hm, rfl⟩ := addActuator_ok_cases hs
    have hclaims (app : AppId) : (m.attach ⟨actuator.id, actuator.app,
        actuator.actuatorType⟩).deployment.claims app = m.deployment.claims app := rfl
    exact (h.insert hm hclaims).of_same rfl rfl rfl
  · have hclaims := Machine.claims_of_effect heffect
    exact h.insert hm hclaims

/-! ## Accepted sensors -/

/-- The sensor that a call attaches. -/
def acceptedBy (s : Simulation) : Call → List Sensor
  | .addSensor x =>
    match s.addSensor x with
    | .ok _ => [x]
    | .error _ => []
  | _ => []

/-- The sensors that are accepted while calls are carried out. -/
def accepted : List Call → Simulation → List Sensor
  | [], _ => []
  | c :: calls, s => s.acceptedBy c ++
      match s.call c with
      | .error _ => []
      | .ok s => accepted calls s

/-- A run leaves the sensors as they are. -/
theorem sensors_of_runUntil {stop : Duration} {budget : Nat}
    (h : (s.runUntil stop budget).left = .ok s') : s'.sensors = s.sensors := by
  rw [runUntil] at h
  cases hstart : s.start with
  | error left => rw [hstart] at h; exact absurd h (by simp [Outcome.left])
  | ok s₁ =>
    rw [hstart] at h
    exact advance_keeps (P := fun s' => s'.sensors = s.sensors)
      (fun _ hp hsame => (process_sameSetup hp).2.trans hsame) (fun _ hsame => hsame)
      (start_sameSetup hstart).2 h

theorem call_entries {c : Call} (h : s.call c = .ok s') : s'.sensors.entries.Perm
    ((s.acceptedBy c).map (fun x => (x.id, x)) ++ s.sensors.entries) := by
  cases c with
  | addSensor x =>
    rw [← Except.ok.inj h, acceptedBy]
    cases hx : s.addSensor x with
    | error e => exact .refl _
    | ok s₁ => exact addSensor_entries hx
  | addActuator x =>
    rw [← Except.ok.inj h]
    cases hx : s.addActuator x with
    | error e => exact .refl _
    | ok s₁ =>
      obtain ⟨_, _, _, _, rfl⟩ := addActuator_ok_cases hx
      exact .refl _
  | start =>
    rw [(start_sameSetup h).2]
    exact .refl _
  | inject device delay event =>
    obtain ⟨_, rfl⟩ := scheduleAfter_ok_cases h
    exact .refl _
  | runUntil stop budget =>
    rw [sensors_of_runUntil h]
    exact .refl _

/-- The sensors that are attached are those that were accepted. -/
theorem drive_entries {calls : List Call} (h : drive calls s = .ok s') :
    s'.sensors.entries.Perm
      ((accepted calls s).map (fun x => (x.id, x)) ++ s.sensors.entries) := by
  induction calls generalizing s with
  | nil => exact Except.ok.inj h ▸ .refl _
  | cons c calls ih =>
    obtain ⟨s₁, hc, hrest⟩ := drive_cons h
    rw [accepted, hc, List.map_append, List.append_assoc]
    exact ((ih hrest).trans ((call_entries hc).append_left _)).trans
      (List.perm_append_comm_assoc _ _ _)

/-! ## What the start submits -/

/-- A request that is on its way to a device. -/
structure Submission where
  device : DeviceId
  time : Duration
  request : Request

/-- The request of a task in the queue, on its way. -/
def Submission.ofEntry? (e : Key × Task) : Option Submission :=
  e.2.request?.map fun request => ⟨e.1.device, e.1.time, request⟩

/-- The requests in the queue. -/
def submissions (s : Simulation) : List Submission := s.queue.entries.filterMap Submission.ofEntry?

/-- What the start submits for a sensor. -/
def submission? (s : Simulation) (x : Sensor) : Option Submission :=
  (s.network.application? x.app).bind fun app =>
    (s.network.topology.orchestratorFor x.gateway).map fun root =>
      ⟨root, s.now, sensorRequest x app⟩

/-- A request for a sensor, now, to the lowest orchestrating device above its gateway. -/
structure Submission.Serves (net : Network) (now : Duration) (x : Sensor) (b : Submission) :
    Prop where
  device : net.topology.toLayout.LowestOrchestrator x.gateway b.device
  time : b.time = now
  request : ∃ app, net.application? x.app = some app ∧ b.request = sensorRequest x app

/-- What is scheduled for an action submits what the action does. -/
theorem request?_of_booking? {device : DeviceId} {a : Action} {b : Booking}
    (h : s.booking? device a = some b) : b.task.request? = a.request? := by
  cases booked_of_booking? h with
  | setTimer timer _ => cases timer <;> rfl
  | _ => rfl

/-- The requests for sensors have their ids. -/
theorem map_id_of_serves {now : Duration} {sensors : List Sensor} {submitted : List Submission}
    (h : List.Forall₂ (Submission.Serves net now) sensors submitted) :
    sensors.map Sensor.id = submitted.map fun b => b.request.id := by
  rw [← List.forall₂_eq_eq_eq, List.forall₂_map_left_iff, List.forall₂_map_right_iff]
  refine h.imp fun x b hserves => ?_
  obtain ⟨_, _, hrequest⟩ := hserves.request
  rw [hrequest]
  rfl

/-- Machines start without requests. -/
theorem machineOpening_submissions (s : Simulation) (m : Machine) :
    (s.machineOpening m).filterMap (fun b => Submission.ofEntry? (b.key 0, b.task)) = [] := by
  refine List.filterMap_eq_nil_iff.mpr fun b hb => ?_
  obtain ⟨a, ha, hb⟩ := List.mem_filterMap.mp hb
  rw [Submission.ofEntry?, request?_of_booking? hb, Machine.start_requests ha]
  rfl

theorem sensorOpening_submissions (s : Simulation) (x : Sensor) :
    (s.sensorOpening x).filterMap (fun b => Submission.ofEntry? (b.key 0, b.task))
      = (s.submission? x).toList := by
  unfold sensorOpening submission?
  cases s.network.application? x.app with
  | none => rfl
  | some app => cases s.network.topology.orchestratorFor x.gateway <;> rfl

theorem openings_submissions (s : Simulation) :
    s.openings.filterMap (fun b => Submission.ofEntry? (b.key 0, b.task))
      = s.sensors.values.filterMap s.submission? := by
  have hmachines : s.machines.values.flatMap (fun _ => ([] : List Submission)) = [] :=
    List.flatMap_eq_nil_iff.mpr fun _ _ => rfl
  rw [openings, List.filterMap_append, List.filterMap_flatMap, List.filterMap_flatMap]
  simp only [machineOpening_submissions, sensorOpening_submissions]
  rw [hmachines, List.nil_append, List.filterMap_eq_flatMap_toList]

/-- What the start submits comes to what is in the queue. -/
theorem start_submissions (hfresh : s.started = false) (h : s.start = .ok s')
    (hn : ∀ e ∈ s.queue.entries, e.1.sequence ≤ s.scheduled) :
    s'.submissions.Perm (s.sensors.values.filterMap s.submission? ++ s.submissions) := by
  rcases start_opens h with ⟨hstarted, _⟩ | ⟨_, hbooks⟩
  · rw [hfresh] at hstarted
    cases hstarted
  · have hperm := hbooks.filterMap_entries (f := Submission.ofEntry?) hn fun _ _ => rfl
    rwa [openings_submissions] at hperm

/-- For every attached sensor there is something to be submitted. -/
theorem Attached.exists_submission (h : s.Attached net) (hf : net.topology.toLayout.Forest)
    (hx : x ∈ s.sensors.values) : ∃ b, s.submission? x = some b ∧ b.Serves net s.now x := by
  obtain ⟨⟨app, happ⟩, root, hroot⟩ := h.served x hx
  refine ⟨⟨root, s.now, sensorRequest x app⟩, ?_, hf.lowest_of_orchestratorFor hroot, rfl, app,
    happ, rfl⟩
  rw [submission?, h.network, happ, hroot]
  rfl

/-- Time passes only after the start. -/
theorem call_fresh {c : Call} (hs : s.started = true ∨ s.now = 0) (h : s.call c = .ok s') :
    s'.started = true ∨ s'.now = 0 := by
  cases c with
  | addSensor x | addActuator x =>
    obtain ⟨hstarted, hnow⟩ := frame_of_setup (by trivial) h
    rwa [hstarted, hnow]
  | start => exact Or.inl (start_started h)
  | inject device delay event =>
    obtain ⟨_, rfl⟩ := scheduleAfter_ok_cases h
    exact hs
  | runUntil stop budget =>
    rw [call, runUntil] at h
    cases hstart : s.start with
    | error left => rw [hstart] at h; exact absurd h (by simp [Outcome.left])
    | ok s₁ =>
      rw [hstart] at h
      refine Or.inl (advance_keeps (P := fun s => s.started = true) (fun _ hp hstarted => ?_)
        (fun _ hstarted => hstarted) (start_started hstart) h)
      obtain ⟨_, _, hbooks⟩ := process_books hp
      exact hbooks.started.trans hstarted

theorem drive_fresh {calls : List Call} (hs : s.started = true ∨ s.now = 0)
    (h : drive calls s = .ok s') : s'.started = true ∨ s'.now = 0 := by
  induction calls generalizing s with
  | nil => exact Except.ok.inj h ▸ hs
  | cons c calls ih =>
    obtain ⟨s₁, hc, hrest⟩ := drive_cons h
    exact ih (call_fresh hs hc) hrest

/-- A list of what there is for the elements of another list. -/
theorem forall₂_filterMap {α β : Type} {R : α → β → Prop} {f : α → Option β} : ∀ {l : List α},
    (∀ a ∈ l, ∃ b, f a = some b ∧ R a b) → List.Forall₂ R l (l.filterMap f)
  | [], _ => .nil
  | a :: l, h => by
    obtain ⟨b, hb, hr⟩ := h a List.mem_cons_self
    rw [List.filterMap_cons_some hb]
    exact .cons hr (forall₂_filterMap fun a' ha' => h a' (List.mem_cons_of_mem a ha'))

/--
Whatever was called before, a sensor is accepted just when it has what it takes, and done in place,
a refusal leaves all as it was. The sensors that were accepted have different ids and different
places, they are those that are attached, and their places are where devices claim client modules.
The first start submits one request for each of them, now, to the lowest orchestrating device above
its gateway, and no others; these requests have different ids. A later start does nothing.
-/
theorem sensors_accepted (hb : Topology.build l = .ok net.topology) {calls : List Call}
    (h : drive calls (create net seed) = .ok s) :
    (∀ x, (∃ s', s.addSensor x = .ok s') ↔ s.Admits x)
    ∧ (∀ x, attachSensor x s = leave (s.addSensor x) s)
    ∧ ((accepted calls (create net seed)).map Sensor.id).Nodup
    ∧ ((accepted calls (create net seed)).map Sensor.place).Nodup
    ∧ s.sensors.values.Perm (accepted calls (create net seed))
    ∧ (∀ d m app, s.machine? d = some m → (m.deployment.claims app = true
        ↔ (d, app) ∈ (accepted calls (create net seed)).map Sensor.place))
    ∧ (s.started = true → s.start = .ok s)
    ∧ (s.started = false →
        (∀ x ∈ accepted calls (create net seed), x.interval < Duration.limit) →
        ∃ s' submitted, s.start = .ok s' ∧ s'.submissions.Perm (submitted ++ s.submissions)
          ∧ List.Forall₂ (Submission.Serves net s.now) (accepted calls (create net seed)) submitted
          ∧ (submitted.map fun b => b.request.id).Nodup) := by
  have hf : net.topology.toLayout.Forest := Layout.forest_of_build hb
  have hattached : s.Attached net := (invariant_attached net).drive (.create hb) h
  have hentries := drive_entries h
  rw [show (create net seed).sensors.entries = [] from rfl, List.append_nil] at hentries
  have hvalues : s.sensors.values.Perm (accepted calls (create net seed)) := by
    have hmap := hentries.map Prod.snd
    rwa [List.map_map, show Prod.snd ∘ (fun x : Sensor => (x.id, x)) = id from rfl,
      List.map_id] at hmap
  have hids : ((accepted calls (create net seed)).map Sensor.id).Nodup := by
    have hmap := hentries.map Prod.fst
    rw [List.map_map] at hmap
    exact hmap.nodup_iff.mp s.sensors.keys_nodup
  have hplaces : s.places.Perm ((accepted calls (create net seed)).map Sensor.place) :=
    hvalues.map Sensor.place
  refine ⟨fun x => addSensor_ok_iff (hattached.network.symm ▸ hf)
      (hattached.network.symm ▸ hattached.machines), fun x => attachSensor_eq s x, hids,
    hplaces.nodup_iff.mp hattached.distinct, hvalues,
    fun d m app hm => (hattached.claims d m app hm).trans hplaces.mem_iff, start_of_started,
    fun hfresh hfits => ?_⟩
  have hnow : s.now = 0 := by
    rcases drive_fresh (Or.inr rfl) h with hstarted | hnow
    · rw [hfresh] at hstarted
      cases hstarted
    · exact hnow
  obtain ⟨s', hs'⟩ : ∃ s', s.start = .ok s' := by
    refine start_exists (by rw [hnow]; decide) fun id x hx => ?_
    have hmem : x ∈ s.sensors.values :=
      List.mem_map.mpr ⟨(id, x), (SortedMap.mem_entries_iff _ _ _).mpr hx, rfl⟩
    rw [hnow, Nat.zero_add]
    exact hfits x (hvalues.mem_iff.mp hmem)
  have hagenda := agenda_drive (Agenda.create net seed) h
  have hserved : List.Forall₂ (Submission.Serves net s.now) (accepted calls (create net seed))
      ((accepted calls (create net seed)).filterMap s.submission?) :=
    forall₂_filterMap fun x hx => hattached.exists_submission hf (hvalues.mem_iff.mpr hx)
  refine ⟨s', _, hs', ?_, hserved, ?_⟩
  · have hperm := start_submissions hfresh hs' fun e he =>
      hagenda.sequence_le (List.mem_append_right _ he)
    exact hperm.trans ((hvalues.filterMap s.submission?).append_right _)
  · rwa [← map_id_of_serves hserved]

/-- A second sensor of the phone for the first application. -/
def surplusSensor : Sensor :=
  { id := 3, gateway := 2, app := "a", tupleType := "t", interval := Duration.ofMillis 500 }

/-- The phone accepts a sensor for each application, and no other. Two requests are submitted. -/
theorem sensors_accepted_phone : ∃ s' submitted,
    drive ((phoneSensors ++ [surplusSensor]).map .addSensor) (create phoneNetwork 0)
      = .ok phoneStart
    ∧ accepted ((phoneSensors ++ [surplusSensor]).map .addSensor) (create phoneNetwork 0)
      = phoneSensors
    ∧ ¬ phoneStart.Admits surplusSensor
    ∧ attachSensor surplusSensor phoneStart
      = .error (.node (.duplicateClientModule 2 "a")) phoneStart
    ∧ phoneStart.start = .ok s' ∧ s'.submissions.Perm submitted
    ∧ List.Forall₂ (Submission.Serves phoneNetwork 0) phoneSensors submitted := by
  have hdrive : drive ((phoneSensors ++ [surplusSensor]).map .addSensor) (create phoneNetwork 0)
      = .ok phoneStart := rfl
  have haccepted : accepted ((phoneSensors ++ [surplusSensor]).map .addSensor)
      (create phoneNetwork 0) = phoneSensors := by decide +kernel
  have hrefused : phoneStart.addSensor surplusSensor
      = .error (.node (.duplicateClientModule 2 "a")) := rfl
  obtain ⟨hadmits, hplace, _, _, _, _, _, hstart⟩ := sensors_accepted build_phone hdrive
  rw [haccepted] at hstart
  obtain ⟨s', submitted, hs', hperm, hserves, _⟩ := hstart rfl (by decide)
  rw [show phoneStart.submissions = [] from rfl, List.append_nil] at hperm
  refine ⟨s', submitted, hdrive, haccepted, fun h => ?_, ?_, hs', hperm, hserves⟩
  · obtain ⟨_, hs⟩ := (hadmits surplusSensor).mpr h
    rw [hrefused] at hs
    cases hs
  · rw [hplace, hrefused]
    rfl

end Simulation

end FogNet
