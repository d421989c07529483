import FogNet.Proofs.Simulation.Loads

/-!
# Durations in range

A run breaks off where a sum of durations leaves its range, or where a transmission or an execution
takes no duration at all. All that is ever added to the time are the interval of placement cycles,
intervals and latencies of sensors, latencies of actuators, and what transmissions and executions of
messages on the edges of applications take. If all this fits in the range after the latest time,
nothing breaks off.

## Main statements

* `perform_ok`, `performAll_ok` — actions whose durations fit are carried out
* `handle_value` — a device handles an event, if the messages that it sends can be sent
* `process_ok`, `start_ok` — neither a step nor the start breaks off
-/

namespace FogNet

/-! ## Links and devices -/

/-- What comes after a computation with a value has a value, if it always has one. -/
theorem Recorded.exists_value_bind {α β : Type} {x : Recorded α} {f : α → Recorded β}
    (hx : ∃ a, x.value = some a) (hf : ∀ a, ∃ b, (f a).value = some b) :
    ∃ b, (x >>= f).value = some b := by
  obtain ⟨a, ha⟩ := hx
  rw [value_bind, ha]
  exact hf a

open Recorded (exists_value_bind)

namespace Outbound

variable {o : Outbound} {kind : LinkKind} {w : Waiting}

theorem transmit_value (h : ∃ t, o.transmissionTime kind w.message = some t) :
    ∃ actions, (o.transmit kind w).value = some actions :=
  exists_value_bind h fun _ => ⟨_, rfl⟩

/-- A message can be sent, if its transmission takes some duration. -/
theorem send_value (h : ∃ t, o.transmissionTime kind w.message = some t) :
    ∃ r, (o.send kind w).value = some r := by
  unfold send
  simp only
  split
  · exact ⟨_, rfl⟩
  · exact exists_value_bind (transmit_value h) fun _ => ⟨_, rfl⟩

theorem freed_value
    (h : ∀ w ∈ (o.queue kind).waiting, ∃ t, o.transmissionTime kind w.message = some t) :
    ∃ r, (o.freed kind).value = some r := by
  unfold freed
  simp only
  split
  · exact ⟨_, rfl⟩
  · next w rest hq =>
    exact exists_value_bind (transmit_value (h w (hq ▸ List.mem_cons_self))) fun _ => ⟨_, rfl⟩

end Outbound

namespace Machine

variable {net : Network} {m : Machine} {message : Message} {d : DeviceId}

theorem execute_value (m : Machine) (message : Message) :
    ∃ actions, (m.execute message).value = some actions := by
  unfold execute
  simp only
  split <;> exact ⟨_, rfl⟩

theorem actuate_value (m : Machine) (message : Message) :
    ∃ actions, (m.actuate message).value = some actions := by
  unfold actuate
  split <;> exact ⟨_, rfl⟩

theorem countTraffic_value (m : Machine) (message : Message) :
    ∃ actions, (m.countTraffic message).value = some actions := by
  unfold countTraffic
  split <;> exact ⟨_, rfl⟩

/-- A message goes on, if its transmission over the next link takes some duration. -/
theorem advance_value (h : d ≠ m.id → ∀ next link, net.topology.nextHop m.id d = .ok next →
      net.topology.link? m.id next = some link →
        ∃ t, m.outbound.transmissionTime link.kind message = some t) :
    ∃ r, (m.advance net message d).value = some r := by
  unfold advance
  split
  · exact exists_value_bind (m.execute_value message) fun _ => ⟨_, rfl⟩
  · next hd =>
    refine exists_value_bind ?_ fun _ => ⟨_, rfl⟩
    unfold forward
    split
    · exact ⟨_, rfl⟩
    · next next hnext =>
      split
      · exact ⟨_, rfl⟩
      · next link hlink => exact Outbound.send_value (h hd next link hnext hlink)

/-- A device handles a message that arrives, if it can send it on where this is to be done. -/
theorem receive_value (h : ∀ d addressed, m.addressed? message = some (d, addressed) → d ≠ m.id →
      ∀ next link, net.topology.nextHop m.id d = .ok next →
        net.topology.link? m.id next = some link →
          ∃ t, m.outbound.transmissionTime link.kind addressed = some t) :
    ∃ r, (m.receive net message).value = some r := by
  unfold receive
  split
  · exact exists_value_bind (m.actuate_value message) fun _ => ⟨_, rfl⟩
  · refine exists_value_bind (m.countTraffic_value message) fun counted =>
      exists_value_bind ?_ fun _ => ⟨_, rfl⟩
    unfold travel
    split
    · next hd => exact advance_value fun hne => h _ _ (addressed?_of_bound hd) hne
    · next hnone =>
      split
      · exact ⟨_, rfl⟩
      · next d turns hr =>
        have haddressed : m.addressed? message = some (d,
            { message with destinationDevice := some d, sourceDevice := some m.id }) := by
          rw [addressed?, hnone]
          simp only [hr, Option.map_some]
        exact advance_value fun hne => h d _ haddressed hne

/-- A device handles an event, if the messages that it sends then can be sent. -/
theorem handle_value {event : Event}
    (hwaiting : ∀ kind, ∀ w ∈ (m.outbound.queue kind).waiting,
      ∃ t, m.outbound.transmissionTime kind w.message = some t)
    (harrived : ∀ message, event = .messageArrived message → ∀ d addressed,
      m.addressed? message = some (d, addressed) → d ≠ m.id →
        ∀ next link, net.topology.nextHop m.id d = .ok next →
          net.topology.link? m.id next = some link →
            ∃ t, m.outbound.transmissionTime link.kind addressed = some t) :
    ∃ r, (m.handle net event).value = some r := by
  cases event with
  | placementTimer =>
    simp only [handle, cycle]
    split
    · exact ⟨_, rfl⟩
    · next o _ =>
      refine exists_value_bind ?_ fun _ => ⟨_, rfl⟩
      unfold Orchestrator.tick
      split
      · exact ⟨_, rfl⟩
      · exact exists_value_bind ⟨_, Orchestrator.place_value net m.id o⟩ fun _ => ⟨_, rfl⟩
  | linkFreed kind =>
    exact exists_value_bind (Outbound.freed_value (hwaiting kind)) fun _ => ⟨_, rfl⟩
  | messageArrived message => exact receive_value (harrived message rfl)
  | launchMicroservice app microservice =>
    simp only [handle, launch]
    split <;> exact ⟨_, rfl⟩
  | _ => exact ⟨_, rfl⟩

end Machine

namespace Simulation

variable {net : Network} {seed : UInt64} {s s' : Simulation} {l : Layout} {history : List Step}
  {apps : List Application} {device : DeviceId} {bookings : List Booking} {key : Key} {task : Task}
  {latest : Duration}

/-! ## Actions -/

theorem scheduleAfter_eq_ok {delay : Duration} (h : s.now + delay < Duration.limit) :
    s.scheduleAfter device delay task = .ok (s.schedule device (s.now + delay) task) := by
  simp [scheduleAfter, later, Duration.add?, h, Except.map]

/-- What an action adds to the time stays in range. -/
def Fits (s : Simulation) : Action → Prop
  | .transmit _ _ _ transmission latency => s.now + (transmission + latency) < Duration.limit
  | .setTimer _ duration => s.now + duration < Duration.limit
  | .execute _ message => ∃ t, s.executionTime message = some t ∧ s.now + t < Duration.limit
  | .deliverToActuator actuator _ =>
    ∀ a, s.actuators.get? actuator = some a → s.now + a.latency < Duration.limit
  | _ => True

theorem Books.actuators (h : s.Books s' bookings) : s'.actuators = s.actuators := by rw [h.frame]

theorem Fits.of_same {a : Action} (h : s.Fits a) (hnow : s'.now = s.now)
    (hnetwork : s'.network = s.network) (hactuators : s'.actuators = s.actuators) : s'.Fits a := by
  cases a with
  | transmit _ _ _ _ _ | setTimer _ _ => simpa only [Fits, hnow] using h
  | execute _ message => simpa only [Fits, executionTime, hnetwork, hnow] using h
  | deliverToActuator _ _ => simpa only [Fits, hactuators, hnow] using h
  | _ => trivial

/-- An action is carried out, if what it adds to the time stays in range. -/
theorem perform_ok {a : Action} (h : s.Fits a) : ∃ s', s.perform device a = .ok s' := by
  cases a with
  | transmit target link message transmission latency =>
    exact ⟨_, scheduleAfter_eq_ok (s := (s.count _).record _) h⟩
  | setTimer timer duration =>
    simp only [perform, scheduleAfter_eq_ok (s := s) h, Except.map]
    exact ⟨_, rfl⟩
  | execute target message =>
    obtain ⟨t, ht, hrange⟩ := h
    simp only [perform, execute, ht]
    exact ⟨_, scheduleAfter_eq_ok (s := (s.count _).record _) hrange⟩
  | deliverToActuator actuator message =>
    simp only [perform, actuate]
    split
    · exact ⟨_, rfl⟩
    · next a ha =>
      have hlater : s.later a.latency = .ok (s.now + a.latency) := by
        simp [later, Duration.add?, h a ha]
      rw [hlater]
      simp only [bind, Except.bind]
      split <;> exact ⟨_, rfl⟩
  | _ => exact ⟨_, rfl⟩

theorem performAll_ok : ∀ {actions : List Action} {s : Simulation}, (∀ a ∈ actions, s.Fits a) →
    ∃ s', s.performAll device actions = .ok s'
  | [], s, _ => ⟨s, rfl⟩
  | a :: actions, s, h => by
    obtain ⟨s₁, hs₁⟩ : ∃ s₁, s.perform device a = .ok s₁ := perform_ok (h a List.mem_cons_self)
    have hbooks := perform_books hs₁
    obtain ⟨s', hs'⟩ : ∃ s', s₁.performAll device actions = .ok s' := performAll_ok fun b hb =>
      (h b (List.mem_cons_of_mem a hb)).of_same hbooks.now hbooks.network hbooks.actuators
    exact ⟨s', by rw [performAll, hs₁]; exact hs'⟩

/-! ## Steps -/

/-- Whatever is added to a time up to the latest one stays in range. -/
structure InRange (net : Network) (latest : Duration) (s : Simulation) : Prop where
  cycles : latest + net.policy.placementInterval < Duration.limit
  sensors : ∀ id x, s.sensors.get? id = some x →
    latest + x.interval < Duration.limit ∧ latest + x.latency < Duration.limit
  actuators : ∀ id a, s.actuators.get? id = some a → latest + a.latency < Duration.limit
  links : ∀ d hop link dev, net.topology.link? d hop = some link → net.device? d = some dev →
    ∀ id app, net.application? id = some app → ∀ e ∈ app.edges,
      ∃ t, dev.transmissionTime? link.kind e.size = some t
        ∧ latest + (t + link.latency) < Duration.limit
  executions : ∀ id app, net.application? id = some app → ∀ e ∈ app.edges,
    ∃ t, app.processingTime? e.destination e.cpuLength = some t ∧ latest + t < Duration.limit

namespace InRange

theorem of_same (h : s.InRange net latest) (hsensors : s'.sensors = s.sensors)
    (hactuators : s'.actuators = s.actuators) : s'.InRange net latest :=
  ⟨h.cycles, hsensors ▸ h.sensors, hactuators ▸ h.actuators, h.links, h.executions⟩

/-- A message on an edge can be sent over any link, and what this adds to the time fits. -/
theorem sends (h : s.InRange net latest) {d : DeviceId} {m : Machine} (hm : Equipped net d m)
    {hop : DeviceId} {link : Link} (hlink : net.topology.link? d hop = some link)
    {message : Message} {app : Application} {e : Edge} (hedge : message.OnEdge net app e) :
    ∃ t, m.outbound.transmissionTime link.kind message = some t
      ∧ latest + (t + link.latency) < Duration.limit := by
  obtain ⟨dev, hdev, _⟩ := id hm
  obtain ⟨t, ht, hrange⟩ := h.links d hop link dev hlink hdev _ app hedge.registered e hedge.edge
  exact ⟨t, (hm.transmissionTime hdev hedge link.kind).trans ht, hrange⟩

/-- What a device does about an event fits, if time has not passed the latest one. -/
theorem fits (h : s.InRange net latest) (hnetwork : s.network = net) (hnow : s.now ≤ latest)
    {d : DeviceId} {m m' : Machine} (hid : m.id = d) (hm : Equipped net d m)
    (hlined : ∀ kind, ∀ w ∈ (m.outbound.queue kind).waiting, ∃ goal, Lined net d kind w goal)
    (hwaiting : ∀ w ∈ m.outbound.waits, ∃ app e, w.message.OnEdge net app e) {event : Event}
    (harrived : ∀ message, event = .messageArrived message → ∃ app e, message.OnEdge net app e)
    {actions : List Action} (heffect : m.Effect net event actions m') :
    ∀ a ∈ actions, s.Fits a := by
  have hfits {extra : Duration} (hrange : latest + extra < Duration.limit) :
      s.now + extra < Duration.limit := Nat.lt_of_le_of_lt (Nat.add_le_add_right hnow _) hrange
  -- A transmission is its end and its arrival.
  have hsent {link : Link} {w : Waiting} {app : Application} {e : Edge} {actions : List Action}
      (hlink : net.topology.link? d w.target = some link) (hlatency : link.latency = w.latency)
      (hedge : w.message.OnEdge net app e)
      (htransmit : (m.outbound.transmit link.kind w).value = some actions) :
      ∀ a ∈ actions, s.Fits a := by
    obtain ⟨t, ht, hrange⟩ := h.sends hm hlink hedge
    obtain ⟨t', ht', rfl⟩ := Outbound.transmit_actions htransmit
    obtain rfl := Option.some.inj (ht.symm.trans ht')
    rw [hlatency] at hrange
    intro a ha
    rcases List.mem_pair.mp ha with rfl | rfl
    · exact hfits (Nat.lt_of_le_of_lt (by omega) hrange)
    · exact hfits hrange
  cases heffect with
  | cycle _ ht =>
    intro a ha
    rcases Orchestrator.tick_actions ht ha with rfl | ⟨_, _, rfl, _⟩
    · exact hfits h.cycles
    · trivial
  | @freed kind actions o ho =>
    rcases Outbound.departs_of_freed ho with ⟨rfl, _⟩ | ⟨w, hw, htransmit, _⟩
    · exact fun _ ha => absurd ha List.not_mem_nil
    · obtain ⟨goal, hline⟩ := hlined kind w hw
      obtain ⟨link, hlink, rfl, hlatency⟩ := hline.link
      obtain ⟨app, e, hedge⟩ := hwaiting w (Outbound.mem_waits.mpr ⟨_, hw⟩)
      exact hsent hlink hlatency hedge htransmit
  | @received message counted rest turns o hcounted hrest =>
    obtain ⟨app, e, hedge⟩ := harrived message rfl
    refine List.forall_mem_append.mpr ⟨fun a ha => by rw [hcounted a ha]; trivial, ?_⟩
    cases hrest with
    | delivered targets _ =>
      intro a ha
      obtain ⟨_, _, rfl⟩ := List.mem_map.mp ha
      exact fun a ha => hfits (h.actuators _ a ha)
    | @executed addressed target _ haddressed _ =>
      intro a ha
      rw [List.mem_singleton.mp ha]
      have hprocessed := (hedge.addressed haddressed).processed target m.id
      obtain ⟨t, ht, hrange⟩ := h.executions _ app hedge.registered e hedge.edge
      exact ⟨t, (hprocessed.executionTime hnetwork).trans ht, hfits hrange⟩
    | @sent goal next addressed link _ _ _ haddressed _ _ hlink hsend =>
      rcases Outbound.departs_of_send hsend with ⟨rfl, _⟩ | ⟨htransmit, _⟩
      · exact fun _ ha => absurd ha List.not_mem_nil
      · exact hsent (hid ▸ hlink) rfl (hedge.addressed haddressed) htransmit
    | _ =>
      intro a ha
      rw [List.mem_singleton.mp ha]
      trivial
  | _ => exact fun _ ha => absurd ha List.not_mem_nil

end InRange

theorem happen_ok (hb : Topology.build l = .ok net.topology) (ha : net.applications = .ofList apps)
    (h : Ran net seed history s) (hq : s.queue.first? = some (key, task))
    (hr : s.InRange net latest) (hlatest : key.time ≤ latest) {event : Event}
    (ht : task = .device event) : ∃ s', (s.take key task).happen key.device event = .ok s' := by
  have harranged := (intact_of_ran hb h).arranged
  have hladen := laden_of_ran hb ha h
  have hnetwork : (s.take key task).network = net := harranged.network
  unfold happen
  split
  · exact ⟨_, rfl⟩
  · next m hm =>
    have hm : s.machine? key.device = some m := hm
    have hequipped : Equipped net key.device { m with now := key.time } := hladen.machines _ m hm
    have hlined : ∀ kind, ∀ w ∈ (m.outbound.queue kind).waiting,
        ∃ goal, Lined net key.device kind w goal :=
      fun kind w hw => lined_of_ran hb h (linkQueue_eq hm ▸ hw)
    have hwaiting : ∀ w ∈ m.outbound.waits, ∃ app e, w.message.OnEdge net app e :=
      fun w hw => hladen.edges _ _ (.waiting hm hw)
    have harrived : ∀ message, event = .messageArrived message →
        ∃ app e, message.OnEdge net app e := by
      rintro message rfl
      exact hladen.edges key.device message (.queued (Queue.mem_of_first hq) (by rw [ht]; rfl))
    obtain ⟨⟨actions, m'⟩, hv⟩ : ∃ r,
        (({ m with now := key.time } : Machine).handle net event).value = some r := by
      refine Machine.handle_value (fun kind w hw => ?_)
        fun message he d addressed haddressed hne next link hnext hlink => ?_
      · obtain ⟨goal, hline⟩ := hlined kind w hw
        obtain ⟨link, hlink, rfl, _⟩ := hline.link
        obtain ⟨app, e, hedge⟩ := hwaiting w (Outbound.mem_waits.mpr ⟨_, hw⟩)
        obtain ⟨t, ht, _⟩ := hr.sends hequipped hlink hedge
        exact ⟨t, ht⟩
      · obtain ⟨app, e, hedge⟩ := harrived message he
        have hid : m.id = key.device := harranged.id _ m hm
        obtain ⟨t, ht, _⟩ := hr.sends hequipped (hid ▸ hlink) (hedge.addressed haddressed)
        exact ⟨t, ht⟩
    have hfits := InRange.fits (s := s.take key task) (hr.of_same rfl rfl) hnetwork hlatest
      (m := { m with now := key.time }) (harranged.id _ m hm) hequipped hlined hwaiting harrived
      (Machine.effect_of_handle hv)
    have hv' : (({ m with now := (s.take key task).now } : Machine).handle
      (s.take key task).network event).value = some (actions, m') := hnetwork ▸ hv
    simp only [hv']
    exact performAll_ok fun a ha => (hfits a ha).of_same rfl rfl rfl

/-- A step does not break off, if all that it may add to its time stays in range. -/
theorem process_ok (hb : Topology.build l = .ok net.topology)
    (ha : net.applications = .ofList apps) (h : Ran net seed history s)
    (hq : s.queue.first? = some (key, task)) (hr : s.InRange net latest)
    (hlatest : key.time ≤ latest) : ∃ s', (s.take key task).process key task = .ok s' := by
  cases task with
  | device event => exact happen_ok hb ha h hq hr hlatest rfl
  | executionCompleted target message => exact ⟨_, rfl⟩
  | sensorTick id =>
    simp only [process, tick]
    split
    · exact ⟨_, rfl⟩
    · next x hx =>
      split
      · exact ⟨_, rfl⟩
      · next app _ =>
        obtain ⟨hinterval, hlatency⟩ := hr.sensors id x hx
        have hfits {extra : Duration} (hrange : latest + extra < Duration.limit) :
            key.time + extra < Duration.limit :=
          Nat.lt_of_le_of_lt (Nat.add_le_add_right hlatest _) hrange
        obtain ⟨s₁, hs₁, hnow⟩ : ∃ s₁, (s.take key (.sensorTick id)).emit x app = .ok s₁
            ∧ s₁.now = key.time := by
          unfold emit
          simp only
          split
          · exact ⟨_, rfl, rfl⟩
          · exact ⟨_, scheduleAfter_eq_ok (s := count _ _) (hfits hlatency), rfl⟩
        rw [hs₁]
        exact ⟨_, scheduleAfter_eq_ok (hnow ▸ hfits hinterval)⟩

/-! ## The start -/

/-- A loop goes through, if each turn does and keeps what the next one needs. -/
theorem foldlM_exists {α : Type} {f : Simulation → α → Except Overflow Simulation}
    {P : Simulation → Prop} : ∀ {l : List α} {s : Simulation},
      (∀ a ∈ l, ∀ s, P s → ∃ s', f s a = .ok s' ∧ P s') → P s →
        ∃ s', l.foldlM f s = .ok s' ∧ P s'
  | [], s, _, h => ⟨s, rfl, h⟩
  | a :: l, s, hf, h => by
    obtain ⟨s₁, hs₁, h₁⟩ := hf a List.mem_cons_self s h
    rw [List.foldlM_cons, hs₁]
    exact foldlM_exists (fun b hb => hf b (List.mem_cons_of_mem a hb)) h₁

theorem startMachine_ok (h : s.now < Duration.limit) (m : Machine) :
    ∃ s', s.startMachine m = .ok s' :=
  performAll_ok fun a ha => by
    rcases Machine.start_actions ha with rfl | ⟨_, _, rfl⟩
    · exact h
    · trivial

theorem startSensor_ok {x : Sensor} (h : s.now + x.interval < Duration.limit) :
    ∃ s', s.startSensor x = .ok s' := by
  unfold startSensor
  split
  · exact ⟨_, rfl⟩
  · simp only
    split <;> exact ⟨_, scheduleAfter_eq_ok h⟩

/-- The start does not break off, if the intervals of sensors stay in range. -/
theorem start_exists (hnow : s.now < Duration.limit)
    (hfits : ∀ id x, s.sensors.get? id = some x → s.now + x.interval < Duration.limit) :
    ∃ s', s.start = .ok s' := by
  unfold start
  split
  · exact ⟨_, rfl⟩
  · obtain ⟨s₁, hs₁, hnow₁, hsensors⟩ := foldlM_exists (f := startMachine)
      (P := fun s' => s'.now = s.now ∧ s'.sensors = s.sensors) (l := s.machines.values)
      (s := { s with started := true })
      (fun m _ s' h => by
        obtain ⟨s'', hs''⟩ := startMachine_ok (h.1.symm ▸ hnow) m
        have hbooks := startMachine_books hs''
        exact ⟨s'', hs'', hbooks.now.trans h.1, hbooks.sensors.trans h.2⟩)
      ⟨rfl, rfl⟩
    obtain ⟨s₂, hs₂, _⟩ := foldlM_exists (f := startSensor) (P := fun s' => s'.now = s.now)
      (l := s₁.sensors.values) (s := s₁)
      (fun x hx s' h => by
        obtain ⟨⟨id, x⟩, he, rfl⟩ := List.mem_map.mp hx
        rw [hsensors, SortedMap.mem_entries_iff] at he
        obtain ⟨s'', hs''⟩ := startSensor_ok (s := s') (x := x) (h.symm ▸ hfits id x he)
        exact ⟨s'', hs'', (startSensor_books hs'').now.trans h⟩)
      hnow₁
    refine ⟨s₂, ?_⟩
    simp only [hs₁]
    exact hs₂

theorem start_ok (hr : s.InRange net latest) (hlatest : s.now ≤ latest) :
    ∃ s', s.start = .ok s' := by
  have hfits {extra : Duration} (hrange : latest + extra < Duration.limit) :
      s.now + extra < Duration.limit := Nat.lt_of_le_of_lt (Nat.add_le_add_right hlatest _) hrange
  exact start_exists (Nat.lt_of_le_of_lt (Nat.le_add_right _ _) (hfits hr.cycles))
    fun id x hx => hfits (hr.sensors id x hx).1

end Simulation

end FogNet
