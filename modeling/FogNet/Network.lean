import FogNet.Placement.Edgeward
import FogNet.Topology.Basic

/-!
# Networks

What all devices of a simulation share and none of them changes: the topology, the registered
applications, and when and how orchestrators place.
-/

namespace FogNet

/-- How the orchestrators of a network work. -/
structure Policy where
  /-- The time between two placement cycles. -/
  placementInterval : Duration := Duration.ofSeconds 1
  strategy : Strategy := .edgeward
  deriving DecidableEq, Repr

structure Network where
  topology : Topology
  applications : Applications
  policy : Policy

namespace Network

def device? (net : Network) (id : DeviceId) : Option Device := net.topology.device? id

def application? (net : Network) (id : AppId) : Option Application := net.applications.get? id

theorem mem_of_application? {net : Network} {apps : List Application}
    (ha : net.applications = .ofList apps) {id : AppId} {app : Application}
    (h : net.application? id = some app) : app ∈ apps := by
  rw [application?, ha] at h
  obtain ⟨_, hmem, he⟩ := List.mem_map.mp (SortedMap.mem_of_get?_ofList h)
  exact (Prod.mk.inj he).2 ▸ hmem

/-- Applications are registered by their ids. -/
theorem id_of_application? {net : Network} {apps : List Application}
    (ha : net.applications = .ofList apps) {id : AppId} {app : Application}
    (h : net.application? id = some app) : app.id = id := by
  rw [application?, ha] at h
  obtain ⟨_, _, he⟩ := List.mem_map.mp (SortedMap.mem_of_get?_ofList h)
  obtain ⟨hid, rfl⟩ := Prod.mk.inj he
  exact hid

end Network

end FogNet
