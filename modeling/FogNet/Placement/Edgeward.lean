import FogNet.Placement.Shift

/-!
# Placement towards the edge

Every path from a leaf up to the orchestrator is walked for the requests of that leaf, and each
microservice whose requirements are met is put on the first device that has CPU for it. A
microservice that a device of the path hosts already gets its instance there, and is shifted up
when the device is full. A request that could not be placed completely leaves nothing behind.

## Termination

On each device a microservice is tried once, so `remaining` of the declared names bounds the tries.
-/

namespace FogNet

/-! ## Strategies -/

/-- The ways to place. -/
inductive Strategy where
  /-- As close to the edge as capacity allows. -/
  | edgeward
  deriving DecidableEq, Repr, Inhabited

namespace Strategy

def name : Strategy → String
  | edgeward => "edgeward"

/-- The strategy a word names; capitals do not matter. -/
def parse (word : String) : Except UnknownWord Strategy :=
  match asciiLowercase word with
  | "edgeward" => .ok edgeward
  | _ => .error (.strategy word)

end Strategy

/-! ## Walking a path -/

/-- What is known while a request is placed along a path. -/
structure Walk where
  ledger : Ledger
  /-- The names that are placed for the request so far. -/
  placed : List Name
  /-- How many shifts found no device. -/
  failures : Nat

namespace PlacementSetting

/-- Tries one microservice on one device of a path. -/
def attempt (s : PlacementSetting) (app : Application) (path : List DeviceId)
    (request : RequestId) (device : DeviceId) (w : Walk) (name : Name) : Walk :=
  let mips := app.mipsOf name
  let slot : Slot := ⟨request, app.id, name⟩
  let fits := decide (wrap (w.ledger.load device + mips) ≤ s.free.freeCpu device)
  let placedHere : Walk :=
    { w with ledger := w.ledger.add device slot mips, placed := name :: w.placed }
  match w.ledger.hostOn path name with
  | some host =>
    if host = device then
      -- One more instance beside those that are here, or all of them to a device above.
      if fits then placedHere
      else
        match s.shift app w.ledger slot device with
        | some ledger => { w with ledger, placed := name :: w.placed }
        | none => { w with failures := w.failures + 1 }
    -- The path has a host, and it is not this device: the instance goes there.
    else w
  | none => if fits then placedHere else w

/-- Tries what is ready on one device until everything ready has been tried there. -/
def fill (s : PlacementSetting) (app : Application) (path : List DeviceId) (request : RequestId)
    (device : DeviceId) (w : Walk) (tried : List Name) : Walk :=
  match _h : (app.readyToPlace w.placed).find? fun n => !tried.contains n with
  | none => w
  | some name =>
    s.fill app path request device (s.attempt app path request device w name) (name :: tried)
termination_by remaining app.names tried
decreasing_by
  have hready := List.mem_of_find?_eq_some _h
  have hnew : name ∉ tried := by simpa using List.find?_some _h
  exact remaining_lt (fun x hx => List.mem_cons_of_mem _ hx)
    (Application.mem_readyToPlace.mp hready).1 hnew List.mem_cons_self

/-- Whether a device may take shared microservices in this batch. -/
def usable (s : PlacementSetting) (l : Ledger) (device : DeviceId) : Bool :=
  match s.layout.device? device with
  | none => false
  | some d => d.role.hostsShared && l.contains device

/-- Walks a path for one request, leaf first. -/
def walk (s : PlacementSetting) (app : Application) (path : List DeviceId) (request : Request)
    (l : Ledger) (failures : Nat) : Walk :=
  path.foldl
    (fun w device =>
      if s.usable w.ledger device then s.fill app path request.id device w [] else w)
    { ledger := l, placed := request.placed.keys, failures }

/-- Whether everything an application declares is placed for a request. -/
def isComplete (app : Application) (request : Request) (l : Ledger) : Bool :=
  app.names.all fun n => request.placed.contains n || l.serves request.id n

end PlacementSetting

/-! ## A batch -/

/-- What placing a batch leads to. -/
structure PlacementResult where
  placement : Placement
  ledger : Ledger
  failures : Nat

/-- The state of a batch: the ledger, the complete requests and the failed shifts. -/
structure Batch where
  ledger : Ledger
  complete : List RequestId := []
  failures : Nat := 0

namespace PlacementSetting

/-- Places one request along a path; one of an unknown application is passed over. -/
def placeRequest (s : PlacementSetting) (path : List DeviceId) (b : Batch) (request : Request) :
    Batch :=
  match s.applications.get? request.app with
  | none => b
  | some app =>
    let w := s.walk app path request b.ledger b.failures
    -- Failed shifts count even for a request that is taken back.
    if isComplete app request w.ledger then
      { ledger := w.ledger, complete := b.complete ++ [request.id], failures := w.failures }
    else
      { b with ledger := w.ledger.rollback app request.id, failures := w.failures }

/-- Places the requests whose gateway is the leaf of a path. -/
def placePath (s : PlacementSetting) (requests : List Request) (b : Batch) (path : List DeviceId) :
    Batch :=
  (requests.filter fun r => path.head? == some r.gateway).foldl (s.placeRequest path) b

/-- Places a batch of requests. -/
def run (s : PlacementSetting) (requests : List Request) : PlacementResult :=
  let b := (s.layout.leafPaths s.root).foldl (s.placePath requests) { ledger := .start s.domain }
  { placement := b.ledger.assemble b.complete, ledger := b.ledger, failures := b.failures }

end PlacementSetting

/-- Places a batch of requests by a strategy. -/
def Strategy.run : Strategy → PlacementSetting → List Request → PlacementResult
  | .edgeward => PlacementSetting.run

end FogNet
