import FogNet.Message
import FogNet.Number.Binary64
import FogNet.Random

/-!
# Applications

An application is a graph of microservices. Its edges say which tuple types flow where: from a
sensor to a microservice, between microservices, or from a microservice to an actuator. Whether an
input of a microservice leads to an output on an edge is decided by a selectivity.

Microservices keep the order of their declaration, which is the order placement goes by.

## Main statements

* `selects_of_one_le`, `selects_of_le_zero` — certain selectivities leave the generator alone
* `mem_readyToPlace` — what may be placed next
* `resultantsFrom_ids` — messages are numbered without gaps
-/

namespace FogNet

/-! ## Edges -/

/-- What an edge joins. -/
inductive EdgeKind where
  /-- A sensor's tuple type to a microservice. -/
  | sensor
  /-- A microservice to a microservice. -/
  | module
  /-- A microservice to an actuator type. -/
  | actuator
  deriving DecidableEq, Repr, Inhabited

namespace EdgeKind

def name : EdgeKind → String
  | sensor => "sensor"
  | module => "module"
  | actuator => "actuator"

def all : List EdgeKind := [sensor, module, actuator]

end EdgeKind

/-- A directed edge of an application. -/
structure Edge where
  kind : EdgeKind
  source : Name
  destination : Name
  tupleType : TupleType
  direction : Direction
  /-- Processing demand of the messages on the edge, in million instructions. -/
  cpuLength : Nat
  /-- Size of the messages on the edge, in bytes. -/
  size : Nat
  deriving DecidableEq, Repr

namespace Edge

/-- The edge of a sensor: its tuple type is its source, and its messages go up. -/
def ofSensor (tupleType : TupleType) (destination : Name) (cpuLength size : Nat) : Edge :=
  { kind := .sensor, source := tupleType, destination, tupleType, direction := .up, cpuLength,
    size }

/-- The edge to an actuator type. -/
def toActuator (source actuatorType : Name) (tupleType : TupleType) (cpuLength size : Nat) : Edge :=
  { kind := .actuator, source, destination := actuatorType, tupleType, direction := .actuator,
    cpuLength, size }

/-- The direction of the messages that the edge's source puts on it. -/
def outputDirection (e : Edge) : Direction :=
  match e.kind with
  | .actuator => .actuator
  | .module | .sensor => e.direction

end Edge

/-! ## Microservices -/

/-- The answer to the inputs of one tuple type with outputs of another. -/
structure Selectivity where
  input : TupleType
  output : TupleType
  /-- The probability of an output, which may lie outside the unit interval. -/
  fraction : Binary64
  deriving DecidableEq, Repr

/--
Whether an input leads to an output. Only a fraction strictly between zero and one, or one that is
no number, draws from the generator.
-/
def selects (fraction : Float) (g : Generator) : Bool × Generator :=
  if fraction ≥ 1.0 then (true, g)
  else if fraction ≤ 0.0 then (false, g)
  else
    let (drawn, g) := g.unitInterval
    (decide (drawn < fraction), g)

theorem selects_of_one_le {fraction : Float} (h : fraction ≥ 1.0) (g : Generator) :
    selects fraction g = (true, g) := by
  simp [selects, h]

theorem selects_of_le_zero {fraction : Float} (h : fraction ≤ 0.0) (h' : ¬ fraction ≥ 1.0)
    (g : Generator) : selects fraction g = (false, g) := by
  simp [selects, h, h']

/-- A deployable part of an application. -/
structure Microservice where
  name : Name
  /-- CPU demand of one instance, in million instructions per second; it is declared as a word. -/
  mips : Nat
  ramMb : Nat := 0
  sizeMb : Nat := 0
  /-- The selectivities, the latest first; an earlier one for the same tuple types is void. -/
  selectivities : List Selectivity := []
  deriving DecidableEq, Repr

namespace Microservice

/-- The fraction of inputs that lead to an output, if there is any. -/
def selectivity? (m : Microservice) (input output : TupleType) : Option Binary64 :=
  (m.selectivities.find? fun s => s.input == input && s.output == output).map Selectivity.fraction

end Microservice

/-! ## Applications -/

/-- The name of an application's client module, unless it gives one. -/
def defaultClientModule : Name := "client"

structure Application where
  id : AppId
  user : UserId
  /-- The microservice that is pinned to the device of the sensor. -/
  clientModule : Name := defaultClientModule
  microservices : List Microservice := []
  edges : List Edge := []
  /-- The chains whose latency is measured, from a sensor type to an actuator type. -/
  loops : List (List Name) := []
  deriving DecidableEq, Repr

/-- The registered applications. -/
abbrev Applications := SortedMap AppId Application

/-- Of two applications with one id the later is registered. -/
def Applications.ofList (apps : List Application) : Applications :=
  SortedMap.ofList (apps.map fun app => (app.id, app))

namespace Application

/-- Adds a selectivity to the first of these microservices with the name, if there is one. -/
def addToFirst (microservice : Name) (s : Selectivity) :
    List Microservice → Option (List Microservice)
  | [] => none
  | m :: rest =>
    if m.name = microservice then some ({ m with selectivities := s :: m.selectivities } :: rest)
    else (addToFirst microservice s rest).map (m :: ·)

/-- Adds a selectivity to a microservice, if the application has it. -/
def addSelectivity (app : Application) (microservice : Name) (s : Selectivity) :
    Option Application :=
  (addToFirst microservice s app.microservices).map fun ms => { app with microservices := ms }

def microservice? (app : Application) (name : Name) : Option Microservice :=
  app.microservices.find? fun m => m.name == name

/-- CPU demand of one instance, zero for a microservice that is not declared. -/
def mipsOf (app : Application) (name : Name) : Nat :=
  ((app.microservice? name).map Microservice.mips).getD 0

def names (app : Application) : List Name := app.microservices.map Microservice.name

def moduleEdges (app : Application) : List Edge :=
  app.edges.filter fun e => e.kind == .module

/-! ### Placement dependencies -/

/-- The microservices that send up into a microservice: their hosts must know where it runs. -/
def clientServices (app : Application) (name : Name) : List Name :=
  (app.moduleEdges.filter fun e => e.destination == name && e.direction == .up).map Edge.source

/--
What a microservice waits for along an edge: the source of an edge that comes up into it, the
destination of an edge that goes down from it.
-/
def requirement? (name : Name) (e : Edge) : List Name :=
  (if e.source = name ∧ e.direction = .down then [e.destination] else [])
    ++ (if e.destination = name ∧ e.direction = .up then [e.source] else [])

/-- Everything that must be placed before a microservice is. -/
def requirements (app : Application) (name : Name) : List Name :=
  app.moduleEdges.flatMap (requirement? name)

def dependenciesPlaced (app : Application) (name : Name) (placed : List Name) : Bool :=
  (app.requirements name).all fun n => placed.contains n

/-- The microservices not yet placed whose requirements are, in declaration order. -/
def readyToPlace (app : Application) (placed : List Name) : List Name :=
  app.names.filter fun n => !placed.contains n && app.dependenciesPlaced n placed

theorem mem_readyToPlace {app : Application} {placed : List Name} {n : Name} :
    n ∈ app.readyToPlace placed
      ↔ n ∈ app.names ∧ n ∉ placed ∧ ∀ r ∈ app.requirements n, r ∈ placed := by
  simp [readyToPlace, dependenciesPlaced, List.mem_filter]

/-! ### Sensors and loops -/

/-- The edge on which sensors of a tuple type feed the application. -/
def sensorEdge? (app : Application) (tupleType : TupleType) : Option Edge :=
  app.edges.find? fun e => e.kind == .sensor && e.source == tupleType

/-- The loops with their ids. -/
def numberedLoops (app : Application) : List (LoopId × List Name) :=
  app.loops.mapIdx fun i modules => (i, modules)

/-- The loops whose last element is the given one. -/
def loopsEndingAt (app : Application) (last : Name) : List LoopId :=
  (app.numberedLoops.filter fun l => l.2.getLast? == some last).map Prod.fst

/-- The message that a sensor of a tuple type emits. -/
def sensorMessage? (app : Application) (tupleType : TupleType) (id : MessageId) (now : Duration) :
    Option Message :=
  (app.sensorEdge? tupleType).map fun e =>
    { id, app := app.id, user := app.user, tupleType := e.tupleType, direction := .up,
      source := e.source, destination := e.destination, cpuLength := e.cpuLength, size := e.size,
      emittedAt := now }

/-! ### Resultant messages -/

/-- The message that an input leads to on an edge. -/
def resultant (app : Application) (input : Message) (e : Edge) (id : MessageId) : Message :=
  let message : Message :=
    { id, app := app.id, user := input.user, tupleType := e.tupleType,
      direction := e.outputDirection, source := e.source, destination := e.destination,
      cpuLength := e.cpuLength, size := e.size, outputSize := input.outputSize }
  message.inherit input

/--
The messages that an input leads to on a list of edges, numbered from `id`. An edge needs a
selectivity for the tuple types, and takes a number only when it is selected.
-/
def resultantsFrom (app : Application) (m : Microservice) (input : Message) :
    List Edge → MessageId → Generator → List Message × Generator
  | [], _, g => ([], g)
  | e :: rest, id, g =>
    match m.selectivity? input.tupleType e.tupleType with
    | none => resultantsFrom app m input rest id g
    | some fraction =>
      match selects fraction.toFloat g with
      | (false, g) => resultantsFrom app m input rest id g
      | (true, g) =>
        let (outputs, g) := resultantsFrom app m input rest (id + 1) g
        (app.resultant input e id :: outputs, g)

/-- The messages a microservice answers an input with, numbered from `id`. -/
def resultants (app : Application) (name : Name) (input : Message) (id : MessageId)
    (g : Generator) : List Message × Generator :=
  match app.microservice? name with
  | none => ([], g)
  | some m => resultantsFrom app m input (app.edges.filter fun e => e.source == name) id g

/-- Messages are numbered without gaps. -/
theorem resultantsFrom_ids (app : Application) (m : Microservice) (input : Message) :
    ∀ (edges : List Edge) (id : MessageId) (g : Generator),
      (resultantsFrom app m input edges id g).1.map Message.id
        = List.range' id (resultantsFrom app m input edges id g).1.length
  | [], _, _ => rfl
  | e :: rest, id, g => by
    unfold resultantsFrom
    split
    · exact resultantsFrom_ids app m input rest id g
    · split
      · exact resultantsFrom_ids app m input rest id _
      · simp only [List.map_cons, List.length_cons, List.range'_succ]
        rw [resultantsFrom_ids app m input rest (id + 1) _]
        rfl

end Application

end FogNet
