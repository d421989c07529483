import FogNet.Identifier

/-!
# Options

The command line is a list of words. Every option takes a value: after `=`, in the next word or, for
an option with a letter, right behind the letter. No option is given twice, there are no other
words, and a value of its own word does not begin with a dash unless it is a dash.

## Main statements

* `parse_nil` — without words, all options have their defaults
* `parse_stray` — a word that belongs to no option is refused
* `set_twice` — an option that is given is not given again
-/

namespace FogNet.CommandLine

/-! ## Values -/

/-- The number that decimal digits stand for. -/
def digits? (text : List Char) : Option Nat :=
  if text.isEmpty || text.any fun c => !c.isDigit then none
  else some (text.foldl (fun n c => 10 * n + (c.toNat - '0'.toNat)) 0)

/-- A number of at most so many bits, which a plus may precede. -/
def count? (bits : Nat) (text : String) : Option Nat :=
  let digits := match text.toList with
    | '+' :: rest => rest
    | cs => cs
  (digits? digits).filter fun n => n < Nat.pow 2 bits

/-- Like `count?`, but zero may also have a minus. -/
def signedCount? (bits : Nat) (text : String) : Option Nat :=
  match text.toList with
  | '-' :: rest => (digits? rest).filter fun n => n == 0
  | _ => count? bits text

/-- The name of a file. -/
def path? (text : String) : Option String := if text.isEmpty then none else some text

/-! ## Options -/

/-- The options there are. -/
inductive Key where
  | config
  | gateways
  | clients
  | duration
  | seed
  | placementInterval
  | strategy
  | metricsOut
  | logLevel
  deriving DecidableEq, Repr

namespace Key

def all : List Key :=
  [config, gateways, clients, duration, seed, placementInterval, strategy, metricsOut, logLevel]

def name : Key → String
  | config => "config"
  | gateways => "gateways"
  | clients => "clients"
  | duration => "duration"
  | seed => "seed"
  | placementInterval => "placement-interval-ms"
  | strategy => "strategy"
  | metricsOut => "metrics-out"
  | logLevel => "log-level"

def letter? : Key → Option Char
  | gateways => some 'g'
  | clients => some 'c'
  | duration => some 'd'
  | _ => none

def ofName? (name : String) : Option Key := all.find? fun k => k.name == name

def ofLetter? (letter : Char) : Option Key := all.find? fun k => k.letter? == some letter

end Key

/-- The options that are given. -/
structure Options where
  /-- The document of the scenario; without it the demo is run. -/
  config : Option String := none
  /-- The number of gateways of the demo. -/
  gateways : Option Nat := none
  /-- The number of clients for each gateway of the demo. -/
  clients : Option Nat := none
  /-- In seconds. -/
  duration : Option Nat := none
  seed : Option UInt64 := none
  placementIntervalMs : Option Nat := none
  strategy : Option String := none
  /-- Where the measurements are written to. -/
  metricsOut : Option String := none
  logLevel : Option String := none
  deriving DecidableEq, Repr

/-- Puts a value where there is none yet. -/
def fill {α : Type} (slot value : Option α) : Option (Option α) :=
  match slot, value with
  | none, some a => some (some a)
  | _, _ => none

/-- Gives an option its value, if it has none and the text is one. -/
def Options.set (o : Options) (key : Key) (text : String) : Option Options :=
  match key with
  | .config => (fill o.config (path? text)).map fun v => { o with config := v }
  | .gateways => (fill o.gateways (signedCount? 32 text)).map fun v => { o with gateways := v }
  | .clients => (fill o.clients (signedCount? 32 text)).map fun v => { o with clients := v }
  | .duration => (fill o.duration (count? 64 text)).map fun v => { o with duration := v }
  | .seed =>
    (fill o.seed ((count? 64 text).map UInt64.ofNat)).map fun v => { o with seed := v }
  | .placementInterval =>
    (fill o.placementIntervalMs (count? 64 text)).map fun v => { o with placementIntervalMs := v }
  | .strategy => (fill o.strategy (some text)).map fun v => { o with strategy := v }
  | .metricsOut => (fill o.metricsOut (path? text)).map fun v => { o with metricsOut := v }
  | .logLevel => (fill o.logLevel (some text)).map fun v => { o with logLevel := v }

/-- An option that is given is not given again. -/
theorem set_twice {o o' : Options} {key : Key} {text again : String}
    (h : o.set key text = some o') : o'.set key again = none := by
  have filled {α : Type} {slot value : Option α} {v : Option α} (h : fill slot value = some v)
      (other : Option α) : fill v other = none := by
    unfold fill at h
    split at h
    · obtain rfl := Option.some.inj h
      rfl
    · cases h
  cases key <;>
  · simp only [Options.set, Option.map_eq_some_iff] at h
    obtain ⟨v, hv, rfl⟩ := h
    simp [Options.set, filled hv]

/-! ## Words -/

/-- A word of the command line. -/
inductive Word where
  /-- Two dashes, a name and perhaps a value. -/
  | long (name : String) (value : Option String)
  /-- A dash, a letter and what is right behind it. -/
  | short (letter : Char) (rest : List Char)
  /-- Two dashes. -/
  | dashes
  | plain (text : String)

def Word.ofString (text : String) : Word :=
  match text.toList with
  | ['-', '-'] => .dashes
  | '-' :: '-' :: rest =>
    let name := String.ofList (rest.takeWhile fun c => c != '=')
    match rest.dropWhile fun c => c != '=' with
    | [] => .long name none
    | _ :: value => .long name (some (String.ofList value))
  | '-' :: letter :: rest => .short letter rest
  | _ => .plain text

/-! ## Commands -/

/-- What a command line asks for. -/
inductive Command where
  | run (options : Options)
  | help
  | version
  deriving DecidableEq, Repr

/-- What an option word leads to. -/
inductive Step where
  | done (command : Command)
  /-- The option is complete. -/
  | given (options : Options)
  /-- The value of the option is the next word. -/
  | awaiting (key : Key)

/-- Takes a word that begins with a dash. -/
def takeOption (o : Options) : Word → Option Step
  | .long "help" none => some (.done .help)
  | .long "version" none => some (.done .version)
  | .long name value =>
    match Key.ofName? name, value with
    | none, _ => none
    | some key, none => some (.awaiting key)
    | some key, some text => (o.set key text).map .given
  | .short 'h' _ => some (.done .help)
  | .short 'V' _ => some (.done .version)
  | .short letter rest =>
    match Key.ofLetter? letter, rest with
    | none, _ => none
    | some key, [] => some (.awaiting key)
    | some key, '=' :: text => (o.set key (String.ofList text)).map .given
    | some key, text => (o.set key (String.ofList text)).map .given
  | .dashes => none
  | .plain _ => none

/--
Reads words one after another; `awaiting` is the option whose value comes next. Help and version are
answered as soon as they are asked for, if nothing before them is wrong.
-/
def parseFrom (o : Options) : (awaiting : Option Key) → List String → Option Command
  | none, [] => some (.run o)
  | some _, [] => none
  | some key, word :: rest =>
    match Word.ofString word with
    | .plain text => (o.set key text).bind fun o => parseFrom o none rest
    | _ => none
  | none, word :: rest =>
    match Word.ofString word with
    | .dashes => if rest.isEmpty then some (.run o) else none
    | word =>
      match takeOption o word with
      | none => none
      | some (.done command) => some command
      | some (.given o) => parseFrom o none rest
      | some (.awaiting key) => parseFrom o (some key) rest

/-- What a command line asks for; nothing where it is not as it should be. -/
def parse (words : List String) : Option Command := parseFrom {} none words

theorem parse_nil : parse [] = some (.run {}) := rfl

/-- A word that belongs to no option is refused. -/
theorem parse_stray {word : String} (rest : List String) (h : Word.ofString word = .plain word) :
    parse (word :: rest) = none := by
  simp [parse, parseFrom, h, takeOption]

/-! ## Help -/

def version : String := "fogmesh-sim 0.1.0"

/-- A line for each option. -/
def usage : List String :=
  "Usage: fogmesh-sim [OPTIONS]" :: "" :: Key.all.map fun k =>
    (match k.letter? with
      | some c => "  -" ++ String.singleton c ++ ", "
      | none => "      ")
    ++ "--" ++ k.name ++ " <VALUE>"

end FogNet.CommandLine
