import TexelFlow.Size

/-!
# Invocations

What the words of a command line ask for. A word that starts with two dashes is a long switch, which
may carry a value behind an equals sign; one that starts with a single dash is a cluster of short
switches, of which the last one may carry a value. Two dashes alone end the switches. A switch that
takes a value and carries none takes the next word, which must not look like a switch.

Words are taken in order, and the first that cannot be taken decides: a later request for help does
not undo it.

## §1 — commands
## §2 — words
## §3 — switches
## §4 — the switches of each command
## §5 — invocations
-/

namespace TexelFlow.CommandLine

/-! ## §1 — commands -/

/-- What is to be compiled, as given on the command line. -/
structure CompileArguments where
  /-- Location of the model. -/
  model : String
  /-- File of engine options. -/
  config : Option String
  /-- The wanted outputs. -/
  outputs : List String
  /-- Shapes of inputs. -/
  shapes : List String
  deriving DecidableEq, Repr

/-- How inputs of a run are given. -/
structure RunArguments where
  /-- Files with the data of inputs. -/
  inputs : List String
  /-- Seed for the inputs that are not given, if they are to be drawn. -/
  seed : Option Nat
  /-- Whether outputs are compared with the evaluator's. -/
  verify : Bool
  deriving DecidableEq, Repr

/-- A command. -/
inductive Command where
  /-- Show the schedule, the textures and the programs of a model. -/
  | inspect (compile : CompileArguments)
  /-- Print the shader of one node. -/
  | shader (compile : CompileArguments) (node : String)
  /-- Run a model. -/
  | run (compile : CompileArguments) (arguments : RunArguments)
  deriving DecidableEq, Repr

/-- Why the words of a command line are no command. -/
inductive Stop where
  /-- They break the rules. -/
  | misuse
  /-- They ask for help. -/
  | help
  /-- They ask for the version. -/
  | version
  deriving DecidableEq, Repr

/-! ## §2 — words -/

/-- A word by its form. -/
inductive Word where
  /-- No switch. -/
  | plain (text : String)
  /-- A long switch and the value it carries. -/
  | long (name : List Char) (value : Option String)
  /-- Short switches. -/
  | short (cluster : List Char)
  /-- The end of the switches. -/
  | ending

/-- The form of a word. -/
def Word.of (text : String) : Word :=
  match text.toList with
  | ['-', '-'] => .ending
  | '-' :: '-' :: rest =>
    let name := rest.takeWhile (· ≠ '=')
    match rest.drop name.length with
    | [] => .long name none
    | _ :: value => .long name (some (String.ofList value))
  | '-' :: c :: cluster => .short (c :: cluster)
  | _ => .plain text

/-! ## §3 — switches -/

/-- What has been gathered from the words so far. -/
structure Gathered where
  /-- Location of the model. -/
  model : Option String := none
  /-- File of engine options. -/
  config : Option String := none
  /-- The wanted outputs. -/
  outputs : List String := []
  /-- Shapes of inputs. -/
  shapes : List String := []
  /-- The node whose shader is wanted. -/
  node : Option String := none
  /-- Files with the data of inputs. -/
  inputs : List String := []
  /-- Whether inputs are to be drawn. -/
  drawn : Bool := false
  /-- Seed for drawing. -/
  seed : Option Nat := none
  /-- Whether outputs are to be compared. -/
  verify : Bool := false

/-- Take a value into what is gathered. -/
abbrev Take := String → Gathered → Except Stop Gathered

/-- What a switch does. -/
inductive Effect where
  /-- It stands alone. -/
  | alone (apply : Gathered → Except Stop Gathered)
  /-- It takes a value. -/
  | valued (take : Take)

/-- A switch. -/
structure Switch where
  /-- Its long name. -/
  long : List Char
  /-- Its short name. -/
  short : Option Char
  /-- What it does. -/
  effect : Effect

/-- Take a value that may be given once. -/
def once {α : Type} (read : String → Option α) (get : Gathered → Option α)
    (put : Gathered → α → Gathered) : Take := fun text g =>
  match get g, read text with
  | none, some a => .ok (put g a)
  | _, _ => .error .misuse

/-- A path is not empty. -/
def path? (text : String) : Option String := if text = "" then none else some text

/-- A seed is a word. -/
def seed? (text : String) : Option Nat := (Size.parse text).toOption

/-- Take the location of the model. -/
def takeModel : Take := once path? (·.model) fun g s => { g with model := some s }

/-- Take a cluster of short switches. What is left is a switch that waits for its value. -/
def takeCluster (switches : List Switch) : List Char → Gathered → Except Stop (Gathered × Option Take)
  | [], g => .ok (g, none)
  | c :: rest, g =>
    match switches.find? (·.short = some c) with
    | none => .error .misuse
    | some s =>
      match s.effect with
      | .alone apply => do takeCluster switches rest (← apply g)
      | .valued take =>
        match rest with
        | [] => .ok (g, some take)
        | '=' :: value => do return (← take (String.ofList value) g, none)
        | value => do return (← take (String.ofList value) g, none)

/-- Take a long switch. What is left is a switch that waits for its value. -/
def takeLong (switches : List Switch) (name : List Char) (value : Option String) (g : Gathered) :
    Except Stop (Gathered × Option Take) :=
  match switches.find? (·.long = name) with
  | none => .error .misuse
  | some s =>
    match s.effect, value with
    | .alone apply, none => do return (← apply g, none)
    | .alone _, some _ => .error .misuse
    | .valued take, some text => do return (← take text g, none)
    | .valued take, none => .ok (g, some take)

/-- Take the words of a command. `waiting` is a switch that waits for its value. -/
def gather (switches : List Switch) (g : Gathered) (waiting : Option Take) :
    List String → Except Stop Gathered
  | [] => if waiting.isSome then .error .misuse else .ok g
  | text :: rest =>
    match Word.of text, waiting with
    | .plain text, some take => do gather switches (← take text g) none rest
    | .plain text, none => do gather switches (← takeModel text g) none rest
    | _, some _ => .error .misuse
    | .ending, none => rest.foldlM (fun g text => takeModel text g) g
    | .long name value, none => do
      let (g, waiting) ← takeLong switches name value g
      gather switches g waiting rest
    | .short cluster, none => do
      let (g, waiting) ← takeCluster switches cluster g
      gather switches g waiting rest

/-! ## §4 — the switches of each command -/

/-- Say more about what is done; this changes no result. -/
def verboseSwitch : Switch := ⟨"verbose".toList, some 'v', .alone .ok⟩

/-- Ask for help. -/
def helpSwitch : Switch := ⟨"help".toList, some 'h', .alone fun _ => .error .help⟩

/-- Switches of every command. -/
def compileSwitches : List Switch :=
  [verboseSwitch, helpSwitch,
   ⟨"config".toList, some 'c', .valued (once path? (·.config) fun g s => { g with config := some s })⟩,
   ⟨"output".toList, some 'o', .valued fun s g => .ok { g with outputs := g.outputs ++ [s] }⟩,
   ⟨"input-shape".toList, some 's', .valued fun s g => .ok { g with shapes := g.shapes ++ [s] }⟩]

/-- Switches for printing a shader. -/
def shaderSwitches : List Switch :=
  ⟨"node".toList, some 'n', .valued (once some (·.node) fun g s => { g with node := some s })⟩
    :: compileSwitches

/-- Switches for a run. -/
def runSwitches : List Switch :=
  [⟨"input".toList, some 'i', .valued fun s g => .ok { g with inputs := g.inputs ++ [s] }⟩,
   ⟨"random-inputs".toList, none,
     .alone fun g => if g.drawn then .error .misuse else .ok { g with drawn := true }⟩,
   ⟨"seed".toList, none, .valued (once seed? (·.seed) fun g n => { g with seed := some n })⟩,
   ⟨"verify".toList, none,
     .alone fun g => if g.verify then .error .misuse else .ok { g with verify := true }⟩]
    ++ compileSwitches

/-! ## §5 — invocations -/

/-- What every command needs. -/
def Gathered.compile (g : Gathered) : Except Stop CompileArguments :=
  match g.model with
  | some model => .ok ⟨model, g.config, g.outputs, g.shapes⟩
  | none => .error .misuse

/-- The commands for which help can be asked. -/
def commandNames : List String := ["inspect", "shader", "run", "help"]

/-- A command by its name and the words behind it. -/
def Command.of (name : String) (words : List String) : Except Stop Command := do
  if name = "inspect" then
    let g ← gather compileSwitches {} none words
    return .inspect (← g.compile)
  else if name = "shader" then
    let g ← gather shaderSwitches {} none words
    let c ← g.compile
    match g.node with
    | some node => return .shader c node
    | none => throw .misuse
  else if name = "run" then
    let g ← gather runSwitches {} none words
    let seed := if g.drawn then some (g.seed.getD 0) else none
    return .run (← g.compile) ⟨g.inputs, seed, g.verify⟩
  else if name = "help" then
    match words with
    | [] => throw .help
    | [topic] => throw (if topic ∈ commandNames then .help else .misuse)
    | _ => throw .misuse
  else throw .misuse

/-- Take short switches before the command. -/
def takeEarly : List Char → Except Stop Unit
  | [] => .ok ()
  | 'v' :: rest => takeEarly rest
  | 'h' :: _ => .error .help
  | 'V' :: _ => .error .version
  | _ => .error .misuse

/-- **Read** the words of a command line. -/
def Command.parse : List String → Except Stop Command
  | [] => .error .misuse
  | text :: rest =>
    match Word.of text with
    | .plain name => Command.of name rest
    | .short cluster => do takeEarly cluster; Command.parse rest
    | .long name none =>
      if name = verboseSwitch.long then Command.parse rest
      else if name = helpSwitch.long then .error .help
      else if name = "version".toList then .error .version
      else .error .misuse
    | .long _ (some _) => .error .misuse
    | .ending => .error .misuse

end TexelFlow.CommandLine
