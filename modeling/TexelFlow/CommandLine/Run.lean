import TexelFlow.CommandLine.Argument
import TexelFlow.CommandLine.Inspect
import TexelFlow.CommandLine.Invocation
import TexelFlow.CommandLine.RandomInputs
import TexelFlow.CommandLine.Validator
import TexelFlow.Store.Registry

/-!
# Running a command

A command reads its model, its options and its shapes, in this order, and then shows what it was asked
for. Its result is a status, what it prints and what it reports. Nothing here knows how files are
read; a run needs a device, and a program of this library alone has none.
-/

namespace TexelFlow.CommandLine

/-- What a command leaves behind. -/
structure Result where
  /-- Its status: zero where all went well. -/
  status : Nat
  /-- What it prints. -/
  output : String
  /-- What it reports. -/
  report : String
  deriving DecidableEq, Repr

/-- A model, options and what is to be compiled. -/
structure Loaded where
  /-- The model. -/
  model : LoadedModel
  /-- Options of the engine. -/
  options : EngineOptions
  /-- What is to be compiled. -/
  request : CompileRequest

section

variable {m : Type → Type} [Monad m] [FileAccess m]

/-- Read the model. -/
def loadModel (path : String) : ExceptT Failure m LoadedModel :=
  .mk do
    let model ← (Registry.standard.load (m := m) path).run
    return model.mapError fun e => .about s!"Failed to load model from {path}" (.library e)

/-- Read the options. -/
def loadOptions : Option String → ExceptT Failure m EngineOptions
  | none => return {}
  | some path => do
    match ← FileAccess.readText (m := m) path with
    | .error fault => throw (.about s!"Failed to read engine options from {path}" (.file fault))
    | .ok text =>
      match EngineOptions.parse text with
      | .error e => throw (.about s!"Invalid engine options in {path}" (.library e))
      | .ok o => return o

/-- Read everything that a command compiles. -/
def load (c : CompileArguments) : ExceptT Failure m Loaded := do
  let model ← loadModel c.model
  let options ← loadOptions c.config
  let shapes ← c.shapes.mapM fun s => liftM (readShape s)
  return ⟨model, options, ⟨c.outputs, .ofList shapes⟩⟩

end

/-- Compile for the limits that every device keeps. -/
def Loaded.compile (l : Loaded) : Outcome Compiled :=
  Compiled.ofDescription l.model.description l.model.weights l.options .standard l.request

/-- Show a compiled graph, or the shader of one of its nodes. -/
def Loaded.view (l : Loaded) (node : Option String) : Attempt String :=
  match l.compile with
  | .error e => .error (.about "Failed to compile model" (.library e))
  | .ok c => CommandLine.view c node

/-- Why a run stops: there is no device. -/
def noDevice : Failure :=
  .about "Failed to initialize GPU" (.words "GPU initialization failed: no suitable GPU adapter")

section

variable {m : Type → Type} [Monad m] [FileAccess m]

/-- What a command prints. -/
def Command.execute : Command → ExceptT Failure m String
  | .inspect c => do liftM ((← load c).view none)
  | .shader c node => do liftM ((← load c).view (some node))
  | .run c _ => do
    let _ ← load (m := m) c
    throw noDevice

/-- How the program is called. -/
def usage : String := "Usage: rasternet [-v] <inspect|shader|run> [OPTIONS] <MODEL>\n"

/-- Name and version of the program. -/
def versionText : String := "rasternet 0.1.0\n"

/-- **Run** the words of a command line. -/
def respond (words : List String) : m Result := do
  match Command.parse words with
  | .error .help => return ⟨0, usage, ""⟩
  | .error .version => return ⟨0, versionText, ""⟩
  | .error .misuse => return ⟨2, "", usage⟩
  | .ok c =>
    match ← (c.execute (m := m)).run with
    | .ok output => return ⟨0, output, ""⟩
    | .error failure => return ⟨1, "", failure.report⟩

end

end TexelFlow.CommandLine
