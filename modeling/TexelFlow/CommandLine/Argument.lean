import TexelFlow.CommandLine.Failure
import TexelFlow.Device.HostTensor
import TexelFlow.Json.Reader
import TexelFlow.Store.Files

/-!
# Arguments of the form name=value

The shape of an input is given by its extents between commas, its data by a file with nested arrays.
The name ends at the first equals sign; neither side may be empty.
-/

namespace TexelFlow.CommandLine

/-- The two sides of an argument. -/
def splitArgument (argument : String) : Attempt (String × String) :=
  let cs := argument.toList
  let name := cs.takeWhile (· ≠ '=')
  match name, cs.drop name.length with
  | _ :: _, _ :: c :: value => .ok (String.ofList name, String.ofList (c :: value))
  | _, _ => .error (.words s!"Invalid argument '{argument}', expected name=value")

/-- Read one extent. -/
def readExtent (argument : String) (extent : List Char) : Attempt Nat :=
  match Size.parse (String.ofList (Text.trim extent)) with
  | .ok n => .ok n
  | .error fault =>
    .error (.about s!"Invalid dimension '{String.ofList extent}' in '{argument}'" (.digits fault))

/-- **Read** the shape of an input. -/
def readShape (argument : String) : Attempt (String × Shape) := do
  let (name, extents) ← splitArgument argument
  return (name, ← (Text.pieces ',' extents.toList).mapM (readExtent argument))

/-- The host tensor that a document holds. -/
def hostTensor (path text : String) : Attempt HostTensor :=
  match Json.parse text with
  | .error fault => .error (.about s!"Input file {path} is not valid JSON" (.document fault))
  | .ok j =>
    match HostTensor.ofNested j with
    | .error error => .error (.about s!"Input file {path} is not a rectangular array" (.library error))
    | .ok t => .ok t

/-- **Read** the data of an input. -/
def readInput {m : Type → Type} [Monad m] [FileAccess m] (argument : String) :
    ExceptT Failure m (String × HostTensor) := do
  let (name, path) ← splitArgument argument
  match ← FileAccess.readText (m := m) path with
  | .error fault => throw (.about s!"Failed to read input '{name}' from {path}" (.file fault))
  | .ok text => return (name, ← hostTensor path text)

end TexelFlow.CommandLine
