import TexelFlow.CommandLine.Run

/-!
# The program

Files of the system, the words of the command line, and the two streams that a command writes to.
-/

namespace TexelFlow

/-- The fault behind an error of the system, by its number. -/
def faultOfSystem (e : IO.Error) : FileFault :=
  match e with
  | .noFileOrDirectory _ _ _ => .notFound
  | .inappropriateType _ 21 _ => .isDirectory
  | .inappropriateType _ 20 _ => .notDirectory
  | .inappropriateType _ _ _ => .notDirectory
  | e => .other (toString e)

/-- A file operation of the system with its fault as a value. -/
def attempt {α : Type} (act : IO α) : IO (Except FileFault α) := do
  match ← act.toBaseIO with
  | .ok a => return .ok a
  | .error e => return .error (faultOfSystem e)

instance : FileAccess IO where
  read path := attempt do return (← IO.FS.readBinFile path).toList
  write path bytes := attempt (IO.FS.writeBinFile path ⟨bytes.toArray⟩)

end TexelFlow

/-- Run the words of the command line. -/
def main (words : List String) : IO UInt32 := do
  let result ← TexelFlow.CommandLine.respond (m := IO) words
  (← IO.getStdout).putStr result.output
  (← IO.getStderr).putStr result.report
  return UInt32.ofNat result.status
