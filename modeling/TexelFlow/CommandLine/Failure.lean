import TexelFlow.Error
import TexelFlow.Text.Pieces

/-!
# Failures of a command

A failure is a cause and, around it, what the command was about when it came up, the outermost first.
Its report names the outermost text and lists the others below it, numbered if there are several.
-/

namespace TexelFlow.CommandLine

/-- What a failure comes from. -/
inductive Cause where
  /-- A fault that its own words describe. -/
  | words (text : String)
  /-- An error of the library. -/
  | library (error : Error)
  /-- A document that cannot be read. -/
  | document (fault : Json.Fault)
  /-- A number that cannot be read. -/
  | digits (fault : Size.DigitsFault)
  /-- A file that cannot be read. -/
  | file (fault : FileFault)
  deriving DecidableEq

/-- The texts of a cause, the outermost first. -/
def Cause.texts : Cause → List String
  | .words text => [text]
  | .library error => error.message :: error.cause?.toList
  | .document fault => [fault.message]
  | .digits fault => [fault.message]
  | .file fault => [fault.message]

/-- Why a command failed. -/
structure Failure where
  /-- What the command was about, the outermost first. -/
  contexts : List String
  /-- What it comes from. -/
  cause : Cause
  deriving DecidableEq

/-- Result of a step of a command. -/
abbrev Attempt (α : Type) := Except Failure α

namespace Failure

/-- A failure that its own words describe. -/
def words (text : String) : Failure := ⟨[], .words text⟩

/-- A cause and what the command was about. -/
def about (context : String) (cause : Cause) : Failure := ⟨[context], cause⟩

/-- An error of the library. -/
def ofError (error : Error) : Failure := ⟨[], .library error⟩

/-- A failure inside something larger. -/
def within (context : String) (f : Failure) : Failure := { f with contexts := context :: f.contexts }

/-- All texts of a failure, the outermost first. -/
def texts (f : Failure) : List String := f.contexts ++ f.cause.texts

/-- The number of a text and a colon, the number in five columns. -/
def numbering (index : Nat) : String :=
  let digits := toString index
  String.ofList (List.replicate (5 - digits.length) ' ') ++ digits ++ ": "

/-- A text with its further lines indented. -/
def hang (indent text : String) : String :=
  ("\n" ++ indent).intercalate ((Text.pieces '\n' text.toList).map String.ofList)

/-- The lines about the inner texts of a failure. -/
def inner : List String → String
  | [] => ""
  | [text] => "\n\nCaused by:\n    " ++ hang "    " text
  | texts => "\n\nCaused by:" ++ String.join (texts.mapIdx fun index text =>
      "\n" ++ numbering index ++ hang "       " text)

/-- The report of a failure. -/
def report (f : Failure) : String :=
  match f.texts with
  | [] => ""
  | text :: others => "Error: " ++ text ++ inner others ++ "\n"

end Failure

end TexelFlow.CommandLine
