import TexelFlow.Named
import TexelFlow.Decimal.Shortest

/-!
# JSON values

What a document says once it is read: numbers keep the form they were written in (an integer that
fits a word stays one), objects are maps in name order, so two spellings of one object are one value.
Writing is beside it, in the compact form and in an indented one.

## §1 — values
## §2 — writing
-/

namespace TexelFlow

/-! ## §1 — values -/

/-- Why a document could not be read. -/
inductive Json.Fault where
  /-- The text is no JSON: a wrong character, a number out of range, a bad escape, text after the end. -/
  | malformed
  /-- The text stops before the document does. -/
  | cutShort
  /-- The document is JSON of another form than the one asked for. -/
  | unfit
  deriving DecidableEq, Repr

/-- Wording of each fault. -/
def Json.Fault.message : Json.Fault → String
  | .malformed => "the text is not a JSON document"
  | .cutShort => "the text ends inside the document"
  | .unfit => "the document has another form than expected"

/-- A number as it was written. -/
inductive Json.Number where
  /-- An integer from zero up to the largest word. -/
  | natural (n : Nat)
  /-- A negative integer down to the least signed word, by its magnitude. -/
  | negative (magnitude : Nat)
  /-- Any other number, as the binary64 word it was read as. -/
  | real (x : Binary64)
  /-- A binary32 word to be written; reading never gives this form. -/
  | single (x : Binary32)
  deriving DecidableEq

/-- A number as a binary64 word. -/
def Json.Number.toBinary64 : Json.Number → Binary64
  | .natural n => .ofNat n
  | .negative m => .ofInt (-(m : Int))
  | .real x => x
  | .single x => x.toBinary64

/-- A JSON value. -/
inductive Json where
  /-- The null value. -/
  | null
  /-- A truth value. -/
  | bool (b : Bool)
  /-- A number. -/
  | number (n : Json.Number)
  /-- A text. -/
  | string (s : String)
  /-- A sequence of values. -/
  | array (items : List Json)
  /-- Values under names; of two members with one name the later one counts. -/
  | object (members : List (String × Json))

namespace Json

/-- A natural number. -/
def nat (n : Nat) : Json := .number (.natural n)

/-- An integer. -/
def int (n : Int) : Json := if n < 0 then .number (.negative n.natAbs) else .number (.natural n.natAbs)

/-- The value of a member. -/
def member? (j : Json) (name : String) : Option Json :=
  match j with
  | .object members => Named.lookup name members
  | _ => none

/-- The items of an array. -/
def items? : Json → Option (List Json)
  | .array items => some items
  | _ => none

/-- The text of a string. -/
def string? : Json → Option String
  | .string s => some s
  | _ => none

/-- A truth value. -/
def bool? : Json → Option Bool
  | .bool b => some b
  | _ => none

/-- A number as a binary64 word. -/
def real? : Json → Option Binary64
  | .number n => some n.toBinary64
  | _ => none

/-! ## §2 — writing -/

/-- Numbers of 64 bits are written positionally when the point stands after at most sixteen digits
or after at most four zeros behind it. -/
def style64 : Decimal.Style := ⟨-5, 16, true⟩

/-- Numbers of 32 bits are written positionally when the point stands after at most thirteen digits
or after at most five zeros behind it. -/
def style32 : Decimal.Style := ⟨-6, 13, true⟩

/-- Text of a number; an infinity and what is no number have none and are written as null. -/
def Number.text : Number → String
  | .natural n => toString n
  | .negative m => "-" ++ toString m
  | .real x => if x.isFinite then style64.text64 x else "null"
  | .single x => if x.isFinite then style32.text32 x else "null"

/-- One hexadecimal digit. -/
def hexDigit (n : Nat) : Char := (Nat.toDigits 16 (n % 16)).headD '0'

/-- A character inside a string: quotes, backslashes and control characters are escaped. -/
def escape (c : Char) : List Char :=
  if c = '"' then ['\\', '"']
  else if c = '\\' then ['\\', '\\']
  else if c.toNat = 8 then ['\\', 'b']
  else if c.toNat = 9 then ['\\', 't']
  else if c.toNat = 10 then ['\\', 'n']
  else if c.toNat = 12 then ['\\', 'f']
  else if c.toNat = 13 then ['\\', 'r']
  else if c.toNat < 32 then ['\\', 'u', '0', '0', hexDigit (c.toNat / 16), hexDigit c.toNat]
  else [c]

/-- A text between quotes. -/
def quote (s : String) : String := String.ofList ('"' :: s.toList.flatMap escape ++ ['"'])

mutual

/-- Text of a value without blanks. -/
def compact : Json → String
  | .null => "null"
  | .bool true => "true"
  | .bool false => "false"
  | .number n => n.text
  | .string s => quote s
  | .array items => "[" ++ ",".intercalate (compactItems items) ++ "]"
  | .object members => "\x7b" ++ ",".intercalate (compactMembers members) ++ "\x7d"

/-- Texts of the items of an array. -/
def compactItems : List Json → List String
  | [] => []
  | j :: rest => compact j :: compactItems rest

/-- Texts of the members of an object. -/
def compactMembers : List (String × Json) → List String
  | [] => []
  | (k, j) :: rest => (quote k ++ ":" ++ compact j) :: compactMembers rest

end

/-- A line break followed by two blanks for each level. -/
def lineBreak (level : Nat) : String := "\n" ++ String.ofList (List.replicate (2 * level) ' ')

mutual

/-- Text of a value with one item or member on a line, indented by two blanks for each level. -/
def indented (level : Nat) : Json → String
  | .array [] => "[]"
  | .array items =>
    "[" ++ ",".intercalate (indentedItems (level + 1) items) ++ lineBreak level ++ "]"
  | .object [] => "\x7b\x7d"
  | .object members =>
    "\x7b" ++ ",".intercalate (indentedMembers (level + 1) members) ++ lineBreak level ++ "\x7d"
  | .null => "null"
  | .bool true => "true"
  | .bool false => "false"
  | .number n => n.text
  | .string s => quote s

/-- Lines of the items of an array. -/
def indentedItems (level : Nat) : List Json → List String
  | [] => []
  | j :: rest => (lineBreak level ++ indented level j) :: indentedItems level rest

/-- Lines of the members of an object. -/
def indentedMembers (level : Nat) : List (String × Json) → List String
  | [] => []
  | (k, j) :: rest => (lineBreak level ++ quote k ++ ": " ++ indented level j) :: indentedMembers level rest

end

/-- The indented text of a document. -/
def pretty (j : Json) : String := indented 0 j

end Json

end TexelFlow
