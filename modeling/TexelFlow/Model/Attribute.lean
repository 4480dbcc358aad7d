import TexelFlow.Json.Reader

/-!
# Attributes

A node carries attributes: truth values, numbers, texts, and lists of numbers or texts. Readers ask an
attribute for what they need, and an attribute answers in every form it can be taken as: a number is
also a list of one number, a list of one number is also a number.

## §1 — attributes
## §2 — what an attribute can be taken as
## §3 — documents
-/

namespace TexelFlow

/-! ## §1 — attributes -/

/-- The value of an attribute. -/
inductive Attribute where
  /-- A truth value. -/
  | bool (b : Bool)
  /-- A number. -/
  | number (x : Binary64)
  /-- A list of numbers. -/
  | numbers (xs : List Binary64)
  /-- A text. -/
  | string (s : String)
  /-- A list of texts. -/
  | strings (ss : List String)
  deriving DecidableEq

/-- Attributes by name. -/
abbrev Attributes := Named Attribute

namespace Attribute

/-! ## §2 — what an attribute can be taken as -/

/-- A number, or the only number of a list. -/
def number? : Attribute → Option Binary64
  | .number x => some x
  | .numbers [x] => some x
  | _ => none

/-- An integral number that is not negative. -/
def size? (a : Attribute) : Option Nat :=
  a.number?.bind fun x => if !x.lt .zero && x.isIntegral then some x.toSize else none

/-- A list of numbers; a number is a list of one. -/
def numbers? : Attribute → Option (List Binary64)
  | .number x => some [x]
  | .numbers xs => some xs
  | _ => none

/-- A text. -/
def string? : Attribute → Option String
  | .string s => some s
  | _ => none

/-- A list of texts; a text is a list of one. -/
def strings? : Attribute → Option (List String)
  | .string s => some [s]
  | .strings ss => some ss
  | _ => none

/-- A truth value; a number is true unless it is zero. -/
def bool? : Attribute → Option Bool
  | .bool b => some b
  | .number x => some (!x.eq .zero)
  | _ => none

/-! ## §3 — documents -/

/-- The attribute of a value: the first form that fits. An array without items is a list of numbers. -/
def ofJson? : Json → Option Attribute
  | .bool b => some (.bool b)
  | .number n => some (.number n.toBinary64)
  | .string s => some (.string s)
  | .array items =>
    match items.mapM Json.real? with
    | some xs => some (.numbers xs)
    | none => (items.mapM Json.string?).map .strings
  | _ => none

/-- Read an attribute. -/
def reader : Json.Reader Attribute := fun d => do
  match ofJson? (← Json.Draft.value d) with
  | some a => return a
  | none => .error .unfit

/-- A number in a document. -/
def jsonOfReal (x : Binary64) : Json := .number (.real x)

/-- An attribute in a document. -/
def toJson : Attribute → Json
  | .bool b => .bool b
  | .number x => jsonOfReal x
  | .numbers xs => .array (xs.map jsonOfReal)
  | .string s => .string s
  | .strings ss => .array (ss.map .string)

end Attribute

end TexelFlow
