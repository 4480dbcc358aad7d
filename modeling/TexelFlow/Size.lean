/-!
# Size — counts and extents in 64-bit words

Every extent, count, offset and byte length is a natural number kept in a 64-bit word. What is said here
is said of the numbers; whether a word holds the numbers that are formed on the way is asked where they
are formed (`Checked`).

The element count of a shape (`Shape.count`) is the one product every part of the library uses.
-/

namespace TexelFlow

/-- A shape: the extents of a tensor, outermost first. The empty shape is a scalar. -/
abbrev Shape := List Nat

namespace Size

/-- One past the largest number a word holds: two to the sixty-fourth. -/
def modulus : Nat := 18446744073709551616

/-- One past the largest number a signed word holds: half of that. -/
def signedModulus : Nat := 9223372036854775808

/-- The largest number a word holds. -/
def largest : Nat := modulus - 1

/-- Bytes that can be addressed. -/
def addressable : Nat := 9223372036854775807

/-- Quotient rounded up. -/
def divCeil (n d : Nat) : Nat := n / d + if n % d = 0 then 0 else 1

/-- Difference stopping at zero. -/
def subStop (a b : Nat) : Nat := a - b

/-- The least root whose square is not below `n`. -/
def ceilSqrt (n : Nat) : Nat :=
  let root := n.sqrt
  if root * root = n then root else root + 1

/-- Restrict to `lo ≤ · ≤ hi`; a range without members has no answer. -/
def clamp (n lo hi : Nat) : Option Nat :=
  if hi < lo then none else some (min (max n lo) hi)

/-- The decimal digits of a word: an optional plus sign, then digits alone, then a value that fits. -/
inductive DigitsFault where
  /-- No character at all. -/
  | empty
  /-- A character that is no digit, or a sign alone. -/
  | invalidDigit
  /-- More than a word holds. -/
  | tooLarge
  deriving DecidableEq, Repr

/-- Wording of each fault. -/
def DigitsFault.message : DigitsFault → String
  | .empty => "cannot parse integer from empty string"
  | .invalidDigit => "invalid digit found in string"
  | .tooLarge => "number too large to fit in target type"

/-- The value of a run of decimal digits, most significant first. -/
def ofDigits (digits : List Char) : Nat :=
  digits.foldl (fun n c => n * 10 + (c.toNat - 48)) 0

/-- Read a word. The first fault in reading order wins: a character that is no digit is noticed
before the overflow that a later digit would cause, and after the overflow that an earlier one did. -/
def readDigits (digits : List Char) (value : Nat) : Except DigitsFault Nat :=
  match digits with
  | [] => .ok value
  | c :: rest =>
    if !c.isDigit then .error .invalidDigit
    else
      let next := value * 10 + (c.toNat - 48)
      if next < modulus then readDigits rest next else .error .tooLarge

/-- Read a word from text. -/
def parse (text : String) : Except DigitsFault Nat :=
  match text.toList with
  | [] => .error .empty
  | ['+'] => .error .invalidDigit
  | '+' :: digits => readDigits digits 0
  | digits => readDigits digits 0

end Size

namespace Shape

/-- Number of elements: the product of all extents; one for a scalar. -/
def count (shape : Shape) : Nat := shape.foldl (· * ·) 1

@[simp] theorem count_nil : count [] = 1 := rfl

/-- Distance in row-major order between neighbours along each axis. -/
def strides : Shape → List Nat
  | [] => []
  | _ :: rest => count rest :: strides rest

end Shape

end TexelFlow
