import TexelFlow.Json.Value

/-!
# Numerals

A numeral is the text of a number taken apart: sign, digits before the point, digits behind it,
exponent. Its value is an integer where the text is one and fits a word. Otherwise it is formed in
binary64: the leading digits that fit a word make a significand, the rest of them only shift it, and
the power of ten is applied by one division or product at a time, each rounded. The last place may
thus differ from the nearest word.
-/

namespace TexelFlow.Json

/-- The text of a number, taken apart. -/
structure Numeral where
  /-- Whether a minus sign stands in front. -/
  minus : Bool
  /-- Digits before the point. -/
  whole : List Char
  /-- Digits behind the point, if there is one. -/
  fraction : Option (List Char)
  /-- Whether the exponent is negative, and its digits, if there is one. -/
  exponent : Option (Bool × List Char)

namespace Numeral

/-- The value of a digit. -/
def digit (c : Char) : Nat := c.toNat - 48

/-- Take up digits while the significand fits a word; the number of digits left out is returned too. -/
def gather (significand : Nat) : List Char → Nat × Nat
  | [] => (significand, 0)
  | c :: rest =>
    let next := significand * 10 + digit c
    if next < Size.modulus then gather next rest else (significand, rest.length + 1)

/-- The largest power of ten applied at once. -/
def largestPower : Nat := 308

/-- A binary64 word times a power of ten, in steps of at most `10 ^ 308`; no answer when the product
is too large for the format. -/
def scale (x : Binary64) (e : Int) : Option Binary64 :=
  if e.natAbs ≤ largestPower then
    if 0 ≤ e then
      let y := x.mul (.ofNat (Nat.pow 10 e.natAbs))
      if y.isInfinite then none else some y
    else some (x.div (.ofNat (Nat.pow 10 e.natAbs)))
  else if x.eq .zero then some x
  else if h : 0 ≤ e then none
  else
    have : (-(e + 308)).toNat < (-e).toNat := by omega
    scale (x.div (.ofNat (Nat.pow 10 largestPower))) (e + 308)
termination_by (-e).toNat

/-- Give a number a sign. -/
def signed (minus : Bool) (x : Binary64) : Binary64 := if minus then x.neg else x

/-- Largest exponent that is counted exactly. -/
def exponentBound : Nat := 2147483647

/-- The number of a significand and a power of ten; none when it is too large. -/
def real (minus : Bool) (significand : Nat) (shift : Int) :
    Option (Bool × List Char) → Option Number
  | none => (scale (.ofNat significand) shift).map fun x => .real (signed minus x)
  | some (negative, digits) =>
    let e := Size.ofDigits digits
    if exponentBound < e then
      if significand = 0 || negative then some (.real (signed minus .zero)) else none
    else
      let total := if negative then shift - e else shift + e
      (scale (.ofNat significand) total).map fun x => .real (signed minus x)

/-- The number a numeral stands for; none when it is too large for the format. -/
def value (n : Numeral) : Option Number :=
  let (significand, dropped) := gather 0 n.whole
  match n.fraction, n.exponent with
  | none, none =>
    if dropped ≠ 0 then real n.minus significand dropped none
    else if !n.minus then some (.natural significand)
    else if significand = 0 then some (.real (signed true .zero))
    else if significand ≤ Size.signedModulus then some (.negative significand)
    else some (.real (signed true (.ofNat significand)))
  | none, exponent => real n.minus significand dropped exponent
  | some digits, exponent =>
    let (significand', left) := gather significand digits
    real n.minus significand' ((dropped : Int) - (digits.length - left : Nat)) exponent

end Numeral

end TexelFlow.Json
