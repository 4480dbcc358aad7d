import TexelFlow.Binary.Basic

/-!
# Shortest decimals

A floating-point word stands for an interval of reals: all those that round to it. Its shortest
decimal is a multiple of the largest power of ten that has a multiple in the interval, and of those
multiples the one nearest to the word's own number.

The number is `m · 2 ^ e`. Quarters of the last place are counted, so that both halves of the
interval are whole: it reaches two quarters up, and two quarters down, but one only where the
neighbour below is half as far away. Its ends belong to it when `m` is even, because ties round to
even.

## §1 — the search
## §2 — decimal text
-/

namespace TexelFlow.Decimal

open Float.Model (UnpackedFloat)

/-! ## §1 — the search -/

/-- A positive decimal `digits · 10 ^ exponent`. -/
structure Digits where
  /-- The significant digits as a number. -/
  digits : Nat
  /-- Power of ten of the last digit. -/
  exponent : Int
  deriving DecidableEq

/-- The reals that round to one word, in quarters of its last place: `middle · 2 ^ scale` is the
word's number, `below` and `above` are the ends. -/
structure Interval where
  /-- The word's own number. -/
  middle : Nat
  /-- The lower end. -/
  below : Nat
  /-- The upper end. -/
  above : Nat
  /-- Power of two of a quarter. -/
  scale : Int
  /-- Whether the ends round to the word too. -/
  closed : Bool

/-- The interval of `m · 2 ^ e`; `narrow` where the neighbour below is half as far as the one above. -/
def Interval.of (m : Nat) (e : Int) (narrow : Bool) : Interval :=
  { middle := 4 * m
    below := 4 * m - if narrow then 1 else 2
    above := 4 * m + 2
    scale := e - 2
    closed := m % 2 = 0 }

/-- Ten to a power that may be negative, as numerator and denominator. -/
def tenTo (k : Int) : Nat × Nat := if 0 ≤ k then (Nat.pow 10 k.toNat, 1) else (1, Nat.pow 10 (-k).toNat)

namespace Interval

/-- The multiple of `10 ^ k` in the interval that is nearest to its middle, as a factor. -/
def nearestMultiple (i : Interval) (k : Int) : Option Nat :=
  let (tenNum, tenDen) := tenTo k
  let factor := (if 0 ≤ i.scale then Nat.pow 2 i.scale.toNat else 1) * tenDen
  let den := (if 0 ≤ i.scale then 1 else Nat.pow 2 (-i.scale).toNat) * tenNum
  let middle := i.middle * factor
  let inside (c : Nat) : Bool :=
    if i.closed then i.below * factor ≤ c * den && c * den ≤ i.above * factor
    else i.below * factor < c * den && c * den < i.above * factor
  let low := middle / den
  let high := low + 1
  if inside low then
    if inside high then
      let down := middle - low * den
      let up := high * den - middle
      if up < down || (up = down && low % 2 = 1) then some high else some low
    else some low
  else if inside high then some high
  else none

/-- Go down the powers of ten from `10 ^ k` until one has a multiple in the interval. -/
def search (i : Interval) : Nat → Int → Digits
  | 0, k => ⟨(i.nearestMultiple k).getD 0, k⟩
  | steps + 1, k =>
    match i.nearestMultiple k with
    | some c => ⟨c, k⟩
    | none => search i steps (k - 1)

end Interval

/-- The shortest decimal of `m · 2 ^ e` with `m` positive. The search starts above the number and
ends at a power of ten of which the number itself is a multiple. -/
def shortest (m : Nat) (e : Int) (narrow : Bool) : Digits :=
  let start : Int := ((e + m.log2 + 1) * 30103) / 100000 + 1
  let finish : Int := min (e - 2) 0
  (Interval.of m e narrow).search (start - finish).toNat start

/-! ## §2 — decimal text -/

/-- How a decimal is written: positionally when its point stands inside a window, by exponent
otherwise, with or without a plus sign in front of an exponent that is not negative. -/
structure Style where
  /-- The number of digits before the point is above this in positional writing. -/
  lowest : Int
  /-- The number of digits before the point is at most this in positional writing. -/
  highest : Int
  /-- Whether an exponent that is not negative has a plus sign. -/
  plus : Bool

/-- Text of an exponent. -/
def Style.exponent (style : Style) (n : Int) : List Char :=
  'e' :: if style.plus && 0 ≤ n then '+' :: (toString n).toList else (toString n).toList

/-- A decimal in a style; positional writing always shows a fraction. -/
def Style.write (style : Style) (negative : Bool) (d : Digits) : String :=
  let text := (Nat.toDigits 10 d.digits)
  let length : Int := text.length
  let point := length + d.exponent
  let body : List Char :=
    if style.lowest < point && point ≤ style.highest then
      if 0 ≤ d.exponent then
        text ++ List.replicate d.exponent.toNat '0' ++ ['.', '0']
      else if 0 < point then
        text.take point.toNat ++ '.' :: text.drop point.toNat
      else
        ['0', '.'] ++ List.replicate (-point).toNat '0' ++ text
    else
      let exponent := style.exponent (point - 1)
      match text with
      | [first] => first :: exponent
      | first :: rest => first :: '.' :: rest ++ exponent
      | [] => []
  String.ofList (if negative then '-' :: body else body)

/-- Text of a word's number: its shortest decimal in a style; infinities and what is no number have
words of their own. -/
def Style.text (style : Style) (leastNormal : Nat) (leastExponent : Int) : UnpackedFloat → String
  | .notANumber => "NaN"
  | .infinity s => if Binary.isNegative s then "-inf" else "inf"
  | .zero s => if Binary.isNegative s then "-0.0" else "0.0"
  | .finite s m e _ =>
    style.write (Binary.isNegative s) (shortest m e (m = leastNormal && leastExponent < e))

/-- Text of a binary32 word. -/
def Style.text32 (style : Style) (x : Binary32) : String :=
  style.text 8388608 (-149) x.unpack

/-- Text of a binary64 word. -/
def Style.text64 (style : Style) (x : Binary64) : String :=
  style.text 4503599627370496 (-1074) x.unpack

end TexelFlow.Decimal
