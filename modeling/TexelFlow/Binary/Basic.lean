import TexelFlow.Size

/-!
# Binary — floating-point words

Tensor elements are IEEE binary32 words, attributes and text numbers are binary64 words, compressed
weights may be binary16 words. A word is kept as its bits, so a payload of a not-a-number and the
sign of a zero survive every copy. Its meaning is the core library's float model: `unpack` reads a
word as sign, significand and exponent, `pack` writes the nearest word.

## §1 — significand and exponent
## §2 — binary32
## §3 — binary64
## §4 — binary16
-/

namespace TexelFlow

open Float.Model (UnpackedFloat Format)

/-! ## §1 — significand and exponent -/

namespace Binary

/-- A number as a quotient of naturals: `m · 2 ^ e`. -/
def quotient (m : Nat) (e : Int) : Nat × Nat :=
  if 0 ≤ e then (m * Nat.pow 2 e.toNat, 1) else (m, Nat.pow 2 (-e).toNat)

/-- The integer nearest below or equal to a number, by sign and magnitude. -/
def floorOf (negative : Bool) (m : Nat) (e : Int) : Int :=
  let (num, den) := quotient m e
  if negative then -Int.ofNat (Size.divCeil num den) else Int.ofNat (num / den)

/-- The integer nearest to a number, halves going away from zero. -/
def roundAwayOf (negative : Bool) (m : Nat) (e : Int) : Int :=
  let (num, den) := quotient m e
  let n := Int.ofNat ((2 * num + den) / (2 * den))
  if negative then -n else n

/-- The integer part of a number. -/
def truncateOf (negative : Bool) (m : Nat) (e : Int) : Int :=
  let (num, den) := quotient m e
  let n := Int.ofNat (num / den)
  if negative then -n else n

/-- Whether a sign is the minus sign. -/
def isNegative : UnpackedFloat.Sign → Bool
  | .negative => true
  | .positive => false

/-- Convert to an integer of the range `lo … hi`: a rule for finite numbers, infinities and numbers
out of range go to the nearer end, what is not a number goes to zero. -/
def saturate (rule : Bool → Nat → Int → Int) (lo hi : Int) : UnpackedFloat → Int
  | .notANumber => 0
  | .infinity s => if isNegative s then lo else hi
  | .zero _ => 0
  | .finite s m e _ => max lo (min hi (rule (isNegative s) m e))

/-- A number that is cut to a range is at most the end of it. -/
theorem saturate_le (rule : Bool → Nat → Int → Int) {lo hi : Int} (hlo : lo ≤ hi) (hhi : 0 ≤ hi)
    (x : UnpackedFloat) : saturate rule lo hi x ≤ hi := by
  unfold saturate
  split
  · exact hhi
  · split
    · exact hlo
    · exact Int.le_refl hi
  · exact hhi
  · omega

/-- The nearest number of a format, ties to even. -/
def roundTo (format : Format) : UnpackedFloat → UnpackedFloat
  | .finite s m e _ => UnpackedFloat.round format s m e
  | other => other

/-- The nearest number of a format to an integer, ties to even. -/
def ofInt (format : Format) (n : Int) : UnpackedFloat :=
  if n = 0 then .zero .positive
  else UnpackedFloat.round format (if n < 0 then .negative else .positive) n.natAbs 0

end Binary

/-! ## §2 — binary32 -/

/-- A binary32 word. -/
structure Binary32 where
  /-- Sign, eight bits of exponent, 23 bits of significand. -/
  bits : UInt32
  deriving DecidableEq

namespace Binary32

instance : Inhabited Binary32 := ⟨⟨0⟩⟩

/-- The number a word stands for. -/
def unpack (x : Binary32) : UnpackedFloat := UnpackedFloat.unpack .binary32 x.bits.toBitVec

/-- The word of a number of the format. -/
def pack (u : UnpackedFloat) : Binary32 := ⟨⟨UnpackedFloat.pack .binary32 u⟩⟩

/-- The word nearest to a number, ties to even. -/
def nearest (u : UnpackedFloat) : Binary32 := pack (Binary.roundTo .binary32 u)

/-- Positive zero. -/
def zero : Binary32 := ⟨0⟩

/-- One. -/
def one : Binary32 := ⟨0x3f800000⟩

/-- One half. -/
def half : Binary32 := ⟨0x3f000000⟩

/-- Six. -/
def six : Binary32 := ⟨0x40c00000⟩

/-- Positive infinity. -/
def infinity : Binary32 := ⟨0x7f800000⟩

/-- Negative infinity. -/
def negInfinity : Binary32 := ⟨0xff800000⟩

/-- Whether the word is not a number. -/
def isNaN (x : Binary32) : Bool := 0x7f800000 < (x.bits &&& 0x7fffffff)

/-- Whether the word is a number other than the infinities. -/
def isFinite (x : Binary32) : Bool := (x.bits &&& 0x7fffffff) < 0x7f800000

/-- Sum, rounded once. -/
def add (a b : Binary32) : Binary32 := ⟨(Float32.ofBits a.bits + Float32.ofBits b.bits).toBits⟩

/-- Difference, rounded once. -/
def sub (a b : Binary32) : Binary32 := ⟨(Float32.ofBits a.bits - Float32.ofBits b.bits).toBits⟩

/-- Product, rounded once. -/
def mul (a b : Binary32) : Binary32 := ⟨(Float32.ofBits a.bits * Float32.ofBits b.bits).toBits⟩

/-- Quotient, rounded once. -/
def div (a b : Binary32) : Binary32 := ⟨(Float32.ofBits a.bits / Float32.ofBits b.bits).toBits⟩

instance : Add Binary32 := ⟨add⟩
instance : Sub Binary32 := ⟨sub⟩
instance : Mul Binary32 := ⟨mul⟩
instance : Div Binary32 := ⟨div⟩

/-- Whether `a` is a number below the number `b`. -/
def lt (a b : Binary32) : Bool := UnpackedFloat.lt a.unpack b.unpack

/-- The smaller of two numbers; of a number and what is none, the number. -/
def min (a b : Binary32) : Binary32 :=
  if a.isNaN then b else if b.isNaN then a else if lt b a then b else a

/-- The larger of two numbers; of a number and what is none, the number. -/
def max (a b : Binary32) : Binary32 :=
  if a.isNaN then b else if b.isNaN then a else if lt a b then b else a

/-- Restrict a number to `lo … hi`; what is not a number stays so. -/
def clamp (x lo hi : Binary32) : Binary32 :=
  if lt x lo then lo else if lt hi x then hi else x

/-- The word nearest to an integer. -/
def ofInt (n : Int) : Binary32 := pack (Binary.ofInt .binary32 n)

/-- The word nearest to a natural number. -/
def ofNat (n : Nat) : Binary32 := ofInt n

/-- The greatest integral number not above a number. -/
def floor (x : Binary32) : Binary32 :=
  match x.unpack with
  | .finite s m e _ =>
    let n := Binary.floorOf (Binary.isNegative s) m e
    if n = 0 then pack (.zero s) else ofInt n
  | _ => x

/-- The least integral number not below a number. -/
def ceil (x : Binary32) : Binary32 :=
  match x.unpack with
  | .finite s m e _ =>
    let n := -Binary.floorOf (!Binary.isNegative s) m e
    if n = 0 then pack (.zero s) else ofInt n
  | _ => x

/-- Integer part as a word of 64 bits; negative numbers and what is no number give zero. -/
def toSize (x : Binary32) : Nat := (Binary.saturate Binary.truncateOf 0 Size.largest x.unpack).toNat

/-- Integer part restricted to `0 … hi`. -/
def toNatUpTo (hi : Nat) (x : Binary32) : Nat :=
  (Binary.saturate Binary.truncateOf 0 hi x.unpack).toNat

/-- Round to an integral number, halves away from zero. -/
def round (x : Binary32) : Binary32 :=
  match x.unpack with
  | .finite s m e _ =>
    let n := Binary.roundAwayOf (Binary.isNegative s) m e
    if n = 0 then pack (.zero s) else ofInt n
  | _ => x

/-- Integer part as a signed 32-bit integer. -/
def toInt32 (x : Binary32) : Int32 :=
  Int32.ofInt (Binary.saturate Binary.truncateOf (-2147483648) 2147483647 x.unpack)

end Binary32

/-! ## §3 — binary64 -/

/-- A binary64 word. -/
structure Binary64 where
  /-- Sign, eleven bits of exponent, 52 bits of significand. -/
  bits : UInt64
  deriving DecidableEq

namespace Binary64

instance : Inhabited Binary64 := ⟨⟨0⟩⟩

/-- The number a word stands for. -/
def unpack (x : Binary64) : UnpackedFloat := UnpackedFloat.unpack .binary64 x.bits.toBitVec

/-- The word of a number of the format. -/
def pack (u : UnpackedFloat) : Binary64 := ⟨⟨UnpackedFloat.pack .binary64 u⟩⟩

/-- The word nearest to a number, ties to even. -/
def nearest (u : UnpackedFloat) : Binary64 := pack (Binary.roundTo .binary64 u)

/-- Positive zero. -/
def zero : Binary64 := ⟨0⟩

/-- One. -/
def one : Binary64 := ⟨0x3ff0000000000000⟩

/-- Minus one. -/
def minusOne : Binary64 := ⟨0xbff0000000000000⟩

/-- Whether the word is not a number. -/
def isNaN (x : Binary64) : Bool := 0x7ff0000000000000 < (x.bits &&& 0x7fffffffffffffff)

/-- Whether the word is an infinity. -/
def isInfinite (x : Binary64) : Bool := (x.bits &&& 0x7fffffffffffffff) = 0x7ff0000000000000

/-- Whether the word is a number other than the infinities. -/
def isFinite (x : Binary64) : Bool := (x.bits &&& 0x7fffffffffffffff) < 0x7ff0000000000000

/-- Sum, rounded once. -/
def add (a b : Binary64) : Binary64 := ⟨(Float.ofBits a.bits + Float.ofBits b.bits).toBits⟩

/-- Product, rounded once. -/
def mul (a b : Binary64) : Binary64 := ⟨(Float.ofBits a.bits * Float.ofBits b.bits).toBits⟩

/-- Quotient, rounded once. -/
def div (a b : Binary64) : Binary64 := ⟨(Float.ofBits a.bits / Float.ofBits b.bits).toBits⟩

/-- The number with the other sign. -/
def neg (x : Binary64) : Binary64 := ⟨x.bits ^^^ 0x8000000000000000⟩

/-- Whether `a` is a number below the number `b`. -/
def lt (a b : Binary64) : Bool := UnpackedFloat.lt a.unpack b.unpack

/-- Whether two numbers are equal; the zeros are, what is no number never is. -/
def eq (a b : Binary64) : Bool := UnpackedFloat.compare a.unpack b.unpack == some .eq

/-- The word nearest to an integer. -/
def ofInt (n : Int) : Binary64 := pack (Binary.ofInt .binary64 n)

/-- The word nearest to a natural number. -/
def ofNat (n : Nat) : Binary64 := ofInt n

/-- Whether a number is integral. -/
def isIntegral (x : Binary64) : Bool :=
  match x.unpack with
  | .finite _ m e _ => let (num, den) := Binary.quotient m e; num % den = 0
  | .zero _ => true
  | _ => false

/-- Integer part as a word of 64 bits; negative numbers and what is no number give zero. -/
def toSize (x : Binary64) : Nat := (Binary.saturate Binary.truncateOf 0 Size.largest x.unpack).toNat

/-- Integer part as a signed 64-bit integer. -/
def toInt64 (x : Binary64) : Int :=
  Binary.saturate Binary.truncateOf (-9223372036854775808) 9223372036854775807 x.unpack

/-- Integer part as a signed 32-bit integer. -/
def toInt32 (x : Binary64) : Int32 :=
  Int32.ofInt (Binary.saturate Binary.truncateOf (-2147483648) 2147483647 x.unpack)

/-- The nearest binary32 word, ties to even. What is no number keeps its sign and the leading bits
of its payload. -/
def toBinary32 (x : Binary64) : Binary32 :=
  if x.isNaN then
    let sign : UInt64 := (x.bits >>> 63) <<< 31
    let payload : UInt64 := (x.bits >>> 29) &&& 0x3fffff
    ⟨((sign ||| 0x7fc00000) ||| payload).toUInt32⟩
  else .nearest x.unpack

end Binary64

namespace Binary32

/-- The same number as a binary64 word. What is no number keeps its sign and payload. -/
def toBinary64 (x : Binary32) : Binary64 :=
  if x.isNaN then
    let b : UInt64 := x.bits.toUInt64
    let sign : UInt64 := (b >>> 31) <<< 63
    let payload : UInt64 := (b &&& 0x3fffff) <<< 29
    ⟨(sign ||| 0x7ff8000000000000) ||| payload⟩
  else .pack (Binary.roundTo .binary64 x.unpack)

end Binary32

/-! ## §4 — binary16 -/

namespace Binary16

/-- Five bits of exponent, ten bits of significand. -/
def format : Format := ⟨10, by decide, 5, by decide⟩

/-- The nearest binary16 word of a binary32 word, ties to even. What is no number keeps its sign and
the leading bits of its payload, made quiet. -/
def ofBinary32 (x : Binary32) : UInt16 :=
  if x.isNaN then
    let sign : UInt32 := (x.bits >>> 16) &&& 0x8000
    let payload : UInt32 := (x.bits >>> 13) &&& 0x3ff
    ((sign ||| 0x7e00) ||| payload).toUInt16
  else ⟨UnpackedFloat.pack format (Binary.roundTo format x.unpack)⟩

/-- The number of a binary16 word as a binary32 word. What is no number keeps its sign and payload,
made quiet. -/
def toBinary32 (h : UInt16) : Binary32 :=
  if 0x7c00 < (h &&& 0x7fff) then
    let b : UInt32 := h.toUInt32
    let sign : UInt32 := (b &&& 0x8000) <<< 16
    let payload : UInt32 := (b &&& 0x3ff) <<< 13
    ⟨(sign ||| 0x7fc00000) ||| payload⟩
  else .pack (Binary.roundTo .binary32 (UnpackedFloat.unpack format h.toBitVec))

end Binary16

end TexelFlow
