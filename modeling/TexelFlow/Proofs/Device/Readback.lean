import TexelFlow.Device.HostTensor
import TexelFlow.Proofs.Binary.Arithmetic
import TexelFlow.Proofs.Texture.Pack

/-!
# Integers through a texture

The words of a texture are binary32, so the elements of an integer tensor enter it as the words nearest to
them, and what is read back is rounded and cut to the range of the integers. Packing and unpacking lose no
word. What becomes of a tensor is therefore what becomes of each of its elements: it is rounded to 24 bits,
which leaves a whole number, and rounding that to an integer changes nothing any more.

An integer survives when 24 bits count it at some power of two. One other survives: the largest integer is
rounded up by one, out of the range, and cut back to where it was.

## Main statements

* `Binary32.toInt32_eq` — a whole number is its own integer part, cut to the range.
* `Binary32.returned_roundTrip` — what an integer comes back as.
* `Layout.integers_return` — what an integer tensor comes back as, and when it is the same.
* `Layout.odd_not_kept` — the least integer that 24 bits do not count.

## §1 — whole numbers
## §2 — integers as words
## §3 — tensors in textures
-/

namespace TexelFlow

open Float.Model (UnpackedFloat)
open Float.Model.UnpackedFloat (Sign)

/-! ## §1 — whole numbers -/

namespace Binary

variable {s : Sign} {m : Nat} {e n : Int} {y : ℚ}

/-- A whole number is its own integer part. -/
theorem truncateOf_eq (h : factor s * (m * 2 ^ e) = n) : truncateOf (isNegative s) m e = n := by
  obtain ⟨hden, hquotient⟩ := Binary32.quotient_eq m e
  have hden' : ((quotient m e).2 : ℚ) ≠ 0 := by exact_mod_cast hden.ne'
  -- the divisor goes into a magnitude that is whole
  have hdiv : ∀ k : Int, (m : ℚ) * 2 ^ e = k → (((quotient m e).1 / (quotient m e).2 : Nat) : Int) = k := by
    intro k hk
    rw [hk, eq_div_iff hden'] at hquotient
    have hmul : k * (quotient m e).2 = (quotient m e).1 := by exact_mod_cast hquotient
    rw [Int.natCast_div, ← hmul, Int.mul_ediv_cancel _ (by omega)]
  cases s with
  | negative =>
    rw [factor, neg_one_mul, neg_eq_iff_eq_neg] at h
    show -(((quotient m e).1 / (quotient m e).2 : Nat) : Int) = n
    rw [hdiv (-n) (by rw [h, Int.cast_neg]), neg_neg]
  | positive => exact hdiv n (by rwa [factor, one_mul] at h)

/-- A whole number is rounded to one: either all of it is kept, or its last place is no fraction. -/
theorem Rounds.exists_int (h : Rounds n y) : ∃ k : Int, y = k := by
  obtain ⟨t, k, hplace, hy, -⟩ := id h
  rcases le_or_gt 0 t with ht | ht
  · obtain ⟨j, hj⟩ := exists_multiple k ht
    exact ⟨j, by rw [hy, hj, zpow_zero, mul_one]⟩
  · have hreach : |(n : ℚ)| < 2 ^ (24 : ℤ) := hplace.reach.trans_le (zpow_mono (by omega))
    have hsmall : |n| < 2 ^ 24 := by
      rw [← Int.cast_abs] at hreach
      exact_mod_cast hreach
    exact ⟨n, h.eq_of_fits ⟨n, 0, by norm_num, hsmall.le, by norm_num⟩⟩

/-- An integer that 24 bits count at some power of two. -/
def Counted (n : Int) : Prop := ∃ (k : Int) (j : Nat), n = k * 2 ^ j ∧ |k| ≤ 2 ^ 24

theorem fits_intCast_iff : Fits n ↔ Counted n := by
  constructor
  · rintro ⟨k, j, h, hk, -⟩
    rcases le_or_gt 0 j with hj | hj
    · refine ⟨k, j.toNat, ?_, hk⟩
      rw [← Int.toNat_of_nonneg hj, zpow_natCast] at h
      exact_mod_cast h
    · -- a multiple of a fraction is smaller than what it is a multiple of
      refine ⟨n, 0, by rw [pow_zero, mul_one], ?_⟩
      have hd : (2 : ℚ) ^ j ≤ 1 := by simpa using zpow_mono hj.le
      have hle : |(n : ℚ)| ≤ |(k : ℚ)| := by
        rw [h, abs_mul, abs_of_pos (show (0 : ℚ) < 2 ^ j from zpow_pos two_pos j)]
        exact mul_le_of_le_one_right (abs_nonneg _) hd
      have hle : |n| ≤ |k| := by exact_mod_cast hle
      exact hle.trans hk
  · rintro ⟨k, j, rfl, hk⟩
    exact ⟨k, j, by push_cast; rfl, hk, by omega⟩

end Binary

namespace Binary32

open Binary

variable {a : Binary32} {n : Int}

/-- **A whole number** is its own integer part, cut to the range of the integers. -/
theorem toInt32_eq (ha : a.isFinite = true) (hvalue : a.value = n) :
    a.toInt32.toInt = Max.max (-2147483648) (Min.min 2147483647 n) := by
  have hunpacked := (isFinite_iff a).mp ha
  have hsaturate : saturate truncateOf (-2147483648) 2147483647 a.unpack =
      Max.max (-2147483648) (Min.min 2147483647 n) := by
    unfold value at hvalue
    unfold saturate
    cases hu : a.unpack with
    | infinity s => rw [hu] at hunpacked; cases hunpacked
    | notANumber => rw [hu] at hunpacked; cases hunpacked
    | zero s =>
      rw [hu] at hvalue
      obtain rfl : 0 = n := by exact_mod_cast show (0 : ℚ) = n from hvalue
      rfl
    | finite s m e hm =>
      rw [hu] at hvalue
      dsimp only
      rw [truncateOf_eq hvalue]
  unfold toInt32
  rw [hsaturate]
  exact Int32.toInt_ofInt_of_le (by omega) (by omega)

/-- Rounding a whole number to an integer changes nothing. -/
theorem round_of_int (ha : a.isFinite = true) (hvalue : a.value = n) :
    a.round.isFinite = true ∧ a.round.value = n := by
  obtain ⟨k, hnear, hrounded⟩ := round_rounded ha
  -- no other integer is within a half
  obtain rfl : k = n := by
    rw [hvalue, ← Int.cast_sub, ← Int.cast_abs] at hnear
    have hlt : ((|k - n| : Int) : ℚ) < 1 := by linarith
    have hlt : |k - n| < 1 := by exact_mod_cast hlt
    exact sub_eq_zero.mp (Int.abs_lt_one_iff.mp hlt)
  rw [← hvalue] at hrounded ⊢
  exact hrounded.exact a.fits_value a.canonical_unpack.2

/-! ## §2 — integers as words -/

/-- An integer as a word, rounded and cut to the range of the integers again. -/
def roundTrip (n : Int32) : Int32 := (ofInt n.toInt).round.toInt32

/-- **What an integer comes back as**: rounded to 24 bits, to the nearest and to even on a tie, and cut to the
range. -/
def Returned (n m : Int32) : Prop :=
  ∃ y : Int, Rounds n.toInt y ∧ m.toInt = Max.max (-2147483648) (Min.min 2147483647 y)

/-- An integer that comes back as it is: one that 24 bits count, or the largest one. -/
def Survives (n : Int32) : Prop := Counted n.toInt ∨ n.toInt = 2147483647

theorem returned_roundTrip (n : Int32) : Returned n (roundTrip n) := by
  have hlow := n.le_toInt
  have hhigh := n.toInt_lt
  have hrange : |((n.toInt : Int) : ℚ)| ≤ 2 ^ 31 := by
    rw [← Int.cast_abs]
    exact_mod_cast abs_le.mpr ⟨hlow, hhigh.le⟩
  have hrounded := ofInt_rounded n.toInt
  have hfinite := hrounded.isFinite_of_le (z := 2 ^ 31)
    ⟨2 ^ 7, 24, by norm_num, by norm_num, by norm_num⟩ (by norm_num) hrange
  have hrounds := hrounded.rounds hfinite
  obtain ⟨y, hy⟩ := hrounds.exists_int
  obtain ⟨hfinite', hy'⟩ := round_of_int hfinite hy
  exact ⟨y, hy ▸ hrounds, toInt32_eq hfinite' hy'⟩

/-- Whatever comes back for an integer is the same. -/
theorem Returned.unique {n m m' : Int32} (h : Returned n m) (h' : Returned n m') : m = m' := by
  obtain ⟨y, hrounds, hm⟩ := h
  obtain ⟨y', hrounds', hm'⟩ := h'
  obtain rfl : y = y' := by exact_mod_cast hrounds.unique hrounds'
  exact Int32.toInt_inj.mp (hm.trans hm'.symm)

/-- **When an integer survives.** -/
theorem returned_self_iff {n : Int32} : Returned n n ↔ Survives n := by
  have hlow := n.le_toInt
  have hhigh := n.toInt_lt
  constructor
  · rintro ⟨y, hrounds, hn⟩
    rcases le_or_gt y 2147483647 with hy | hy
    · -- the lower end of the range has 24 bits, so rounding does not pass it
      have hle : -2147483648 ≤ y := by
        have hends : Fits ((-2147483648 : Int) : ℚ) := ⟨-1, 31, by norm_num, by norm_num, by norm_num⟩
        exact_mod_cast hrounds.ge_of_ge hends (by exact_mod_cast hlow)
      obtain rfl : n.toInt = y := by omega
      exact .inl (fits_intCast_iff.mp hrounds.fits)
    · exact .inr (by omega)
  · rintro (hcounted | hlargest)
    · obtain ⟨y, hrounds, hm⟩ := returned_roundTrip n
      obtain rfl : y = n.toInt := by exact_mod_cast hrounds.eq_of_fits (fits_intCast_iff.mpr hcounted)
      exact ⟨n.toInt, hrounds, by omega⟩
    · obtain rfl : n = 2147483647 := Int32.toInt_inj.mp hlargest
      have hback : roundTrip 2147483647 = 2147483647 := by decide +kernel
      rw [← hback]
      exact hback.symm ▸ returned_roundTrip 2147483647

theorem roundTrip_eq_iff {n : Int32} : roundTrip n = n ↔ Survives n := by
  rw [← returned_self_iff]
  constructor
  · intro h
    have := returned_roundTrip n
    rwa [h] at this
  · exact (returned_roundTrip n).unique

end Binary32

/-! ## §3 — tensors in textures -/

namespace Layout

open Binary32 (Returned Survives roundTrip)

variable {l : Layout} {name : String} {t : Tensor} {limits : Limits} {options : Options}

/-- **A tensor comes back** from the texture of a layout as a host tensor: its elements are widened, packed,
unpacked, and taken as its descriptor says. -/
def Returns (l : Layout) (t : Tensor) (u : HostTensor) : Prop :=
  ∃ values words back, t.widened = some values ∧ l.pack values = .ok words ∧
    l.unpack words = .ok back ∧ HostTensor.ofReadback back t.descriptor = .ok u

/-- A tensor comes back as it is. -/
def Keeps (l : Layout) (t : Tensor) : Prop :=
  ∃ u, l.Returns t u ∧ u.shape = t.shape ∧ u.data.toTensorData = t.data

/-- What comes back is what was packed, so there was room for it. -/
theorem Exact.returns_iff (h : l.Exact) {u : HostTensor} : l.Returns t u ↔ ∃ values,
    t.widened = some values ∧ values.length = l.elementCount ∧ l.HasRoom ∧
      HostTensor.ofReadback values t.descriptor = .ok u := by
  constructor
  · rintro ⟨values, words, back, hwidened, hpack, hunpack, hu⟩
    have hback := h.unpack_pack hpack #[]
    rw [Array.append_empty] at hback
    obtain rfl := Except.ok.inj (hback.symm.trans hunpack)
    exact ⟨values, hwidened, h.length_of_pack hpack, h.hasRoom_of_pack hpack, hu⟩
  · rintro ⟨values, hwidened, hlen, hroom, hu⟩
    obtain ⟨words, hpack⟩ := h.exists_pack hroom hlen
    have hback := h.unpack_pack hpack #[]
    rw [Array.append_empty] at hback
    exact ⟨values, words, values, hwidened, hpack, hback, hu⟩

/-- **An integer tensor comes back** where there is room for its texture, with each element rounded. -/
theorem returns_ints_iff (hl : compute name t.descriptor limits options = .ok l) {values : List Int32}
    (hdata : t.data = .int32 values) {u : HostTensor} : l.Returns t u ↔
      l.HasRoom ∧ u.shape = t.shape ∧ u.data = .int32 (values.map roundTrip) := by
  have hcomputed := compute_eq_ok hl
  have hwidened : t.widened = some (values.map fun n => Binary32.ofInt n.toInt) := by
    unfold Tensor.widened
    rw [hdata]
    rfl
  have hlength : (values.map fun n => Binary32.ofInt n.toInt).length = l.elementCount := by
    have hfilled := t.filled
    rw [hdata] at hfilled
    rw [List.length_map, hcomputed.count, hcomputed.prod_eq]
    exact (Shape.prod_of_counted hfilled).symm
  have hread : HostTensor.ofReadback (values.map fun n => Binary32.ofInt n.toInt) t.descriptor =
      HostTensor.make t.shape (.int32 (values.map roundTrip)) := by
    have hdtype : t.descriptor.dtype = .int32 := by
      show t.data.dtype = .int32
      rw [hdata]
      rfl
    unfold HostTensor.ofReadback
    rw [hdtype]
    dsimp only
    rw [List.map_map]
    rfl
  rw [hcomputed.exact.returns_iff]
  constructor
  · rintro ⟨values', hwidened', -, hroom, hu⟩
    obtain rfl := Option.some.inj (hwidened.symm.trans hwidened')
    rw [hread] at hu
    exact ⟨hroom, HostTensor.make_eq_ok_iff.mp hu⟩
  · rintro ⟨hroom, hu⟩
    exact ⟨_, hwidened, hlength, hroom, hread.trans (HostTensor.make_eq_ok_iff.mpr hu)⟩

/-- An integer tensor has a host tensor with each element rounded. -/
theorem exists_rounded {values : List Int32} (hdata : t.data = .int32 values) :
    ∃ u : HostTensor, u.shape = t.shape ∧ u.data = .int32 (values.map roundTrip) := by
  have hfilled : t.shape.counted = .ok (HostData.int32 (values.map roundTrip)).length := by
    have := t.filled
    rw [hdata] at this
    rw [this]
    exact congrArg Except.ok (List.length_map _).symm
  exact ⟨⟨t.shape, _, hfilled⟩, rfl, rfl⟩

/-- **Integers come back** exactly where there is room for the texture, as there is for every tensor that leaves
eight times its own room: as a tensor of the same shape, each rounded to 24 bits and cut to the range. The
tensor is the same exactly when each of its elements survives that. -/
theorem integers_return (hl : compute name t.descriptor limits options = .ok l) {values : List Int32}
    (hdata : t.data = .int32 values) :
    ((∃ u, l.Returns t u) ↔ l.HasRoom) ∧
    (∀ u, l.Returns t u →
      u.shape = t.shape ∧ ∃ back, u.data = .int32 back ∧ List.Forall₂ Returned values back) ∧
    (l.Keeps t ↔ l.HasRoom ∧ ∀ n ∈ values, Survives n) ∧
    (8 * (t.count * elementRoom) ≤ Size.addressable → l.HasRoom) := by
  have hreturns : ∀ u, l.Returns t u ↔
      l.HasRoom ∧ u.shape = t.shape ∧ u.data = .int32 (values.map roundTrip) :=
    fun u => returns_ints_iff hl hdata
  obtain ⟨rounded, hrounded⟩ := exists_rounded hdata
  refine ⟨?returns, ?rounds, ?keeps, ?roomy⟩
  case returns =>
    constructor
    · rintro ⟨u, hu⟩
      exact ((hreturns u).mp hu).1
    · exact fun hroom => ⟨rounded, (hreturns _).mpr ⟨hroom, hrounded⟩⟩
  case rounds =>
    intro u hu
    obtain ⟨-, hshape, hback⟩ := (hreturns u).mp hu
    refine ⟨hshape, _, hback, ?_⟩
    rw [List.forall₂_map_right_iff, List.forall₂_same]
    exact fun n _ => Binary32.returned_roundTrip n
  case keeps =>
    have hself : values.map roundTrip = values.map id ↔ ∀ n ∈ values, roundTrip n = n := List.map_inj_left
    rw [List.map_id] at hself
    have hsurvive : (∀ n ∈ values, Survives n) ↔ values.map roundTrip = values :=
      (forall₂_congr fun n _ => Binary32.roundTrip_eq_iff.symm).trans hself.symm
    rw [hsurvive]
    constructor
    · rintro ⟨u, hu, -, hsame⟩
      obtain ⟨hroom, -, hback⟩ := (hreturns u).mp hu
      rw [hback, hdata] at hsame
      exact ⟨hroom, TensorData.int32.inj hsame⟩
    · rintro ⟨hroom, hsame⟩
      refine ⟨rounded, (hreturns _).mpr ⟨hroom, hrounded⟩, hrounded.1, ?_⟩
      rw [hrounded.2, hsame, hdata]
      rfl
  case roomy =>
    intro hroom
    have hcomputed := compute_eq_ok hl
    have hcount : l.elementCount = t.count :=
      (hcomputed.count.trans hcomputed.prod_eq).trans (Shape.count_eq_prod _).symm
    exact hasRoom_of_compute hl (hcount ▸ hroom)

/-- The layout of up to four elements in a row. -/
def rowLayout (count : Nat) : Layout where
  shape := [count]
  elementCount := count
  channels := count
  paddedChannels := 4
  spatial := 1
  channelGroups := 1
  width := 1
  height := 1
  slices := 1
  layersPerSlice := 1
  layers := 1
  renderTargets := 1

/-- Integers of which the first has more than 24 bits, beside the ends of the range. -/
def widestTensor : Tensor :=
  ⟨[3], .int32 [33554436, -2147483648, 2147483647], by decide⟩

/-- All three survive. -/
theorem widest_kept :
    compute "t" widestTensor.descriptor ⟨64, 64, 64⟩ ⟨true, []⟩ = .ok (rowLayout 3) ∧
      8 * (widestTensor.count * elementRoom) ≤ Size.addressable ∧ (rowLayout 3).Keeps widestTensor := by
  have hl : compute "t" widestTensor.descriptor ⟨64, 64, 64⟩ ⟨true, []⟩ = .ok (rowLayout 3) := by cbv
  have hroom : 8 * (widestTensor.count * elementRoom) ≤ Size.addressable := by decide
  obtain ⟨-, -, hkeeps, hroomy⟩ := integers_return hl rfl
  refine ⟨hl, hroom, hkeeps.mpr ⟨hroomy hroom, ?_⟩⟩
  intro n hn
  simp only [List.mem_cons, List.not_mem_nil, or_false] at hn
  obtain rfl | rfl | rfl := hn
  · exact .inl ⟨8388609, 2, by decide, by decide⟩
  · exact .inl ⟨-1, 31, by decide, by decide⟩
  · exact .inr (by decide)

/-- The least positive integer that 24 bits do not count. -/
def oddTensor : Tensor := ⟨[1], .int32 [16777217], by decide⟩

/-- It lies between two integers that are counted, and comes back as the even one. -/
theorem odd_not_kept :
    compute "t" oddTensor.descriptor ⟨64, 64, 64⟩ ⟨true, []⟩ = .ok (rowLayout 1) ∧
      (∃ u, (rowLayout 1).Returns oddTensor u ∧ u.data = .int32 [16777216]) ∧
      ¬ (rowLayout 1).Keeps oddTensor := by
  have hl : compute "t" oddTensor.descriptor ⟨64, 64, 64⟩ ⟨true, []⟩ = .ok (rowLayout 1) := by cbv
  have hroom : (rowLayout 1).HasRoom := by
    unfold HasRoom
    decide
  have heven : [16777217].map roundTrip = [16777216] := by decide +kernel
  have hreturns : ∀ u, (rowLayout 1).Returns oddTensor u ↔ (rowLayout 1).HasRoom ∧
      u.shape = oddTensor.shape ∧ u.data = .int32 ([16777217].map roundTrip) :=
    fun u => returns_ints_iff hl rfl
  rw [heven] at hreturns
  obtain ⟨rounded, hrounded⟩ := exists_rounded (t := oddTensor) rfl
  rw [heven] at hrounded
  refine ⟨hl, ⟨rounded, (hreturns _).mpr ⟨hroom, hrounded⟩, hrounded.2⟩, ?_⟩
  rintro ⟨u, hu, -, hdata⟩
  rw [((hreturns u).mp hu).2.2] at hdata
  exact absurd hdata (by decide)

end Layout

end TexelFlow
