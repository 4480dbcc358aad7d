import TexelFlow.Proofs.Binary.Word

/-!
# Numbers cut to extents

An extent is cut out of a number: its integer part, held to a word. A number that is not below one has an
integer part of at least one, and infinity goes to the largest word. What is no number is not below one
either, for it compares with nothing, and it is cut to zero.

## Main statements

* `Binary64.isNaN_iff` — the bits of what is no number.
* `Binary64.toSize_pos_iff` — what is not below one is cut to zero exactly where it is no number.

## §1 — fields of a word
## §2 — cutting
-/

namespace TexelFlow.Binary64

open Float.Model (UnpackedFloat Format)
open Float.Model.UnpackedFloat (Sign unpackExponent unpackMantissa)

variable {x : Binary64}

/-! ## §1 — fields of a word -/

/-- The exponent field is all ones, and the significand field is not zero, in what is no number. -/
theorem unpack_eq_notANumber_iff : x.unpack = .notANumber ↔
    @unpackExponent .binary64 x.bits.toBitVec = -1#11 ∧
      @unpackMantissa .binary64 x.bits.toBitVec ≠ 0#52 := by
  unfold unpack UnpackedFloat.unpack
  dsimp only
  split
  · rename_i hexponent
    split
    · rename_i hsignificand
      exact iff_of_false (by simp) fun h => h.2 hsignificand
    · rename_i hsignificand
      exact iff_of_true rfl ⟨hexponent, hsignificand⟩
  · rename_i hexponent
    refine iff_of_false ?_ fun h => hexponent h.1
    split
    · split
      · simp
      · simp
    · simp

/-- **What is no number** is told by its bits. -/
theorem isNaN_iff : x.isNaN = true ↔ x.unpack = .notANumber := by
  have hmask : (x.bits &&& 0x7fffffffffffffff).toNat = x.bits.toNat % 2 ^ 63 := by
    rw [UInt64.toNat_and]
    exact Nat.and_two_pow_sub_one_eq_mod _ 63
  have hexponent : (@unpackExponent .binary64 x.bits.toBitVec).toNat =
      x.bits.toNat / 2 ^ 52 % 2 ^ 11 := by
    simp only [unpackExponent, BitVec.toNat_cast, BitVec.extractLsb_toNat, Nat.shiftRight_eq_div_pow]
    rfl
  have hsignificand : (@unpackMantissa .binary64 x.bits.toBitVec).toNat =
      x.bits.toNat % 2 ^ 52 := by
    simp only [unpackMantissa, BitVec.toNat_cast, BitVec.extractLsb_toNat, Nat.shiftRight_eq_div_pow]
    simp
  rw [unpack_eq_notANumber_iff, ← BitVec.toNat_inj, Ne, ← BitVec.toNat_inj, hexponent, hsignificand]
  unfold isNaN
  rw [decide_eq_true_iff, UInt64.lt_iff_toNat_lt, hmask]
  show 9218868437227405312 < x.bits.toNat % 2 ^ 63 ↔ x.bits.toNat / 2 ^ 52 % 2 ^ 11 = 2047 ∧
    ¬ x.bits.toNat % 2 ^ 52 = 0
  omega

/-- The significand of a finite number is full, unless its exponent is the least one. -/
theorem full_of_unpack {s : Sign} {m : Nat} {e : Int} {hm : 0 < m} (h : x.unpack = .finite s m e hm) :
    e = -1074 ∨ 2 ^ 52 ≤ m := by
  unfold unpack UnpackedFloat.unpack at h
  dsimp only at h
  split at h
  · split at h
    · cases h
    · cases h
  · split at h
    · rename_i hexponent
      split at h
      · cases h
      · obtain ⟨-, -, rfl⟩ := UnpackedFloat.finite.inj h
        rw [hexponent]
        exact .inl rfl
    · obtain ⟨-, rfl, -⟩ := UnpackedFloat.finite.inj h
      refine .inr ?_
      rw [Binary.toNat_leading_append]
      exact Nat.le_add_right _ _

/-! ## §2 — cutting -/

theorem unpack_one : one.unpack = .finite .positive (2 ^ 52) (-52) (by decide) := by
  rfl

/-- The integer part of a positive number that is not below one. -/
theorem one_le_quotient {m : Nat} {e : Int} (h : -52 < e ∨ e = -52 ∧ 2 ^ 52 ≤ m)
    (hfull : e = -1074 ∨ 2 ^ 52 ≤ m) : 1 ≤ (Binary.quotient m e).1 / (Binary.quotient m e).2 := by
  have hm : 2 ^ 52 ≤ m := by omega
  unfold Binary.quotient
  split
  · rename_i he
    show 1 ≤ m * 2 ^ e.toNat / 1
    rw [Nat.div_one]
    exact Nat.mul_pos (by omega) (Nat.two_pow_pos _)
  · rename_i he
    show 1 ≤ m / 2 ^ (-e).toNat
    refine (Nat.one_le_div_iff (Nat.two_pow_pos _)).mpr (le_trans ?_ hm)
    exact Nat.pow_le_pow_right (by decide) (by omega)

/-- What is cut to a word fits it. -/
theorem toSize_lt (x : Binary64) : x.toSize < Size.modulus := by
  have hlargest : (0 : Int) ≤ Size.largest := Int.natCast_nonneg Size.largest
  have hle := Binary.saturate_le Binary.truncateOf hlargest hlargest x.unpack
  unfold toSize
  unfold Size.largest at hle
  unfold Size.largest
  have hlast : Size.modulus - 1 < Size.modulus := by decide
  omega

/-- **What is not below one** is cut to zero exactly where it is no number. -/
theorem toSize_pos_iff (h : x.lt .one = false) : 1 ≤ x.toSize ↔ x.isNaN = false := by
  rw [← Bool.not_eq_true, isNaN_iff]
  unfold lt at h
  rw [unpack_one] at h
  unfold toSize
  cases hx : x.unpack with
  | notANumber => exact iff_of_false (by decide) (by simp)
  | infinity s =>
    rw [hx] at h
    cases s with
    | negative => cases h
    | positive => exact iff_of_true (by decide) (by simp)
  | zero s =>
    rw [hx] at h
    cases h
  | finite s m e hm =>
    rw [hx] at h
    cases s with
    | negative => cases h
    | positive =>
      have hnot : ¬ (e < -52 ∨ e = -52 ∧ m < 2 ^ 52) := by
        rw [← Bool.not_eq_true] at h
        refine mt (fun hless => ?_) h
        unfold UnpackedFloat.lt UnpackedFloat.compare
        rw [beq_iff_eq, Option.some.injEq, Ordering.then_eq_lt, compare_lt_iff_lt, compare_eq_iff_eq,
          compare_lt_iff_lt]
        exact hless
      have hquotient := one_le_quotient (by omega) (full_of_unpack hx)
      refine iff_of_true ?_ (by simp)
      -- both ends of the range of words leave it at one or above
      have hlargest : (1 : Int) ≤ Size.largest := by decide
      have hsaturate : (1 : Int) ≤
          Binary.saturate Binary.truncateOf 0 Size.largest (.finite .positive m e hm) :=
        le_max_of_le_right (le_min hlargest (Int.ofNat_le.mpr hquotient))
      omega

end TexelFlow.Binary64
