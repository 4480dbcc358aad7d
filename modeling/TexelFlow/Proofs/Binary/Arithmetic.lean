import TexelFlow.Proofs.Binary.Rounding

/-!
# Arithmetic of binary32 words

Every operation on finite words is the exact one, rounded once. The sum is formed at the smaller of the
two exponents, the product with both significands, the quotient with as many bits as a significand has
and a remainder: each has bits enough for the rounding to be that of the exact result.

## Main statements

* `add_rounded`, `sub_rounded`, `mul_rounded`, `div_rounded` — the four operations.
* `ofInt_rounded`, `round_rounded` — integers, and rounding to one.

## §1 — sums
## §2 — products and quotients
## §3 — rounded words
## §4 — integers
-/

namespace TexelFlow

open Float.Model (UnpackedFloat Format totalExponent)
open Float.Model.UnpackedFloat (Sign decreaseExponent divCore)

namespace Binary

/-! ## §1 — sums -/

theorem apply_mul (s : Sign) (m : Nat) (y : ℚ) : ((s.apply m : Int) : ℚ) * y = factor s * (m * y) := by
  cases s with
  | negative =>
    show ((-(m : Int) : Int) : ℚ) * y = -1 * (m * y)
    push_cast
    ring
  | positive => exact (one_mul _).symm

theorem roundsTo_zero (s : Sign) : RoundsTo 0 (.zero s) := ⟨trivial, rfl, rounds_zero⟩

variable {u v : UnpackedFloat}

theorem add_roundsTo (hu : Canonical u) (hv : Canonical v) (hufinite : u.isFinite = true)
    (hvfinite : v.isFinite = true) :
    RoundsTo (valueOf u + valueOf v) (UnpackedFloat.add .binary32 u v) := by
  cases u with
  | infinity s => cases hufinite
  | notANumber => cases hufinite
  | zero s =>
    rw [show valueOf (.zero s) = 0 from rfl, zero_add]
    cases v with
    | infinity s' => cases hvfinite
    | notANumber => cases hvfinite
    | zero s' =>
      show RoundsTo 0 (if s == s' then .zero s else .zero .positive)
      split
      · exact roundsTo_zero _
      · exact roundsTo_zero _
    | finite s' m' e' hm' => exact ⟨hv, rfl, hv.rounds⟩
  | finite s m e hm =>
    cases v with
    | infinity s' => cases hvfinite
    | notANumber => cases hvfinite
    | zero s' =>
      rw [show valueOf (.zero s') = 0 from rfl, add_zero]
      exact ⟨hu, rfl, hu.rounds⟩
    | finite s' m' e' hm' =>
      -- both significands at the smaller exponent
      have hlow := shiftLeft_mul_zpow m e (e - min e e').toNat
      have hlow' := shiftLeft_mul_zpow m' e' (e' - min e e').toNat
      rw [show e - ((e - min e e').toNat : Int) = min e e' by omega] at hlow
      rw [show e' - ((e' - min e e').toNat : Int) = min e e' by omega] at hlow'
      have h := normalize_rounds (s.apply (m <<< (e - min e e').toNat : Nat) +
        s'.apply (m' <<< (e' - min e e').toNat : Nat)) (min e e') .positive
      rw [Int.cast_add, add_mul, apply_mul, apply_mul, hlow, hlow'] at h
      exact h

theorem valueOf_neg (u : UnpackedFloat) : valueOf u.neg = -valueOf u := by
  cases u with
  | finite s m e hm =>
    cases s with
    | negative => show 1 * (m * 2 ^ e : ℚ) = -(-1 * (m * 2 ^ e)); ring
    | positive => show -1 * (m * 2 ^ e : ℚ) = -(1 * (m * 2 ^ e)); ring
  | _ => exact neg_zero.symm

/-- A difference is the sum with the other sign. -/
theorem sub_eq_add (hufinite : u.isFinite = true) (hvfinite : v.isFinite = true) :
    UnpackedFloat.sub .binary32 u v = UnpackedFloat.add .binary32 u v.neg := by
  cases u with
  | infinity s => cases hufinite
  | notANumber => cases hufinite
  | zero s =>
    cases v with
    | infinity s' => cases hvfinite
    | notANumber => cases hvfinite
    | zero s' => rfl
    | finite s' m' e' hm' => rfl
  | finite s m e hm =>
    cases v with
    | infinity s' => cases hvfinite
    | notANumber => cases hvfinite
    | zero s' => rfl
    | finite s' m' e' hm' =>
      have hsign : ∀ n i : Int, n - s'.apply i = n + (-s').apply i := by
        intro n i
        cases s' with
        | negative => show n - -i = n + i; omega
        | positive => show n - i = n + -i; omega
      exact congrArg (fun n => UnpackedFloat.normalize .binary32 n (min e e') .positive) (hsign _ _)

theorem sub_roundsTo (hu : Canonical u) (hv : Canonical v) (hufinite : u.isFinite = true)
    (hvfinite : v.isFinite = true) :
    RoundsTo (valueOf u - valueOf v) (UnpackedFloat.sub .binary32 u v) := by
  have hneg : Canonical v.neg ∧ v.neg.isFinite = true := by
    cases v with
    | finite s m e hm => exact ⟨hv, rfl⟩
    | zero s => exact ⟨trivial, rfl⟩
    | _ => cases hvfinite
  rw [sub_eq_add hufinite hvfinite, sub_eq_add_neg, ← valueOf_neg]
  exact add_roundsTo hu hneg.1 hufinite hneg.2

/-! ## §2 — products and quotients -/

theorem factor_mul (s s' : Sign) : factor (s * s') = factor s * factor s' := by
  cases s <;> cases s' <;> norm_num [factor]

theorem factor_div (s s' : Sign) : factor (s / s') = factor s / factor s' := by
  cases s <;> cases s' <;> norm_num [factor] <;> rfl

/-- A canonical float with bits enough, or with the least exponent. -/
theorem Canonical.log2 {s : Sign} {m : Nat} {e : Int} {hm : 0 < m} (h : Canonical (.finite s m e hm)) :
    e = -149 ∨ 23 ≤ m.log2 :=
  h.2.2.imp_right (Nat.le_log2 hm.ne').mpr

theorem mul_roundsTo (hu : Canonical u) (hv : Canonical v) (hufinite : u.isFinite = true)
    (hvfinite : v.isFinite = true) :
    RoundsTo (valueOf u * valueOf v) (UnpackedFloat.mul .binary32 u v) := by
  cases u with
  | infinity s => cases hufinite
  | notANumber => cases hufinite
  | zero s =>
    rw [show valueOf (.zero s) = 0 from rfl, zero_mul]
    cases v with
    | infinity s' => cases hvfinite
    | notANumber => cases hvfinite
    | zero s' => exact roundsTo_zero _
    | finite s' m' e' hm' => exact roundsTo_zero _
  | finite s m e hm =>
    cases v with
    | infinity s' => cases hvfinite
    | notANumber => cases hvfinite
    | zero s' =>
      rw [show valueOf (.zero s') = 0 from rfl, mul_zero]
      exact roundsTo_zero _
    | finite s' m' e' hm' =>
      have hprod : 0 < m * m' := Nat.mul_pos hm hm'
      have hlog : m.log2 ≤ (m * m').log2 ∧ m'.log2 ≤ (m * m').log2 := by
        rw [Nat.le_log2 hprod.ne', Nat.le_log2 hprod.ne']
        exact ⟨(Nat.log2_self_le hm.ne').trans (Nat.le_mul_of_pos_right m hm'),
          (Nat.log2_self_le hm'.ne').trans (Nat.le_mul_of_pos_left m' hm)⟩
      have henough : Enough (m * m') (e + e') := by
        unfold Enough
        rcases hu.log2 with he | hfull
        · rcases hv.log2 with he' | hfull'
          · omega
          · omega
        · omega
      have h := roundWithAccuracy_rounds (marks_exact (m * m')) henough (s * s')
      rw [factor_mul, zpow_add₀ two_ne_zero, Nat.cast_mul] at h
      unfold valueOf
      rwa [show factor s * factor s' * ((m * m' : ℚ) * (2 ^ e * 2 ^ e')) =
        factor s * (m * 2 ^ e) * (factor s' * (m' * 2 ^ e')) by ring] at h

/-- A dividend that is 24 bits longer than its divisor leaves a quotient of as many bits. -/
theorem log2_quotient {m m' : Nat} (hm' : 0 < m') (h : m'.log2 + 24 ≤ m.log2) : 23 ≤ (m / m').log2 := by
  have hpos : m ≠ 0 := by
    rintro rfl
    rw [Nat.log2_zero] at h
    omega
  have hdiv : 2 ^ 23 ≤ m / m' := by
    rw [Nat.le_div_iff_mul_le hm']
    calc 2 ^ 23 * m' ≤ 2 ^ 23 * 2 ^ (m'.log2 + 1) := Nat.mul_le_mul_left _ Nat.lt_log2_self.le
      _ = 2 ^ (m'.log2 + 24) := by rw [← Nat.pow_add]; congr 1; omega
      _ ≤ 2 ^ m.log2 := Nat.pow_le_pow_right (by decide) h
      _ ≤ m := Nat.log2_self_le hpos
  exact (Nat.le_log2 (by omega)).mpr hdiv

/-- Quotient and remainder, as the one fraction they come from. -/
theorem quotient_add_remainder (m : Nat) {m' : Nat} (hm' : 0 < m') :
    ((m / m' : Nat) : ℚ) + ((m % m' : Nat) : ℚ) / m' = m / m' := by
  have hne : (m' : ℚ) ≠ 0 := by exact_mod_cast hm'.ne'
  rw [eq_div_iff hne, add_mul, div_mul_cancel₀ _ hne]
  exact_mod_cast Nat.div_add_mod' m m'

theorem div_roundsTo (hufinite : u.isFinite = true) (hvfinite : v.isFinite = true)
    (hv : valueOf v ≠ 0) :
    RoundsTo (valueOf u / valueOf v) (UnpackedFloat.div .binary32 u v) := by
  cases v with
  | infinity s' => cases hvfinite
  | notANumber => cases hvfinite
  | zero s' => exact absurd rfl hv
  | finite s' m' e' hm' =>
    cases u with
    | infinity s => cases hufinite
    | notANumber => cases hufinite
    | zero s =>
      rw [show valueOf (.zero s) = 0 from rfl, zero_div]
      exact roundsTo_zero _
    | finite s m e hm =>
      have htarget : Format.binary32.targetExponent (totalExponent m e - totalExponent m' e') =
          max (m.log2 + 1 + e - (m'.log2 + 1 + e') - 24) (-149) := rfl
      show RoundsTo _ (Float.Model.UnpackedFloat.roundWithAccuracy .binary32 (s / s')
        (divCore .binary32 m e m' e').1 (divCore .binary32 m e m' e').2.1
        (divCore .binary32 m e m' e').2.2)
      unfold divCore
      dsimp only
      rw [htarget]
      generalize ht : min (e - e') (max (m.log2 + 1 + e - (m'.log2 + 1 + e') - 24) (-149)) = t
      generalize hk : (e - e' - t).toNat = k
      -- the shifted significand is 24 bits longer than the divisor, unless the exponent is the least
      have henough : Enough (m <<< k / m') t := by
        by_cases hleast : t ≤ -149
        · exact .inr hleast
        · refine .inl (log2_quotient hm' ?_)
          have := add_le_log2_shiftLeft hm.ne' k
          omega
      have h := roundWithAccuracy_rounds (marks_fraction (m <<< k / m') (Nat.mod_lt (m <<< k) hm'))
        henough (s / s')
      have hshift := shiftLeft_mul_zpow m (e - e') k
      rw [show e - e' - (k : Int) = t by omega] at hshift
      rw [quotient_add_remainder _ hm', div_mul_eq_mul_div, hshift, factor_div, zpow_sub₀ two_ne_zero] at h
      unfold valueOf
      have hvalue : factor s / factor s' * (m * (2 ^ e / 2 ^ e') / m') =
          factor s * (m * 2 ^ e) / (factor s' * (m' * 2 ^ e')) := by
        rw [mul_div_mul_comm, mul_div_mul_comm]
        ring
      rwa [hvalue] at h

end Binary

namespace Binary32

open Binary

/-! ## §3 — rounded words -/

/-- A word is a number rounded, or an infinity where that is too large. -/
def Rounded (x : ℚ) (w : Binary32) : Prop := ∃ y, Rounds x y ∧ w.Holds y

variable {x z : ℚ} {a b w : Binary32}

theorem rounded_pack {u : UnpackedFloat} (h : RoundsTo x u) : Rounded x (pack u) :=
  ⟨valueOf u, h.rounds, holds_pack h.canonical h.finite⟩

theorem Rounded.rounds (h : Rounded x w) (hfinite : w.isFinite = true) : Rounds x w.value := by
  obtain ⟨y, hrounds, hholds⟩ := h
  rwa [hholds.value_eq hfinite]

/-- What is no larger than a word does not become an infinity. -/
theorem Rounded.isFinite_of_le (h : Rounded x w) (hz : Fits z) (hrange : z < 2 ^ 128)
    (hle : |x| ≤ z) : w.isFinite = true := by
  obtain ⟨y, hrounds, hholds⟩ := h
  obtain ⟨hlow, hhigh⟩ := abs_le.mp hle
  have hy := hrounds.le_of_le hz hhigh
  have hy' := hrounds.ge_of_ge hz.neg hlow
  rw [hholds.isFinite_iff, abs_lt]
  constructor <;> linarith

/-- A number that a word has is not changed. -/
theorem Rounded.exact (h : Rounded x w) (hx : Fits x) (hrange : |x| < 2 ^ 128) :
    w.isFinite = true ∧ w.value = x := by
  obtain ⟨y, hrounds, hholds⟩ := h
  obtain rfl := hrounds.eq_of_fits hx
  have hfinite := hholds.isFinite_iff.mpr hrange
  exact ⟨hfinite, hholds.value_eq hfinite⟩

theorem rounded_self (ha : a.isFinite = true) : Rounded a.value a := by
  obtain ⟨hc, hrange⟩ := a.canonical_unpack
  exact ⟨a.value, hc.rounds, .inl ⟨hrange, ha, rfl⟩⟩

/-- Rounded words keep the order of what is rounded. -/
theorem Rounded.mono {x' : ℚ} {w' : Binary32} (h : Rounded x w) (h' : Rounded x' w') (hle : x ≤ x')
    (hw : w.isFinite = true) (hw' : w'.isFinite = true) : w.value ≤ w'.value :=
  (h.rounds hw).mono (h'.rounds hw') hle

/-- What lies between numbers that are not too large is not. -/
theorem Rounded.isFinite_of_between {x₀ x₁ : ℚ} {w₀ w₁ : Binary32} (h : Rounded x w)
    (h₀ : Rounded x₀ w₀) (h₁ : Rounded x₁ w₁) (hw₀ : w₀.isFinite = true) (hw₁ : w₁.isFinite = true)
    (hlow : x₀ ≤ x) (hhigh : x ≤ x₁) : w.isFinite = true := by
  obtain ⟨y, hrounds, hholds⟩ := h
  have hy₀ := (h₀.rounds hw₀).mono hrounds hlow
  have hy₁ := hrounds.mono (h₁.rounds hw₁) hhigh
  have hrange₀ := abs_lt.mp w₀.canonical_unpack.2
  have hrange₁ := abs_lt.mp w₁.canonical_unpack.2
  rw [hholds.isFinite_iff, abs_lt]
  constructor <;> linarith

/-- A positive number that is too large becomes the positive infinity. -/
theorem Rounded.unpack_of_pos (h : Rounded x w) (hx : 0 < x) (hlarge : w.isFinite = false) :
    w.unpack = .infinity .positive := by
  obtain ⟨y, hrounds, hholds⟩ := h
  rcases id hholds with ⟨-, hfinite, -⟩ | ⟨hy, hunpack⟩
  · rw [hfinite] at hlarge
    cases hlarge
  · have hnonneg := hrounds.nonneg hx.le
    rw [abs_of_nonneg hnonneg] at hy
    rw [hunpack, signOf, if_pos (by linarith)]

/-- Unpacking takes nothing away that packing would need. -/
theorem unpack_pack_unpack (w : Binary32) : (pack w.unpack).unpack = w.unpack := by
  obtain ⟨hc, hrange⟩ := w.canonical_unpack
  unfold value at hrange
  cases hu : w.unpack with
  | infinity s => exact unpack_pack_infinity s
  | notANumber => rfl
  | zero s => exact unpack_pack_zero s
  | finite s m e hm =>
    rw [hu] at hc hrange
    exact unpack_pack hc (hc.abs_lt_iff.mp hrange)

theorem add_eq (a b : Binary32) : a + b = pack (UnpackedFloat.add .binary32 a.unpack b.unpack) := by
  rw [← unpack_pack_unpack a, ← unpack_pack_unpack b]
  rfl

theorem sub_eq (a b : Binary32) : a - b = pack (UnpackedFloat.sub .binary32 a.unpack b.unpack) := by
  rw [← unpack_pack_unpack a, ← unpack_pack_unpack b]
  rfl

theorem mul_eq (a b : Binary32) : a * b = pack (UnpackedFloat.mul .binary32 a.unpack b.unpack) := by
  rw [← unpack_pack_unpack a, ← unpack_pack_unpack b]
  rfl

theorem div_eq (a b : Binary32) : a / b = pack (UnpackedFloat.div .binary32 a.unpack b.unpack) := by
  rw [← unpack_pack_unpack a, ← unpack_pack_unpack b]
  rfl

/-- **Sum**, rounded once. -/
theorem add_rounded (ha : a.isFinite = true) (hb : b.isFinite = true) :
    Rounded (a.value + b.value) (a + b) := by
  rw [add_eq]
  exact rounded_pack (add_roundsTo a.canonical_unpack.1 b.canonical_unpack.1
    ((isFinite_iff a).mp ha) ((isFinite_iff b).mp hb))

/-- **Difference**, rounded once. -/
theorem sub_rounded (ha : a.isFinite = true) (hb : b.isFinite = true) :
    Rounded (a.value - b.value) (a - b) := by
  rw [sub_eq]
  exact rounded_pack (sub_roundsTo a.canonical_unpack.1 b.canonical_unpack.1
    ((isFinite_iff a).mp ha) ((isFinite_iff b).mp hb))

/-- **Product**, rounded once. -/
theorem mul_rounded (ha : a.isFinite = true) (hb : b.isFinite = true) :
    Rounded (a.value * b.value) (a * b) := by
  rw [mul_eq]
  exact rounded_pack (mul_roundsTo a.canonical_unpack.1 b.canonical_unpack.1
    ((isFinite_iff a).mp ha) ((isFinite_iff b).mp hb))

/-- **Quotient**, rounded once. -/
theorem div_rounded (ha : a.isFinite = true) (hb : b.isFinite = true) (hzero : b.value ≠ 0) :
    Rounded (a.value / b.value) (a / b) := by
  rw [div_eq]
  exact rounded_pack (div_roundsTo ((isFinite_iff a).mp ha) ((isFinite_iff b).mp hb) hzero)

/-- The largest magnitude is one last place below the range. -/
theorem abs_value_le (a : Binary32) : |a.value| ≤ 2 ^ 128 - 2 ^ 104 := by
  rcases a.fits_value.multiple_or_le 104 with ⟨k, hk⟩ | ⟨-, hsmall⟩
  · have hrange := a.canonical_unpack.2
    have hd : (0 : ℚ) < 2 ^ (104 : ℤ) := by positivity
    rw [hk, abs_mul, abs_of_pos hd, ← Int.cast_abs] at hrange ⊢
    have hlt : |k| < 2 ^ 24 := by
      have : ((|k| : ℤ) : ℚ) * 2 ^ (104 : ℤ) < 2 ^ 24 * 2 ^ (104 : ℤ) := hrange.trans_eq (by norm_num)
      exact_mod_cast lt_of_mul_lt_mul_right this hd.le
    have hle : ((|k| : ℤ) : ℚ) ≤ 2 ^ 24 - 1 := by exact_mod_cast Int.le_sub_one_of_lt hlt
    refine (mul_le_mul_of_nonneg_right hle hd.le).trans_eq ?_
    norm_num
  · refine hsmall.trans ?_
    norm_num

/-- Adding a small number to a word does not make it too large. -/
theorem add_isFinite_of_small (ha : a.isFinite = true) (hb : b.isFinite = true)
    (hsmall : |a.value| ≤ 2 ^ 102) : (a + b).isFinite = true := by
  obtain ⟨y, hrounds, hholds⟩ := add_rounded ha hb
  -- the word itself has 24 bits, so the sum is rounded no further away than it
  have hnear := hrounds.nearest b.fits_value
  rw [show b.value - (a.value + b.value) = -a.value by ring, abs_neg] at hnear
  have hb' := abs_le.mp b.abs_value_le
  have hnear' := abs_le.mp hnear
  have hsmall' := abs_le.mp hsmall
  have hroom : (2 : ℚ) ^ 102 + 2 ^ 102 < 2 ^ 104 := by norm_num
  rw [hholds.isFinite_iff, abs_lt]
  constructor <;> linarith

/-- The difference of words has an error by what it is alone. -/
theorem sub_error_le (ha : a.isFinite = true) (hb : b.isFinite = true)
    (hfinite : (a - b).isFinite = true) :
    |(a - b).value - (a.value - b.value)| ≤ |a.value - b.value| / 2 ^ 24 := by
  have hmultiple : ∀ w : Binary32, ∃ k : ℤ, w.value = k * 2 ^ (-149 : ℤ) := by
    intro w
    obtain ⟨k, j, hw, -, hj⟩ := w.fits_value
    rw [hw]
    exact exists_multiple k hj
  obtain ⟨k, hk⟩ := hmultiple a
  obtain ⟨i, hi⟩ := hmultiple b
  have hdifference : a.value - b.value = ((k - i : ℤ) : ℚ) * 2 ^ (-149 : ℤ) := by
    rw [hk, hi]
    push_cast
    ring
  exact ((sub_rounded ha hb).rounds hfinite).error_le_of_multiple hdifference

/-- A finite word is packed from a finite float. -/
theorem isFinite_of_pack {u : UnpackedFloat} (h : (pack u).isFinite = true) : u.isFinite = true := by
  rw [isFinite_iff] at h
  cases u with
  | infinity s =>
    rw [unpack_pack_infinity] at h
    exact h
  | notANumber => exact h
  | zero s => rfl
  | finite s m e hm => rfl

/-- A finite sum or quotient has a finite first operand if the second one is, a finite product a finite
second one. -/
theorem isFinite_of_add (h : (a + b).isFinite = true) (hb : b.isFinite = true) : a.isFinite = true := by
  rw [add_eq] at h
  have h := isFinite_of_pack h
  rw [isFinite_iff] at hb ⊢
  cases hu : a.unpack with
  | zero s => rfl
  | finite s m e hm => rfl
  | notANumber => rw [hu] at h; exact h
  | infinity s =>
    rw [hu] at h
    cases hv : b.unpack with
    | infinity s' => rw [hv] at hb; cases hb
    | notANumber => rw [hv] at hb; cases hb
    | zero s' => rw [hv] at h; exact h
    | finite s' m' e' hm' => rw [hv] at h; exact h

theorem isFinite_of_div (h : (a / b).isFinite = true) (hb : b.isFinite = true) : a.isFinite = true := by
  rw [div_eq] at h
  have h := isFinite_of_pack h
  rw [isFinite_iff] at hb ⊢
  cases hu : a.unpack with
  | zero s => rfl
  | finite s m e hm => rfl
  | notANumber => rw [hu] at h; exact h
  | infinity s =>
    rw [hu] at h
    cases hv : b.unpack with
    | infinity s' => rw [hv] at hb; cases hb
    | notANumber => rw [hv] at hb; cases hb
    | zero s' => rw [hv] at h; exact h
    | finite s' m' e' hm' => rw [hv] at h; exact h

theorem isFinite_of_mul (h : (a * b).isFinite = true) : b.isFinite = true := by
  rw [mul_eq] at h
  have h := isFinite_of_pack h
  rw [isFinite_iff]
  cases hv : b.unpack with
  | zero s => rfl
  | finite s m e hm => rfl
  | notANumber => rw [hv] at h; cases hu : a.unpack <;> rw [hu] at h <;> exact h
  | infinity s => rw [hv] at h; cases hu : a.unpack <;> rw [hu] at h <;> exact h

/-! ## §4 — integers -/

theorem ofInt_rounded (n : Int) : Rounded n (ofInt n) := by
  unfold ofInt
  apply rounded_pack
  unfold Binary.ofInt
  split
  · rename_i hzero
    rw [hzero, Int.cast_zero]
    exact roundsTo_zero _
  · rename_i hne
    have h := fun s => round_rounds (show n.natAbs ≠ 0 by omega) 0 s
    split
    · have h := h .negative
      rw [zpow_zero, mul_one, factor, Nat.cast_natAbs, abs_of_neg ‹_›] at h
      rwa [show (-1 : ℚ) * ((-n : Int) : ℚ) = n by push_cast; ring] at h
    · have h := h .positive
      rw [zpow_zero, mul_one, factor, Nat.cast_natAbs, abs_of_nonneg (by omega), one_mul] at h
      exact h

/-- Integers of 24 bits are words. -/
theorem fits_intCast {n : Int} (h : |n| ≤ 2 ^ 24) : Fits n := ⟨n, 0, by norm_num, h, by norm_num⟩

theorem abs_intCast_lt {n : Int} (h : |n| ≤ 2 ^ 24) : |(n : ℚ)| < 2 ^ 128 := by
  have : |(n : ℚ)| ≤ 2 ^ 24 := by
    rw [← Int.cast_abs]
    exact_mod_cast h
  linarith

theorem ofNat_exact {n : Nat} (h : n ≤ 2 ^ 24) : (ofNat n).isFinite = true ∧ (ofNat n).value = n := by
  have habs : |(n : Int)| ≤ 2 ^ 24 := by
    rw [Nat.abs_cast]
    omega
  exact (ofInt_rounded n).exact (fits_intCast habs) (abs_intCast_lt habs)

theorem quotient_eq (m : Nat) (e : Int) :
    0 < (quotient m e).2 ∧ (m : ℚ) * 2 ^ e = (quotient m e).1 / (quotient m e).2 := by
  unfold quotient
  split
  · rename_i he
    refine ⟨one_pos, ?_⟩
    have hpow : (2 : ℚ) ^ e = 2 ^ e.toNat := by rw [← zpow_natCast, Int.toNat_of_nonneg he]
    rw [hpow]
    show (m * 2 ^ e.toNat : ℚ) = ((m * 2 ^ e.toNat : Nat) : ℚ) / ((1 : Nat) : ℚ)
    push_cast
    rw [div_one]
  · rename_i he
    refine ⟨Nat.two_pow_pos _, ?_⟩
    have hpow : (2 : ℚ) ^ e = (2 ^ (-e).toNat)⁻¹ := by
      rw [← zpow_natCast, Int.toNat_of_nonneg (by omega), ← zpow_neg, neg_neg]
    rw [hpow, ← div_eq_mul_inv]
    show (m / 2 ^ (-e).toNat : ℚ) = (m : ℚ) / ((2 ^ (-e).toNat : Nat) : ℚ)
    push_cast
    rfl

/-- Half the divisor is added before dividing, so the quotient is the nearest. -/
theorem div_near (num : Nat) {den : Nat} (hden : 0 < den) :
    |(((2 * num + den) / (2 * den) : Nat) : ℚ) - num / den| ≤ 1 / 2 := by
  have hpos : (0 : ℚ) < den := by exact_mod_cast hden
  have hlow := Nat.div_mul_le_self (2 * num + den) (2 * den)
  have hhigh := Nat.lt_div_mul_add (a := 2 * num + den) (show 0 < 2 * den by omega)
  generalize (2 * num + den) / (2 * den) = k at hlow hhigh
  have hlow : (k : ℚ) * (2 * den) ≤ 2 * num + den := by exact_mod_cast hlow
  have hhigh : (2 * num + den : ℚ) < k * (2 * den) + 2 * den := by exact_mod_cast hhigh
  rw [abs_le]
  constructor
  · rw [le_sub_iff_add_le, ← le_sub_iff_add_le', div_le_iff₀ hpos]
    linarith
  · rw [sub_le_iff_le_add', ← sub_le_iff_le_add, le_div_iff₀ hpos]
    linarith

theorem roundAwayOf_near (s : Sign) (m : Nat) (e : Int) :
    |(roundAwayOf (isNegative s) m e : ℚ) - factor s * (m * 2 ^ e)| ≤ 1 / 2 := by
  obtain ⟨hden, hvalue⟩ := quotient_eq m e
  have hnear := div_near (quotient m e).1 hden
  rw [← hvalue] at hnear
  cases s with
  | negative =>
    show |((-(((2 * (quotient m e).1 + (quotient m e).2) / (2 * (quotient m e).2) : Nat) : Int) : Int) : ℚ)
      - -1 * (m * 2 ^ e)| ≤ 1 / 2
    rw [Int.cast_neg, Int.cast_natCast, neg_one_mul, neg_sub_neg, abs_sub_comm]
    exact hnear
  | positive =>
    show |(((((2 * (quotient m e).1 + (quotient m e).2) / (2 * (quotient m e).2) : Nat) : Int)) : ℚ)
      - 1 * (m * 2 ^ e)| ≤ 1 / 2
    rw [Int.cast_natCast, one_mul]
    exact hnear

/-- **Rounding to an integer**: one that is no further than half away. -/
theorem round_rounded (ha : a.isFinite = true) :
    ∃ n : Int, |(n : ℚ) - a.value| ≤ 1 / 2 ∧ Rounded n a.round := by
  have hunpacked := (isFinite_iff a).mp ha
  unfold round value
  cases hu : a.unpack with
  | infinity s => rw [hu] at hunpacked; cases hunpacked
  | notANumber => rw [hu] at hunpacked; cases hunpacked
  | zero s =>
    have hvalue : a.value = 0 := by
      unfold value
      rw [hu]
      rfl
    refine ⟨0, ?_, 0, ?_, .inl ⟨?_, ha, hvalue⟩⟩
    · show |((0 : Int) : ℚ) - 0| ≤ 1 / 2
      norm_num
    · rw [Int.cast_zero]
      exact rounds_zero
    · norm_num
  | finite s m e hm =>
    refine ⟨_, roundAwayOf_near s m e, ?_⟩
    dsimp only
    split
    · rename_i hzero
      rw [hzero, Int.cast_zero]
      exact rounded_pack (roundsTo_zero s)
    · exact ofInt_rounded _

/-- Restricting a number that is in the range changes nothing. -/
theorem clamp_eq {lo hi : Binary32} (ha : a.isFinite = true) (hlo : lo.isFinite = true)
    (hhi : hi.isFinite = true) (hle : lo.value ≤ a.value) (hle' : a.value ≤ hi.value) :
    a.clamp lo hi = a := by
  unfold clamp
  rw [if_neg (by rw [lt_iff ha hlo]; exact not_lt.mpr hle),
    if_neg (by rw [lt_iff hhi ha]; exact not_lt.mpr hle')]

theorem toNatUpTo_le (hi : Nat) (a : Binary32) : a.toNatUpTo hi ≤ hi := by
  have hle := saturate_le truncateOf (Int.natCast_nonneg hi) (Int.natCast_nonneg hi) a.unpack
  unfold toNatUpTo
  omega

/-- A whole number in the range is its own integer part. -/
theorem toNatUpTo_eq {hi n : Nat} (ha : a.isFinite = true) (hvalue : a.value = n) (hle : n ≤ hi) :
    a.toNatUpTo hi = n := by
  have hunpacked := (isFinite_iff a).mp ha
  unfold value at hvalue
  unfold toNatUpTo saturate
  cases hu : a.unpack with
  | infinity s => rw [hu] at hunpacked; cases hunpacked
  | notANumber => rw [hu] at hunpacked; cases hunpacked
  | zero s =>
    rw [hu] at hvalue
    have : (n : ℚ) = 0 := hvalue.symm
    exact_mod_cast this.symm
  | finite s m e hm =>
    rw [hu] at hvalue
    have hpos : (0 : ℚ) < m * 2 ^ e := by positivity
    obtain ⟨hden, hquotient⟩ := quotient_eq m e
    cases s with
    | negative =>
      have hn : (0 : ℚ) ≤ n := Nat.cast_nonneg n
      have : -1 * ((m : ℚ) * 2 ^ e) = n := hvalue
      linarith
    | positive =>
      have hwhole : (m : ℚ) * 2 ^ e = n := (one_mul _).symm.trans hvalue
      have hden' : ((quotient m e).2 : ℚ) ≠ 0 := by exact_mod_cast hden.ne'
      rw [hwhole, eq_div_iff hden'] at hquotient
      have hmul : n * (quotient m e).2 = (quotient m e).1 := by exact_mod_cast hquotient
      have hdiv : (quotient m e).1 / (quotient m e).2 = n := by
        rw [← hmul, Nat.mul_div_cancel _ hden]
      show (Max.max (0 : Int) (Min.min (hi : Int)
        (((quotient m e).1 / (quotient m e).2 : Nat) : Int))).toNat = n
      rw [hdiv]
      omega

end Binary32

end TexelFlow
