import TexelFlow.Proofs.Binary.Word

/-!
# The rounding of the float model

The float model rounds a significand after shifting bits out of it. Of these it keeps two: the last one
that left, and whether any before it was set. Together with the significand they mark where the exact
number lies: on a multiple of the last place, on the middle between two, or before or behind that
middle. Shifting by one keeps the mark true, and rounding by the mark is rounding to the nearest. After
the rounding a significand may have one bit too many, and is shifted once more, which loses nothing.

## Main statements

* `Marks.shiftRight`, `Marks.rounded` — shifting and rounding by the residual bits.
* `roundWithAccuracy_rounds`, `round_rounds`, `normalize_rounds` — the three entries to rounding.

## §1 — residual bits
## §2 — shifting to the last place
## §3 — rounding
-/

namespace TexelFlow.Binary

open Float.Model (UnpackedFloat Format totalExponent)
open Float.Model.UnpackedFloat (Sign Accuracy ExtendedMantissa shiftToExponent shiftToTargetExponent
  roundWithAccuracy decreaseExponent accuracyOfFraction)

/-! ## §1 — residual bits -/

/-- The residual bits mark where a number lies above its significand. -/
def Marks (em : ExtendedMantissa) (q : ℚ) : Prop :=
  match em.roundBit, em.stickyBit with
  | false, false => q = em.mantissa
  | false, true => em.mantissa < q ∧ q < em.mantissa + 1 / 2
  | true, false => q = em.mantissa + 1 / 2
  | true, true => em.mantissa + 1 / 2 < q ∧ q < em.mantissa + 1

variable {em : ExtendedMantissa} {q : ℚ} {s : Sign} {m : Nat} {e t : Int} {accuracy : Accuracy}

theorem marks_exact (m : Nat) : Marks (.ofMantissaAndAccuracy m .exact) m := rfl

theorem Marks.bounds (h : Marks em q) : em.mantissa ≤ q ∧ q < em.mantissa + 1 := by
  obtain ⟨m, r, s⟩ := em
  cases r <;> cases s <;> simp only [Marks] at h ⊢
  · constructor <;> linarith
  · constructor <;> linarith
  · constructor <;> linarith
  · constructor <;> linarith

/-- Shifting by one: the parity of the significand becomes the first residual bit. -/
theorem Marks.shiftRightOne (h : Marks em q) : Marks em.shiftRightOne (q / 2) := by
  obtain ⟨m, r, s⟩ := em
  rcases Nat.even_or_odd' m with ⟨k, rfl | rfl⟩
  · have hhalf : 2 * k / 2 = k := by omega
    have hbit : (2 * k % 2 != 0) = false := by rw [Nat.mul_mod_right]; rfl
    unfold ExtendedMantissa.shiftRightOne
    rw [hhalf, hbit]
    cases r <;> cases s <;> simp only [Marks, Bool.or_self, Bool.or_true, Bool.or_false] at h ⊢ <;>
      push_cast at h
    · linarith
    · constructor <;> linarith
    · constructor <;> linarith
    · constructor <;> linarith
  · have hhalf : (2 * k + 1) / 2 = k := by omega
    have hbit : ((2 * k + 1) % 2 != 0) = true := by rw [Nat.mul_add_mod]; rfl
    unfold ExtendedMantissa.shiftRightOne
    rw [hhalf, hbit]
    cases r <;> cases s <;> simp only [Marks, Bool.or_self, Bool.or_true, Bool.or_false] at h ⊢ <;>
      push_cast at h
    · linarith
    · constructor <;> linarith
    · constructor <;> linarith
    · constructor <;> linarith

theorem Marks.shiftRight (h : Marks em q) (n : Nat) : Marks (em >>> n) (q / 2 ^ n) := by
  show Marks (n.repeat ExtendedMantissa.shiftRightOne em) (q / 2 ^ n)
  induction n with
  | zero => rwa [pow_zero, div_one]
  | succ n ih =>
    rw [Nat.repeat, pow_succ, ← div_div]
    exact ih.shiftRightOne

/-- **Rounding by the residual bits** is rounding to the nearest, to even on a tie. -/
theorem Marks.rounded (h : Marks em q) :
    |(em.roundedMantissa : ℚ) - q| ≤ 1 / 2 ∧
      (|(em.roundedMantissa : ℚ) - q| = 1 / 2 → Even em.roundedMantissa) := by
  obtain ⟨m, r, s⟩ := em
  cases r with
  | false =>
    cases s with
    | false =>
      simp only [Marks] at h
      show |(m : ℚ) - q| ≤ 1 / 2 ∧ (|(m : ℚ) - q| = 1 / 2 → Even m)
      rw [h, sub_self, abs_zero]
      norm_num
    | true =>
      simp only [Marks] at h
      show |(m : ℚ) - q| ≤ 1 / 2 ∧ (|(m : ℚ) - q| = 1 / 2 → Even m)
      rw [abs_of_nonpos (by linarith)]
      exact ⟨by linarith, fun htie => by linarith⟩
  | true =>
    cases s with
    | false =>
      simp only [Marks] at h
      show |((m + m % 2 : Nat) : ℚ) - q| ≤ 1 / 2 ∧
        (|((m + m % 2 : Nat) : ℚ) - q| = 1 / 2 → Even (m + m % 2))
      have heven : Even (m + m % 2) := by
        rw [Nat.even_add, Nat.even_iff, Nat.even_iff, Nat.mod_mod]
      refine ⟨?_, fun _ => heven⟩
      rcases Nat.mod_two_eq_zero_or_one m with hm | hm
      · rw [hm, h, abs_of_nonpos (by push_cast; linarith)]
        push_cast
        linarith
      · rw [hm, h, abs_of_nonneg (by push_cast; linarith)]
        push_cast
        linarith
    | true =>
      simp only [Marks] at h
      show |((m + 1 : Nat) : ℚ) - q| ≤ 1 / 2 ∧ (|((m + 1 : Nat) : ℚ) - q| = 1 / 2 → Even (m + 1))
      push_cast
      rw [abs_of_nonneg (by linarith)]
      exact ⟨by linarith, fun htie => by linarith⟩

/-- The remainder of a quotient, compared with half the divisor. -/
theorem marks_fraction (m : Nat) {num den : Nat} (h : num < den) :
    Marks (.ofMantissaAndAccuracy m (accuracyOfFraction num den)) (m + num / den) := by
  have hden : (0 : ℚ) < den := by exact_mod_cast (Nat.zero_le num).trans_lt h
  have hlt : (num : ℚ) / den < 1 := by
    rw [div_lt_one hden]
    exact_mod_cast h
  unfold accuracyOfFraction
  split
  · rename_i hzero
    rw [hzero, Nat.cast_zero, zero_div, add_zero]
    exact marks_exact m
  · rename_i hzero
    have hpos : (0 : ℚ) < num / den := by
      have : (0 : ℚ) < num := by exact_mod_cast Nat.pos_of_ne_zero hzero
      positivity
    cases hcompare : compare (2 * num) den with
    | lt =>
      have hhalf : (num : ℚ) / den < 1 / 2 := by
        rw [div_lt_div_iff₀ hden two_pos]
        have : 2 * num < den := compare_lt_iff_lt.mp hcompare
        have : (2 : ℚ) * num < den := by exact_mod_cast this
        linarith
      show (m : ℚ) < m + num / den ∧ (m + num / den : ℚ) < m + 1 / 2
      exact ⟨by linarith, by linarith⟩
    | eq =>
      have hhalf : (num : ℚ) / den = 1 / 2 := by
        rw [div_eq_div_iff hden.ne' two_ne_zero]
        have : 2 * num = den := compare_eq_iff_eq.mp hcompare
        have : (2 : ℚ) * num = den := by exact_mod_cast this
        linarith
      show (m + num / den : ℚ) = m + 1 / 2
      rw [hhalf]
    | gt =>
      have hhalf : 1 / 2 < (num : ℚ) / den := by
        rw [div_lt_div_iff₀ two_pos hden]
        have : den < 2 * num := compare_gt_iff_gt.mp hcompare
        have : (den : ℚ) < 2 * num := by exact_mod_cast this
        linarith
      show (m + 1 / 2 : ℚ) < m + num / den ∧ (m + num / den : ℚ) < m + 1
      exact ⟨by linarith, by linarith⟩

/-! ## §2 — shifting to the last place -/

/-- The exponent that a significand is shifted to. -/
def target (m : Nat) (e : Int) : Int := max (m.log2 + 1 + e - 24) (-149)

theorem targetExponent_eq (m : Nat) (e : Int) :
    Format.binary32.targetExponent (totalExponent m e) = target m e := rfl

/-- There are bits enough to reach the target by shifting right. -/
def Enough (m : Nat) (e : Int) : Prop := 23 ≤ m.log2 ∨ e ≤ -149

theorem Enough.le_target (h : Enough m e) : e ≤ target m e := by
  unfold Enough at h
  unfold target
  omega

/-- The target is the last place of what the residual bits mark. -/
theorem lastPlace_target (h : Enough m e) (hq : (m : ℚ) ≤ q ∧ q < m + 1) :
    LastPlace (q * 2 ^ e) (target m e) := by
  have hpos : (0 : ℚ) < 2 ^ e := zpow_pos two_pos e
  have hm : (0 : ℚ) ≤ m := Nat.cast_nonneg m
  have habs : |q * 2 ^ e| = q * 2 ^ e := abs_of_nonneg (mul_nonneg (hm.trans hq.1) hpos.le)
  refine ⟨le_max_right _ _, ?_, ?_⟩
  · have hlog : (m + 1 : ℚ) ≤ 2 ^ (m.log2 + 1) := by exact_mod_cast Nat.lt_log2_self
    rw [habs]
    calc q * 2 ^ e < (m + 1) * 2 ^ e := mul_lt_mul_of_pos_right hq.2 hpos
      _ ≤ 2 ^ (m.log2 + 1) * 2 ^ e := mul_le_mul_of_nonneg_right hlog hpos.le
      _ = 2 ^ (e + (m.log2 + 1 : Nat)) := (zpow_split e _).symm
      _ ≤ 2 ^ (target m e + 24) := zpow_mono (by unfold target; omega)
  · by_cases hleast : target m e = -149
    · exact .inl hleast
    · unfold Enough at h
      unfold target at hleast
      have htarget : target m e + 23 = e + m.log2 := by
        unfold target
        omega
      have hzero : m ≠ 0 := by
        rintro rfl
        rw [Nat.log2_zero] at hleast h
        omega
      have hlog : (2 ^ m.log2 : ℚ) ≤ m := by exact_mod_cast Nat.log2_self_le hzero
      refine .inr ?_
      rw [habs, htarget, zpow_split]
      exact mul_le_mul_of_nonneg_right (hlog.trans hq.1) hpos.le

theorem shiftToTargetExponent_eq (h : e ≤ target m e) (accuracy : Accuracy) :
    shiftToTargetExponent .binary32 m e accuracy =
      (ExtendedMantissa.ofMantissaAndAccuracy m accuracy >>> (target m e - e).toNat, target m e) := by
  unfold shiftToTargetExponent shiftToExponent
  rw [targetExponent_eq]
  dsimp only
  rw [show e + ((target m e - e).toNat : Int) = target m e by omega]

/-- The second shift takes at most one bit, and loses none. -/
theorem carry {r : Nat} (hr : r ≤ 2 ^ 24) (ht : -149 ≤ t) (hfull : t = -149 ∨ 2 ^ 23 ≤ r) :
    ∃ m' e', shiftToTargetExponent .binary32 r t .exact = (⟨m', false, false⟩, e') ∧
      (m' : ℚ) * 2 ^ e' = r * 2 ^ t ∧ m' < 2 ^ 24 ∧ -149 ≤ e' ∧ (e' = -149 ∨ 2 ^ 23 ≤ m') := by
  rcases hr.lt_or_eq with hlt | rfl
  · have hlog : r.log2 < 24 := by
      by_cases hzero : r = 0
      · rw [hzero, Nat.log2_zero]
        decide
      · exact (Nat.log2_lt hzero).mpr hlt
    have htarget : target r t ≤ t := by
      unfold target
      omega
    refine ⟨r, t, ?_, rfl, hlt, ht, hfull⟩
    unfold shiftToTargetExponent shiftToExponent
    rw [targetExponent_eq]
    dsimp only
    rw [show (target r t - t).toNat = 0 by omega]
    exact Prod.ext rfl (by show t + ((0 : Nat) : Int) = t; omega)
  · have htarget : target (2 ^ 24) t = t + 1 := by
      unfold target
      rw [Nat.log2_two_pow]
      omega
    refine ⟨2 ^ 23, t + 1, ?_, ?_, by norm_num, by omega, .inr le_rfl⟩
    · rw [shiftToTargetExponent_eq (show t ≤ target (2 ^ 24) t by omega), htarget, show (t + 1 - t).toNat = 1 by omega]
      rfl
    · rw [zpow_add_one₀ two_ne_zero]
      push_cast
      ring

/-! ## §3 — rounding -/

/-- A float that is a number rounded: canonical, finite, and of the rounded number. -/
structure RoundsTo (x : ℚ) (u : UnpackedFloat) : Prop where
  /-- The significand is full. -/
  canonical : Canonical u
  /-- The float is a number. -/
  finite : u.isFinite = true
  /-- It is the rounded one. -/
  rounds : Rounds x (valueOf u)

theorem Rounds.factor_mul {x y : ℚ} (h : Rounds x y) (s : Sign) : Rounds (factor s * x) (factor s * y) := by
  cases s with
  | negative =>
    rw [factor, neg_one_mul, neg_one_mul]
    exact h.neg
  | positive =>
    rw [factor, one_mul, one_mul]
    exact h

/-- What is marked at its last place is rounded to 24 bits, or to the first significand with one more. -/
theorem Marks.rounds (hmarks : Marks em q) (hplace : LastPlace (q * 2 ^ t) t) :
    Rounds (q * 2 ^ t) (em.roundedMantissa * 2 ^ t) ∧ em.roundedMantissa ≤ 2 ^ 24 ∧
      (t = -149 ∨ 2 ^ 23 ≤ em.roundedMantissa) := by
  obtain ⟨herror, htie⟩ := hmarks.rounded
  have hd : (0 : ℚ) < 2 ^ t := zpow_pos two_pos t
  have hq : 0 ≤ q := (Nat.cast_nonneg _).trans hmarks.bounds.1
  have habs : |q * 2 ^ t| = q * 2 ^ t := abs_of_nonneg (mul_nonneg hq hd.le)
  have hscale : |em.roundedMantissa * 2 ^ t - q * 2 ^ t| = |em.roundedMantissa - q| * 2 ^ t := by
    rw [← sub_mul, abs_mul, abs_of_pos hd]
  refine ⟨⟨t, em.roundedMantissa, hplace, by norm_cast, ?_, fun h => ?_⟩, ?_, ?_⟩
  · rw [hscale]
    have := mul_le_mul_of_nonneg_right herror hd.le
    linarith
  · have hhalf : |(em.roundedMantissa : ℚ) - q| * 2 ^ t = 1 / 2 * 2 ^ t := by
      rw [← hscale, h]
      ring
    exact_mod_cast htie (mul_right_cancel₀ hd.ne' hhalf)
  · have hreach := hplace.reach
    have hsplit : (2 : ℚ) ^ (t + 24) = 2 ^ 24 * 2 ^ t := zpow_split t 24
    rw [habs, hsplit, mul_lt_mul_iff_of_pos_right hd] at hreach
    have : (em.roundedMantissa : ℚ) < 2 ^ 24 + 1 := by linarith [(abs_le.mp herror).2]
    exact Nat.lt_succ_iff.mp (by exact_mod_cast this)
  · refine hplace.full.imp_right fun hfull => ?_
    have hsplit : (2 : ℚ) ^ (t + 23) = 2 ^ 23 * 2 ^ t := zpow_split t 23
    rw [habs, hsplit, mul_le_mul_iff_of_pos_right hd] at hfull
    have : (2 ^ 23 : ℚ) < em.roundedMantissa + 1 := by linarith [(abs_le.mp herror).1]
    exact Nat.lt_succ_iff.mp (by exact_mod_cast this)

/-- **Rounding** what a significand and its accuracy mark. -/
theorem roundWithAccuracy_rounds (hmarks : Marks (.ofMantissaAndAccuracy m accuracy) q)
    (henough : Enough m e) (s : Sign) :
    RoundsTo (factor s * (q * 2 ^ e)) (roundWithAccuracy .binary32 s m e accuracy) := by
  have hle := henough.le_target
  have hbounds : (m : ℚ) ≤ q ∧ q < m + 1 := by
    have := hmarks.bounds
    cases accuracy with
    | exact => exact this
    | inexact o => cases o <;> exact this
  have hplace := lastPlace_target henough hbounds
  have hshift := shiftToTargetExponent_eq hle accuracy
  have hshifted := hmarks.shiftRight (target m e - e).toNat
  have hvalue : q * 2 ^ e = q / 2 ^ (target m e - e).toNat * 2 ^ target m e := by
    have hsplit := zpow_split e (target m e - e).toNat
    rw [show e + ((target m e - e).toNat : Int) = target m e by omega] at hsplit
    rw [hsplit, ← mul_assoc, div_mul_cancel₀ q (by positivity)]
  rw [hvalue] at hplace ⊢
  generalize target m e = t at hle hplace hshift hshifted hvalue ⊢
  generalize q / 2 ^ (t - e).toNat = q' at hplace hshifted hvalue ⊢
  generalize ExtendedMantissa.ofMantissaAndAccuracy m accuracy >>> (t - e).toNat = em
    at hshift hshifted
  obtain ⟨hrounds, hr, hfull⟩ := hshifted.rounds hplace
  obtain ⟨m', e', hcarry, hsame, hlt, hleast, hfull'⟩ := carry hr hplace.least hfull
  rw [← hsame] at hrounds
  have hsigned := hrounds.factor_mul s
  unfold roundWithAccuracy
  rw [hshift]
  dsimp only
  rw [hcarry]
  dsimp only
  split
  · rename_i hzero
    rw [hzero, Nat.cast_zero, zero_mul, mul_zero] at hsigned
    exact ⟨trivial, rfl, hsigned⟩
  · exact ⟨⟨hlt, hleast, hfull'⟩, rfl, hsigned⟩

/-- Shifting left lengthens. -/
theorem add_le_log2_shiftLeft (hm : m ≠ 0) (k : Nat) : m.log2 + k ≤ (m <<< k).log2 := by
  have hpos : 0 < m * 2 ^ k := Nat.mul_pos (Nat.pos_of_ne_zero hm) (Nat.two_pow_pos k)
  rw [Nat.shiftLeft_eq, Nat.le_log2 hpos.ne', Nat.pow_add]
  exact Nat.mul_le_mul_right _ (Nat.log2_self_le hm)

/-- Lowering an exponent and lengthening the significand by as much keeps the number. -/
theorem shiftLeft_mul_zpow (m : Nat) (e : Int) (k : Nat) :
    ((m <<< k : Nat) : ℚ) * 2 ^ (e - k) = m * 2 ^ e := by
  have hsplit := zpow_split (e - k) k
  rw [sub_add_cancel] at hsplit
  rw [hsplit, Nat.shiftLeft_eq]
  push_cast
  ring

/-- Rounding a significand of any length: it is lengthened first where it is too short. -/
theorem round_rounds (hm : m ≠ 0) (e : Int) (s : Sign) :
    RoundsTo (factor s * (m * 2 ^ e)) (UnpackedFloat.round .binary32 s m e) := by
  unfold UnpackedFloat.round decreaseExponent
  rw [targetExponent_eq]
  dsimp only
  have henough : Enough (m <<< (e - target m e).toNat) (e - ((e - target m e).toNat : Int)) := by
    have := add_le_log2_shiftLeft hm (e - target m e).toNat
    unfold Enough
    unfold target at *
    omega
  have hrounds := roundWithAccuracy_rounds (marks_exact _) henough s
  rwa [shiftLeft_mul_zpow] at hrounds

/-- Rounding a signed significand. -/
theorem normalize_rounds (n e : Int) (s : Sign) :
    RoundsTo (n * 2 ^ e) (UnpackedFloat.normalize .binary32 n e s) := by
  have hcast : ∀ k : Int, 0 < k → (k.toNat : ℚ) = k := fun k hk => by
    rw [← Int.cast_natCast, Int.toNat_of_nonneg hk.le]
  unfold UnpackedFloat.normalize
  cases hcompare : compare n 0 with
  | lt =>
    have hn : n < 0 := compare_lt_iff_lt.mp hcompare
    have h := round_rounds (show (-n).toNat ≠ 0 by omega) e .negative
    rw [hcast _ (by omega), factor, Int.cast_neg] at h
    rwa [show (-1 : ℚ) * (-n * 2 ^ e) = n * 2 ^ e by ring] at h
  | eq =>
    obtain rfl : n = 0 := compare_eq_iff_eq.mp hcompare
    rw [Int.cast_zero, zero_mul]
    exact ⟨trivial, rfl, rounds_zero⟩
  | gt =>
    have hn : 0 < n := compare_gt_iff_gt.mp hcompare
    have h := round_rounds (show n.toNat ≠ 0 by omega) e .positive
    rwa [hcast _ hn, factor, one_mul] at h

end TexelFlow.Binary
