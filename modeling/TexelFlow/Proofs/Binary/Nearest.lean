import Mathlib.Algebra.Order.Field.Power
import Mathlib.Algebra.Order.Ring.Abs
import Mathlib.Algebra.Order.Field.Rat
import Mathlib.Algebra.Ring.Int.Parity
import Mathlib.Tactic.Linarith
import Mathlib.Tactic.NormNum
import Mathlib.Tactic.Positivity
import Mathlib.Tactic.Ring

/-!
# Rounding to 24 bits

Rounding over the rationals, apart from any word. A number has a last place: the power of two whose
multiples 24 bits can count it by, no finer than the least one of binary32. It is rounded to the
nearest multiple of its last place, ties going to the even one. How far up the last places go is not
said here, so there is no overflow.

What makes rounding useful is that no number of 24 bits, at whatever last place, is nearer than the
rounded one. From this follow order and exactness.

## Main statements

* `Rounds.nearest` — no number of 24 bits is nearer.
* `Rounds.mono`, `Rounds.unique` — rounding keeps the order, and has one result.
* `Rounds.error_le`, `Rounds.error_le_result` — the error, by what is rounded or by what it is rounded to.
* `Rounds.near` — what happens to a number of 24 bits that is displaced and rounded.

## §1 — last places
## §2 — rounding
## §3 — order
## §4 — errors
-/

namespace TexelFlow.Binary

/-! ## §1 — last places -/

/-- The last place that 24 bits leave to a number is `2 ^ t`. -/
structure LastPlace (x : ℚ) (t : ℤ) : Prop where
  /-- No last place is finer than the least one. -/
  least : -149 ≤ t
  /-- The bits reach up to the number. -/
  reach : |x| < 2 ^ (t + 24)
  /-- The leading bit is set, unless the last place is the least one. -/
  full : t = -149 ∨ 2 ^ (t + 23) ≤ |x|

/-- A number of 24 bits. -/
def Fits (z : ℚ) : Prop := ∃ k j : ℤ, z = k * 2 ^ j ∧ |k| ≤ 2 ^ 24 ∧ -149 ≤ j

variable {x x' y y' z : ℚ} {t t' : ℤ}

theorem zpow_mono {i j : ℤ} (h : i ≤ j) : (2 : ℚ) ^ i ≤ 2 ^ j :=
  zpow_le_zpow_right₀ (by norm_num) h

theorem zpow_split (i : ℤ) (n : ℕ) : (2 : ℚ) ^ (i + n) = 2 ^ n * 2 ^ i := by
  rw [zpow_add₀ (by norm_num), zpow_natCast, mul_comm]

theorem LastPlace.neg (h : LastPlace x t) : LastPlace (-x) t :=
  ⟨h.least, by rw [abs_neg]; exact h.reach, by rw [abs_neg]; exact h.full⟩

/-- Larger numbers have no finer last place. -/
theorem LastPlace.mono (h : LastPlace x t) (h' : LastPlace x' t') (hle : |x| ≤ |x'|) : t ≤ t' := by
  rcases h.full with rfl | hfull
  · exact h'.least
  · by_contra hlt
    have hpow : (2 : ℚ) ^ (t' + 24) ≤ 2 ^ (t + 23) := zpow_mono (by omega)
    have := h'.reach
    linarith

theorem LastPlace.unique (h : LastPlace x t) (h' : LastPlace x t') : t = t' :=
  le_antisymm (h.mono h' le_rfl) (h'.mono h le_rfl)

theorem Fits.neg (h : Fits z) : Fits (-z) := by
  obtain ⟨k, j, rfl, hk, hj⟩ := h
  exact ⟨-k, j, by push_cast; ring, by rwa [abs_neg], hj⟩

/-- Different multiples are at least one apart. -/
theorem le_abs_sub_of_ne {n k : ℤ} {d : ℚ} (hd : 0 < d) (h : n ≠ k) : d ≤ |n * d - k * d| := by
  have hone : (1 : ℚ) ≤ |((n - k : ℤ) : ℚ)| := by
    rw [← Int.cast_abs]
    exact_mod_cast Int.one_le_abs (sub_ne_zero.mpr h)
  rw [← sub_mul, abs_mul, abs_of_pos hd, ← Int.cast_sub]
  exact le_mul_of_one_le_left hd.le hone

/-- A multiple of a power is one of every lower power. -/
theorem exists_multiple (k : ℤ) {i j : ℤ} (h : i ≤ j) : ∃ n : ℤ, (k : ℚ) * 2 ^ j = n * 2 ^ i := by
  have hsplit := zpow_split i (j - i).toNat
  rw [show i + ((j - i).toNat : ℤ) = j by omega] at hsplit
  refine ⟨k * 2 ^ (j - i).toNat, ?_⟩
  rw [hsplit]
  push_cast
  ring

/-- A number of 24 bits is a multiple of a last place, or half a place and more below the leading bit
there. -/
theorem Fits.multiple_or_le (h : Fits z) (t : ℤ) :
    (∃ k : ℤ, z = k * 2 ^ t) ∨ -149 < t ∧ |z| ≤ 2 ^ (t + 23) - 2 ^ t / 2 := by
  obtain ⟨k, j, rfl, hk, hj⟩ := h
  rcases le_or_gt t j with hle | hlt
  · exact .inl (exists_multiple k hle)
  · have hpos : (0 : ℚ) < 2 ^ j := zpow_pos two_pos j
    have hsplit : (2 : ℚ) ^ (t + 23) = 2 ^ 23 * 2 ^ t := zpow_split t 23
    have hdouble : (2 : ℚ) ^ (j + 1) = 2 * 2 ^ j := by rw [zpow_add_one₀ two_ne_zero, mul_comm]
    have hle : (2 : ℚ) ^ (j + 1) ≤ 2 ^ t := zpow_mono hlt
    have habs : |(k : ℚ) * 2 ^ j| = |(k : ℚ)| * 2 ^ j := by rw [abs_mul, abs_of_pos hpos]
    rcases hk.lt_or_eq with hk | hk
    · -- the significand is at least one below the leading bit
      have hk : |(k : ℚ)| ≤ 2 ^ 24 - 1 := by
        rw [← Int.cast_abs]
        exact_mod_cast Int.le_sub_one_of_lt hk
      have hbound := mul_le_mul_of_nonneg_right hk hpos.le
      refine .inr ⟨by omega, ?_⟩
      rw [habs, hsplit]
      linarith
    · -- the significand is the leading bit: a power
      have hpower : |(k : ℚ)| = 2 ^ 24 := by
        rw [← Int.cast_abs, hk]
        norm_num
      rcases (show j + 1 = t ∨ j + 2 ≤ t by omega) with rfl | hlow
      · refine .inl ?_
        rcases (abs_eq (by norm_num)).mp hk with rfl | rfl
        · exact ⟨2 ^ 23, by rw [hdouble]; norm_num; ring⟩
        · exact ⟨-2 ^ 23, by rw [hdouble]; norm_num; ring⟩
      · have hquarter : (2 : ℚ) ^ (j + 2) = 2 ^ 2 * 2 ^ j := zpow_split j 2
        have hle : (2 : ℚ) ^ (j + 2) ≤ 2 ^ t := zpow_mono hlow
        refine .inr ⟨by omega, ?_⟩
        rw [habs, hpower, hsplit]
        linarith

/-! ## §2 — rounding -/

/-- `y` is `x` rounded to 24 bits, to the nearest and to even on a tie. -/
def Rounds (x y : ℚ) : Prop :=
  ∃ t n : ℤ, LastPlace x t ∧ y = n * 2 ^ t ∧ |y - x| ≤ 2 ^ t / 2 ∧ (|y - x| = 2 ^ t / 2 → Even n)

theorem Rounds.neg (h : Rounds x y) : Rounds (-x) (-y) := by
  obtain ⟨t, n, hplace, rfl, herror, htie⟩ := h
  have habs : |-(n * 2 ^ t : ℚ) - -x| = |n * 2 ^ t - x| := by
    rw [← abs_neg]
    congr 1
    ring
  refine ⟨t, -n, hplace.neg, by push_cast; ring, ?_, ?_⟩
  · rwa [habs]
  · rw [habs]
    exact fun h => (htie h).neg

theorem rounds_zero : Rounds 0 0 := by
  refine ⟨-149, 0, ⟨le_rfl, ?_, .inl rfl⟩, ?_, ?_, ?_⟩
  · rw [abs_zero]
    positivity
  · rw [Int.cast_zero, zero_mul]
  · rw [sub_zero, abs_zero]
    positivity
  · exact fun _ => Even.zero

/-- No multiple of the last place is nearer. -/
theorem abs_sub_le_of_multiple {n k : ℤ} {d : ℚ} (hd : 0 < d) (h : |n * d - x| ≤ d / 2) :
    |n * d - x| ≤ |k * d - x| := by
  by_cases hnk : n = k
  · rw [hnk]
  · have happart := le_abs_sub_of_ne hd hnk
    have htriangle : |n * d - k * d| ≤ |n * d - x| + |k * d - x| := by
      rw [show (n * d - k * d : ℚ) = (n * d - x) - (k * d - x) by ring]
      exact abs_sub _ _
    linarith

/-- **Nothing is nearer**: no number of 24 bits, at whatever last place. -/
theorem Rounds.nearest (h : Rounds x y) (hz : Fits z) : |y - x| ≤ |z - x| := by
  -- both signs alike
  have hpositive : ∀ x y z : ℚ, 0 ≤ x → Rounds x y → Fits z → |y - x| ≤ |z - x| := by
    rintro x y z hx ⟨t, n, hplace, rfl, herror, -⟩ hz
    have hd : (0 : ℚ) < 2 ^ t := zpow_pos two_pos t
    rcases hz.multiple_or_le t with ⟨k, rfl⟩ | ⟨hleast, hsmall⟩
    · exact abs_sub_le_of_multiple hd herror
    · -- the lowest number with this last place, a multiple of it, lies between
      have hfull := hplace.full.resolve_left hleast.ne'
      obtain ⟨k, hk⟩ := exists_multiple 1 (show t ≤ t + 23 by omega)
      have hlowest : |n * 2 ^ t - x| ≤ |2 ^ (t + 23) - x| := by
        rw [Int.cast_one, one_mul] at hk
        rw [hk]
        exact abs_sub_le_of_multiple hd herror
      rw [abs_of_nonneg hx] at hfull
      have hz' := (abs_le.mp hsmall).2
      rw [abs_of_nonpos (show 2 ^ (t + 23) - x ≤ 0 by linarith)] at hlowest
      rw [abs_of_nonpos (show z - x ≤ 0 by linarith)]
      linarith
  rcases le_total 0 x with hx | hx
  · exact hpositive x y z hx h hz
  · have := hpositive (-x) (-y) (-z) (by linarith) h.neg hz.neg
    rwa [show -y - -x = -(y - x) by ring, show -z - -x = -(z - x) by ring, abs_neg, abs_neg] at this

/-- A number of 24 bits is rounded to itself. -/
theorem Rounds.eq_of_fits (h : Rounds x y) (hx : Fits x) : y = x := by
  have := h.nearest hx
  rw [sub_self, abs_zero, abs_nonpos_iff] at this
  exact sub_eq_zero.mp this

/-- What is rounded to has 24 bits. -/
theorem Rounds.fits (h : Rounds x y) : Fits y := by
  obtain ⟨t, n, hplace, rfl, herror, -⟩ := h
  refine ⟨n, t, rfl, ?_, hplace.least⟩
  have hd : (0 : ℚ) < 2 ^ t := zpow_pos two_pos t
  have hreach := hplace.reach
  have hsplit : (2 : ℚ) ^ (t + 24) = 2 ^ 24 * 2 ^ t := zpow_split t 24
  rw [hsplit] at hreach
  have hbound : |(n : ℚ) * 2 ^ t| < (2 ^ 24 + 1) * 2 ^ t := by
    have := abs_sub_abs_le_abs_sub ((n : ℚ) * 2 ^ t) x
    linarith
  rw [abs_mul, abs_of_pos hd, mul_lt_mul_iff_of_pos_right hd, ← Int.cast_abs] at hbound
  have : |n| < 2 ^ 24 + 1 := by exact_mod_cast hbound
  omega

/-! ## §3 — order -/

/-- **Rounding does not pass** a number of 24 bits. -/
theorem Rounds.le_of_le (h : Rounds x y) (hz : Fits z) (hle : x ≤ z) : y ≤ z := by
  have := h.nearest hz
  rw [abs_of_nonneg (sub_nonneg.mpr hle)] at this
  linarith [le_abs_self (y - x)]

theorem Rounds.ge_of_ge (h : Rounds x y) (hz : Fits z) (hle : z ≤ x) : z ≤ y := by
  have := h.neg.le_of_le hz.neg (neg_le_neg hle)
  linarith

/-- **One result**: two would be equally near, and one of them odd. -/
theorem Rounds.unique (h : Rounds x y) (h' : Rounds x y') : y = y' := by
  obtain ⟨t, n, hplace, rfl, herror, htie⟩ := h
  obtain ⟨t', n', hplace', rfl, herror', htie'⟩ := h'
  obtain rfl := hplace.unique hplace'
  have hd : (0 : ℚ) < 2 ^ t := zpow_pos two_pos t
  by_contra hne
  have hnn : n ≠ n' := fun h => hne (by rw [h])
  have happart := le_abs_sub_of_ne hd hnn
  have htriangle : |(n : ℚ) * 2 ^ t - n' * 2 ^ t| ≤ |n * 2 ^ t - x| + |n' * 2 ^ t - x| := by
    rw [show ((n : ℚ) * 2 ^ t - n' * 2 ^ t) = (n * 2 ^ t - x) - (n' * 2 ^ t - x) by ring]
    exact abs_sub _ _
  -- so they are one apart, at half a place each, and both even
  obtain ⟨i, rfl⟩ := htie (by linarith)
  obtain ⟨i', rfl⟩ := htie' (by linarith)
  have hone : |((i + i : ℤ) : ℚ) * 2 ^ t - (i' + i' : ℤ) * 2 ^ t| = 2 ^ t := by linarith
  rw [← sub_mul, abs_mul, abs_of_pos hd, ← Int.cast_sub, ← Int.cast_abs] at hone
  have habs : |i + i - (i' + i')| = 1 := by
    have := mul_right_cancel₀ hd.ne' (hone.trans (one_mul _).symm)
    exact_mod_cast this
  rcases (abs_eq one_pos.le).mp habs with h | h
  · omega
  · omega

/-- **Rounding keeps the order.** -/
theorem Rounds.mono (h : Rounds x y) (h' : Rounds x' y') (hle : x ≤ x') : y ≤ y' := by
  by_contra hlt
  rw [not_le] at hlt
  have hnear := h.nearest h'.fits
  have hnear' := h'.nearest h.fits
  -- each is as near to its own result as to the other's, so both are the middle
  have hlow : y' ≤ x := by
    by_contra hx
    exact absurd (h.le_of_le h'.fits (not_le.mp hx).le) (not_le.mpr hlt)
  have hhigh : x' ≤ y := by
    by_contra hx
    exact absurd (h'.ge_of_ge h.fits (not_le.mp hx).le) (not_le.mpr hlt)
  rw [abs_of_nonneg (show 0 ≤ y - x by linarith), abs_of_nonpos (show y' - x ≤ 0 by linarith)] at hnear
  rw [abs_of_nonpos (show y' - x' ≤ 0 by linarith), abs_of_nonneg (show 0 ≤ y - x' by linarith)] at hnear'
  obtain rfl : x = x' := by linarith
  exact hlt.ne (h'.unique h)

theorem fits_zero : Fits 0 := ⟨0, 0, by norm_num, by norm_num, by norm_num⟩

theorem Rounds.nonneg (h : Rounds x y) (hx : 0 ≤ x) : 0 ≤ y := h.ge_of_ge fits_zero hx

/-! ## §4 — errors -/

/-- The error by what is rounded. -/
theorem Rounds.error_le (h : Rounds x y) : |y - x| ≤ max (|x| / 2 ^ 24) (2 ^ (-150 : ℤ)) := by
  obtain ⟨t, n, hplace, -, herror, -⟩ := h
  rcases hplace.full with rfl | hfull
  · refine le_max_of_le_right (herror.trans_eq ?_)
    norm_num
  · refine le_max_of_le_left (herror.trans ?_)
    have hsplit : (2 : ℚ) ^ (t + 23) = 2 ^ 23 * 2 ^ t := zpow_split t 23
    rw [hsplit] at hfull
    linarith

/-- What is a multiple of the least last place has an error by what it is alone: the numbers too small for
that have 24 bits at the least last place. -/
theorem Rounds.error_le_of_multiple (h : Rounds x y) {k : ℤ} (hx : x = k * 2 ^ (-149 : ℤ)) :
    |y - x| ≤ |x| / 2 ^ 24 := by
  obtain ⟨t, n, hplace, -, herror, -⟩ := id h
  rcases hplace.full with rfl | hfull
  · have hd : (0 : ℚ) < 2 ^ (-149 : ℤ) := by positivity
    have hreach := hplace.reach
    have hsplit : (2 : ℚ) ^ (-149 + 24 : ℤ) = 2 ^ 24 * 2 ^ (-149 : ℤ) := zpow_split (-149) 24
    rw [hsplit, hx, abs_mul, abs_of_pos hd, mul_lt_mul_iff_of_pos_right hd, ← Int.cast_abs] at hreach
    have hk : |k| < 2 ^ 24 := by exact_mod_cast hreach
    rw [h.eq_of_fits ⟨k, -149, hx, hk.le, le_rfl⟩, sub_self, abs_zero]
    positivity
  · have hsplit : (2 : ℚ) ^ (t + 23) = 2 ^ 23 * 2 ^ t := zpow_split t 23
    rw [hsplit] at hfull
    refine herror.trans ?_
    linarith

/-- The error by what it is rounded to. -/
theorem Rounds.error_le_result (h : Rounds x y) : |y - x| ≤ max (|y| / 2 ^ 24) (2 ^ (-150 : ℤ)) := by
  obtain ⟨t, n, hplace, hy, herror, -⟩ := id h
  rcases hplace.full with rfl | hfull
  · refine le_max_of_le_right (herror.trans_eq ?_)
    norm_num
  · refine le_max_of_le_left (herror.trans ?_)
    have hlowest : Fits (2 ^ (t + 23)) :=
      ⟨1, t + 23, by norm_num, by norm_num, by have := hplace.least; omega⟩
    have hy : (2 : ℚ) ^ (t + 23) ≤ |y| := by
      rcases le_abs.mp hfull with hx | hx
      · exact (h.ge_of_ge hlowest hx).trans (le_abs_self y)
      · exact (h.neg.ge_of_ge hlowest hx).trans (neg_le_abs y)
    have hsplit : (2 : ℚ) ^ (t + 23) = 2 ^ 23 * 2 ^ t := zpow_split t 23
    rw [hsplit] at hy
    linarith

/-- A number of 24 bits that is below the leading bit of what is rounded, is rounded to within three
halves of its distance. -/
theorem Rounds.near_of_lt (h : Rounds x y) {v error : ℚ} (hv : Fits v) (herror : |x - v| ≤ error)
    (hplace : LastPlace x t) (hx : 2 ^ (t + 23) ≤ x) (hlt : v < 2 ^ (t + 23)) (hleast : -149 < t) :
    |y - v| ≤ 3 / 2 * error := by
  obtain ⟨t', n, hplace', rfl, hround, -⟩ := id h
  obtain rfl := hplace.unique hplace'
  have hd : (0 : ℚ) < 2 ^ t := zpow_pos two_pos t
  have hlowest : Fits (2 ^ (t + 23)) := ⟨1, t + 23, by norm_num, by norm_num, by omega⟩
  obtain ⟨b, hb⟩ := exists_multiple 1 (show t ≤ t + 23 by omega)
  rw [Int.cast_one, one_mul] at hb
  -- half a place at least is missing to the leading bit
  have hmissing : v ≤ 2 ^ (t + 23) - 2 ^ t / 2 := by
    rcases hv.multiple_or_le t with ⟨k, rfl⟩ | ⟨-, hsmall⟩
    · have hne : b ≠ k := by
        rintro rfl
        exact hlt.ne hb.symm
      have happart := le_abs_sub_of_ne hd hne
      rw [← hb, abs_of_nonneg (by linarith)] at happart
      linarith
    · exact (le_abs_self v).trans hsmall
  have hge := h.ge_of_ge hlowest hx
  have hxv := (le_abs_self (x - v)).trans herror
  rw [abs_of_nonneg (by linarith)]
  by_cases hn : n = b
  · rw [hn, ← hb]
    linarith
  · -- beyond the leading bit, by one place at least
    have happart := le_abs_sub_of_ne hd hn
    rw [← hb, abs_of_nonneg (by linarith)] at happart
    have := (abs_le.mp hround).2
    linarith

/-- **A displaced number** of 24 bits is rounded to within three halves of its displacement, or to its
neighbour at a last place that it has bits for itself. -/
theorem Rounds.near (h : Rounds x y) {v error : ℚ} (hv : Fits v) (herror : |x - v| ≤ error) :
    |y - v| ≤ 3 / 2 * error ∨
      ∃ t, LastPlace x t ∧ |y - v| = 2 ^ t ∧ (t = -149 ∨ 2 ^ (t + 23) ≤ |v|) := by
  obtain ⟨t, n, hplace, hy, hround, -⟩ := id h
  have hd : (0 : ℚ) < 2 ^ t := zpow_pos two_pos t
  have hpos : 0 ≤ error := (abs_nonneg _).trans herror
  by_cases hfull : t = -149 ∨ 2 ^ (t + 23) ≤ |v|
  · -- both are multiples of the last place: the same, neighbours, or further apart
    have hmultiple : ∃ k : ℤ, v = k * 2 ^ t := by
      refine (hv.multiple_or_le t).resolve_right ?_
      rintro ⟨hleast, hsmall⟩
      rcases hfull with rfl | hfull
      · exact absurd hleast (lt_irrefl _)
      · linarith
    obtain ⟨k, rfl⟩ := hmultiple
    subst hy
    have habs : |(n : ℚ) * 2 ^ t - k * 2 ^ t| = (|n - k| : ℤ) * 2 ^ t := by
      rw [← sub_mul, abs_mul, abs_of_pos hd, ← Int.cast_sub, Int.cast_abs]
    rcases (show |n - k| = 0 ∨ |n - k| = 1 ∨ 2 ≤ |n - k| by have := abs_nonneg (n - k); omega) with
      hsame | hone | htwo
    · refine .inl ?_
      rw [habs, hsame, Int.cast_zero, zero_mul]
      linarith
    · refine .inr ⟨t, hplace, ?_, hfull⟩
      rw [habs, hone, Int.cast_one, one_mul]
    · refine .inl ?_
      have htwo : (2 : ℚ) ≤ (|n - k| : ℤ) := by exact_mod_cast htwo
      have hfar := mul_le_mul_of_nonneg_right htwo hd.le
      rw [← habs] at hfar
      have htriangle := abs_sub_le ((n : ℚ) * 2 ^ t) x (k * 2 ^ t)
      linarith
  · rw [not_or, not_le] at hfull
    obtain ⟨hleast, hlt⟩ := hfull
    have hleast : -149 < t := lt_of_le_of_ne hplace.least (Ne.symm hleast)
    have hbelow := abs_lt.mp hlt
    refine .inl ?_
    rcases le_abs.mp (hplace.full.resolve_left hleast.ne') with hx | hx
    · exact h.near_of_lt hv herror hplace hx hbelow.2 hleast
    · have hswap : ∀ a b : ℚ, |-a - -b| = |a - b| := fun a b => by
        rw [← abs_neg]
        congr 1
        ring
      have := h.neg.near_of_lt hv.neg ((hswap x v).trans_le herror) hplace.neg hx (by linarith) hleast
      rwa [hswap] at this

end TexelFlow.Binary
