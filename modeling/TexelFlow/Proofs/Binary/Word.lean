import Mathlib
import TexelFlow.Binary.Basic
import TexelFlow.Proofs.Binary.Nearest

/-!
# Binary32 words and their numbers

A finite word stands for a rational number. Unpacked, it is canonical: its significand fills the 24
bits unless its exponent is the least one. On canonical floats, comparing exponent before significand
is comparing numbers, and packing followed by unpacking changes nothing, except that an exponent above
the range of the words becomes an infinity.

## Main statements

* `canonical_unpack`, `unpack_pack` — words and canonical floats.
* `holds_pack` — the word of a canonical float holds its number.
* `lt_iff` — comparison of finite words.

## §1 — numbers of unpacked floats
## §2 — fields of a word
## §3 — words
## §4 — comparison
-/

namespace TexelFlow

open Float.Model (UnpackedFloat Format)
open Float.Model.UnpackedFloat (Sign)

/-! ## §1 — numbers of unpacked floats -/

namespace Binary

/-- A sign as a factor. -/
def factor : Sign → ℚ
  | .negative => -1
  | .positive => 1

/-- The number that an unpacked float stands for; zero where it is infinite or no number. -/
def valueOf : UnpackedFloat → ℚ
  | .finite s m e _ => factor s * (m * 2 ^ e)
  | _ => 0

/-- The significand fills its 24 bits, unless the exponent is the least one. -/
def Canonical : UnpackedFloat → Prop
  | .finite _ m e _ => m < 2 ^ 24 ∧ -149 ≤ e ∧ (e = -149 ∨ 2 ^ 23 ≤ m)
  | _ => True

/-- The sign of a number, zero counted as negative. -/
def signOf (y : ℚ) : Sign := if 0 < y then .positive else .negative

variable {s : Sign} {m : Nat} {e : Int}

theorem abs_factor_mul (s : Sign) (x : ℚ) : |factor s * x| = |x| := by
  cases s with
  | negative => rw [factor, neg_one_mul, abs_neg]
  | positive => rw [factor, one_mul]

theorem abs_valueOf_finite (hm : 0 < m) : |valueOf (.finite s m e hm)| = m * 2 ^ e := by
  rw [valueOf, abs_factor_mul, abs_of_nonneg (by positivity)]

theorem signOf_valueOf (hm : 0 < m) : signOf (valueOf (.finite s m e hm)) = s := by
  have hpos : (0 : ℚ) < m * 2 ^ e := by positivity
  unfold signOf valueOf
  cases s with
  | negative => exact if_neg (by show ¬ 0 < (-1 : ℚ) * (m * 2 ^ e); linarith)
  | positive => exact if_pos (by show 0 < (1 : ℚ) * (m * 2 ^ e); linarith)

/-- A canonical float is rounded already: its exponent is its last place. -/
theorem Canonical.rounds {u : UnpackedFloat} (h : Canonical u) : Rounds (valueOf u) (valueOf u) := by
  cases u with
  | finite s m e hm =>
    obtain ⟨hlt, hleast, hfull⟩ := h
    have hd : (0 : ℚ) < 2 ^ e := zpow_pos two_pos e
    have hplace : LastPlace (valueOf (.finite s m e hm)) e := by
      refine ⟨hleast, ?_, hfull.imp_right fun hm => ?_⟩
      · have hsplit : (2 : ℚ) ^ (e + 24) = 2 ^ 24 * 2 ^ e := zpow_split e 24
        rw [abs_valueOf_finite, hsplit]
        exact mul_lt_mul_of_pos_right (by exact_mod_cast hlt) hd
      · have hsplit : (2 : ℚ) ^ (e + 23) = 2 ^ 23 * 2 ^ e := zpow_split e 23
        rw [abs_valueOf_finite, hsplit]
        exact mul_le_mul_of_nonneg_right (by exact_mod_cast hm) hd.le
    have hself : |valueOf (.finite s m e hm) - valueOf (.finite s m e hm)| = 0 := by
      rw [sub_self, abs_zero]
    refine ⟨e, s.apply m, hplace, ?_, ?_, ?_⟩
    · cases s with
      | negative =>
        show -1 * (m * 2 ^ e : ℚ) = ((-(m : Int) : Int) : ℚ) * 2 ^ e
        push_cast
        ring
      | positive => exact one_mul _
    · rw [hself]
      positivity
    · rw [hself]
      intro h
      linarith
  | _ => exact rounds_zero

/-- The magnitude of a canonical float says whether its exponent is in the range of the words. -/
theorem Canonical.abs_lt_iff {hm : 0 < m} (h : Canonical (.finite s m e hm)) :
    |valueOf (.finite s m e hm)| < 2 ^ 128 ↔ e ≤ 104 := by
  obtain ⟨hlt, hleast, hfull⟩ := h
  have hpos : (0 : ℚ) < 2 ^ e := zpow_pos two_pos e
  have hm : (m : ℚ) < 2 ^ 24 := by exact_mod_cast hlt
  rw [abs_valueOf_finite]
  constructor
  · intro hsmall
    by_contra hlarge
    have hpow : (2 : ℚ) ^ (105 : ℤ) ≤ 2 ^ e := zpow_mono (by omega)
    have hm : (2 : ℚ) ^ 23 ≤ m := by exact_mod_cast hfull.resolve_left (by omega)
    have := mul_le_mul hm hpow (by positivity) (by positivity)
    norm_num at this hsmall
    linarith
  · intro hle
    have hpow : (2 : ℚ) ^ e ≤ 2 ^ (104 : ℤ) := zpow_mono hle
    calc (m : ℚ) * 2 ^ e < 2 ^ 24 * 2 ^ e := mul_lt_mul_of_pos_right hm hpos
      _ ≤ 2 ^ 24 * 2 ^ (104 : ℤ) := mul_le_mul_of_nonneg_left hpow (by positivity)
      _ = 2 ^ 128 := by norm_num

/-! ## §2 — fields of a word -/

open Float.Model.UnpackedFloat (unpackExponent unpackMantissa unpackSign packComponents
  unpackExponent_packComponents unpackMantissa_packComponents)

/-- The float of a sign, an exponent field and a significand field. -/
def ofFields (s : Sign) (exponent significand : Nat) : UnpackedFloat :=
  if exponent = 255 then if significand = 0 then .infinity s else .notANumber
  else if exponent = 0 then
    if h : significand = 0 then .zero s else .finite s significand (-149) (Nat.pos_of_ne_zero h)
  else .finite s (2 ^ 23 + significand) (exponent - 150) (by omega)

theorem toNat_leading_append {w : Nat} (m : BitVec w) : (1#1 ++ m).toNat = 2 ^ w + m.toNat := by
  rw [BitVec.toNat_append, ← Nat.shiftLeft_add_eq_or_of_lt m.isLt, Nat.shiftLeft_eq,
    BitVec.toNat_one Nat.one_pos, Nat.one_mul]

theorem unpack_eq_ofFields (b : BitVec Format.binary32.numBits) :
    UnpackedFloat.unpack .binary32 b =
      ofFields (Sign.ofBitVec (unpackSign b)) (unpackExponent b).toNat (unpackMantissa b).toNat := by
  have hexponent : ∀ v : BitVec 8, v = -1#8 ↔ v.toNat = 255 := fun v =>
    ⟨fun h => by rw [h]; rfl, fun h => BitVec.eq_of_toNat_eq h⟩
  have hzero : ∀ v : BitVec 8, v = 0#8 ↔ v.toNat = 0 := fun v =>
    ⟨fun h => by rw [h]; rfl, fun h => BitVec.eq_of_toNat_eq h⟩
  have hsignificand : ∀ v : BitVec 23, v = 0#23 ↔ v.toNat = 0 := fun v =>
    ⟨fun h => by rw [h]; rfl, fun h => BitVec.eq_of_toNat_eq h⟩
  unfold UnpackedFloat.unpack ofFields
  dsimp only
  by_cases h : unpackExponent b = -1#8
  · rw [if_pos h, if_pos ((hexponent _).mp h)]
    by_cases hm : unpackMantissa b = 0#23
    · rw [if_pos hm, if_pos ((hsignificand _).mp hm)]
    · rw [if_neg hm, if_neg (mt (hsignificand _).mpr hm)]
  · rw [if_neg h, if_neg (mt (hexponent _).mpr h)]
    by_cases h0 : unpackExponent b = 0#8
    · rw [if_pos h0, if_pos ((hzero _).mp h0)]
      by_cases hm : unpackMantissa b = 0#23
      · rw [dif_pos hm, dif_pos ((hsignificand _).mp hm)]
      · rw [dif_neg hm, dif_neg (mt (hsignificand _).mpr hm)]
        congr 1
        rw [h0]
        rfl
    · rw [if_neg h0, if_neg (mt (hzero _).mpr h0)]
      congr 1
      exact toNat_leading_append _

theorem toNat_unpackExponent (b : BitVec Format.binary32.numBits) :
    (unpackExponent b).toNat = b.toNat / 2 ^ 23 % 2 ^ 8 := by
  simp only [unpackExponent, BitVec.toNat_cast, BitVec.extractLsb_toNat, Nat.shiftRight_eq_div_pow]

@[simp] theorem unpackSign_packComponents {format : Format} {s : Sign}
    {e : BitVec format.exponentBits} {m : BitVec format.mantissaBitsWithoutImplicit} :
    unpackSign (packComponents format s e m) = s.toBitVec := by
  apply BitVec.eq_of_getLsbD_eq
  intro i hi
  obtain rfl : i = 0 := by omega
  simp [unpackSign, packComponents, BitVec.getLsbD_append, BitVec.getElem_append]

theorem ofBitVec_toBitVec (s : Sign) : Sign.ofBitVec s.toBitVec = s := by
  cases s <;> rfl

/-- Fields that are packed are unpacked. -/
theorem unpack_packComponents (s : Sign) {exponent significand : Nat} (he : exponent < 2 ^ 8)
    (hm : significand < 2 ^ 23) :
    UnpackedFloat.unpack .binary32
      (packComponents .binary32 s (BitVec.ofNat 8 exponent) (BitVec.ofNat 23 significand)) =
        ofFields s exponent significand := by
  rw [unpack_eq_ofFields, unpackExponent_packComponents, unpackMantissa_packComponents,
    unpackSign_packComponents, ofBitVec_toBitVec, BitVec.toNat_ofNat, BitVec.toNat_ofNat,
    Nat.mod_eq_of_lt he, Nat.mod_eq_of_lt hm]

theorem canonical_ofFields (s : Sign) {exponent significand : Nat} (he : exponent < 2 ^ 8)
    (hm : significand < 2 ^ 23) :
    Canonical (ofFields s exponent significand) ∧ |valueOf (ofFields s exponent significand)| < 2 ^ 128 := by
  have hzero : |(0 : ℚ)| < 2 ^ 128 := by norm_num
  unfold ofFields
  split
  · split
    · exact ⟨trivial, hzero⟩
    · exact ⟨trivial, hzero⟩
  · split
    · split
      · exact ⟨trivial, hzero⟩
      · have hc : Canonical (.finite s significand (-149) (by omega)) :=
          ⟨by omega, le_rfl, .inl rfl⟩
        exact ⟨hc, hc.abs_lt_iff.mpr (by omega)⟩
    · have hc : Canonical (.finite s (2 ^ 23 + significand) (exponent - 150) (by omega)) :=
        ⟨by omega, by omega, .inr (by omega)⟩
      exact ⟨hc, hc.abs_lt_iff.mpr (by omega)⟩

theorem isFinite_ofFields (s : Sign) (exponent significand : Nat) :
    (ofFields s exponent significand).isFinite = true ↔ exponent ≠ 255 := by
  unfold ofFields
  by_cases h : exponent = 255
  · rw [if_pos h]
    split
    · simp [UnpackedFloat.isFinite, h]
    · simp [UnpackedFloat.isFinite, h]
  · rw [if_neg h]
    split
    · split
      · simp [UnpackedFloat.isFinite, h]
      · simp [UnpackedFloat.isFinite, h]
    · simp [UnpackedFloat.isFinite, h]

/-! ## §3 — words -/

/-- Packing a canonical float in the range of the words gives its fields. -/
theorem unpack_pack {hm : 0 < m} (hc : Canonical (.finite s m e hm)) (h : e ≤ 104) :
    (Binary32.pack (.finite s m e hm)).unpack = .finite s m e hm := by
  obtain ⟨hlt, hleast, hfull⟩ := hc
  have hbias : (e + Format.binary32.exponentBias + Format.binary32.mantissaBitsWithoutImplicit).toNat
      = (e + 150).toNat := by
    show (e + 127 + 23).toNat = _
    rw [add_assoc]
    rfl
  have hbits : Format.binary32.mantissaBits = 24 := rfl
  have hsame : ∀ m' e' hm', m' = m → e' = e →
      UnpackedFloat.finite s m' e' hm' = .finite s m e hm := by
    rintro _ _ _ rfl rfl
    rfl
  unfold Binary32.pack Binary32.unpack UnpackedFloat.pack
  dsimp only
  rw [hbias, hbits, if_neg (by omega)]
  by_cases hnormal : 2 ^ 23 ≤ m
  · have hlog : m.log2 = 23 := by
      have hle := (Nat.le_log2 hm.ne').mpr hnormal
      have hgt := (Nat.log2_lt hm.ne').mpr hlt
      omega
    have hmod : BitVec.ofNat 23 m = BitVec.ofNat 23 (m - 2 ^ 23) := by
      apply BitVec.eq_of_toNat_eq
      rw [BitVec.toNat_ofNat, BitVec.toNat_ofNat]
      omega
    rw [if_pos (by rw [hlog]), hmod, unpack_packComponents s (by omega) (by omega)]
    unfold ofFields
    rw [if_neg (by omega), if_neg (by omega)]
    exact hsame _ _ _ (by omega) (by omega)
  · have hlog : m.log2 < 23 := (Nat.log2_lt hm.ne').mpr (by omega)
    obtain rfl : e = -149 := hfull.resolve_right hnormal
    rw [if_neg (by omega)]
    have hzero : BitVec.ofNat Format.binary32.exponentBits 0 = BitVec.ofNat 8 0 := rfl
    rw [hzero, unpack_packComponents s (Nat.two_pow_pos 8) (by omega)]
    unfold ofFields
    rw [if_neg (by omega), if_pos rfl, dif_neg hm.ne']

theorem unpack_pack_zero (s : Sign) : (Binary32.pack (.zero s)).unpack = .zero s := by
  cases s <;> rfl

theorem unpack_pack_infinity (s : Sign) : (Binary32.pack (.infinity s)).unpack = .infinity s := by
  cases s <;> rfl

/-- An exponent above the range of the words becomes an infinity. -/
theorem unpack_pack_large (hm : 0 < m) (h : 104 < e) :
    (Binary32.pack (.finite s m e hm)).unpack = .infinity s := by
  have hbias : (e + Format.binary32.exponentBias + Format.binary32.mantissaBitsWithoutImplicit).toNat
      = (e + 150).toNat := by
    show (e + 127 + 23).toNat = _
    rw [add_assoc]
    rfl
  have hpack : Binary32.pack (.finite s m e hm) = Binary32.pack (.infinity s) := by
    unfold Binary32.pack UnpackedFloat.pack
    dsimp only
    rw [hbias, if_pos (by omega)]
  rw [hpack, unpack_pack_infinity]

end Binary

namespace Binary32

open Binary

/-- The number that a finite word stands for. -/
def value (x : Binary32) : ℚ := valueOf x.unpack

variable {a b x : Binary32}

theorem exists_fields (x : Binary32) :
    ∃ s significand, significand < 2 ^ 23 ∧
      x.unpack = ofFields s (x.bits.toNat / 2 ^ 23 % 2 ^ 8) significand := by
  have h := unpack_eq_ofFields x.bits.toBitVec
  rw [toNat_unpackExponent] at h
  exact ⟨_, _, BitVec.isLt _, h⟩

/-- Words are unpacked to canonical floats in their range. -/
theorem canonical_unpack (x : Binary32) : Canonical x.unpack ∧ |x.value| < 2 ^ 128 := by
  obtain ⟨s, significand, hm, h⟩ := x.exists_fields
  unfold value
  rw [h]
  exact canonical_ofFields s (Nat.mod_lt _ (by decide)) hm

theorem fits_value (x : Binary32) : Fits x.value := x.canonical_unpack.1.rounds.fits

/-- A word is finite exactly where its float is. -/
theorem isFinite_iff (x : Binary32) : x.isFinite = true ↔ x.unpack.isFinite = true := by
  obtain ⟨s, significand, -, h⟩ := x.exists_fields
  have hx := x.bits.toNat_lt
  have hmask : (x.bits &&& 0x7fffffff).toNat = x.bits.toNat % 2 ^ 31 := by
    rw [UInt32.toNat_and]
    exact Nat.and_two_pow_sub_one_eq_mod _ 31
  rw [h, isFinite_ofFields]
  unfold isFinite
  rw [decide_eq_true_iff, UInt32.lt_iff_toNat_lt, hmask]
  show x.bits.toNat % 2 ^ 31 < 2139095040 ↔ _
  omega

/-- A word holds a rounded number: exactly, or as an infinity of its sign where it is too large. -/
def Holds (x : Binary32) (y : ℚ) : Prop :=
  |y| < 2 ^ 128 ∧ x.isFinite = true ∧ x.value = y ∨ 2 ^ 128 ≤ |y| ∧ x.unpack = .infinity (signOf y)

/-- **The word of a canonical float** holds its number. -/
theorem holds_pack {u : UnpackedFloat} (hc : Canonical u) (hfinite : u.isFinite = true) :
    (pack u).Holds (valueOf u) := by
  unfold Holds value
  rw [isFinite_iff]
  cases u with
  | infinity s => cases hfinite
  | notANumber => cases hfinite
  | zero s =>
    rw [unpack_pack_zero]
    exact .inl ⟨by norm_num [valueOf], rfl, rfl⟩
  | finite s m e hm =>
    by_cases he : e ≤ 104
    · rw [unpack_pack hc he]
      exact .inl ⟨hc.abs_lt_iff.mpr he, rfl, rfl⟩
    · rw [unpack_pack_large hm (not_le.mp he), signOf_valueOf]
      exact .inr ⟨not_lt.mp (mt hc.abs_lt_iff.mp he), rfl⟩

theorem Holds.isFinite_iff {y : ℚ} (h : x.Holds y) : x.isFinite = true ↔ |y| < 2 ^ 128 := by
  rcases h with ⟨hy, hfinite, -⟩ | ⟨hy, hunpack⟩
  · exact iff_of_true hfinite hy
  · refine iff_of_false ?_ (not_lt.mpr hy)
    rw [Binary32.isFinite_iff, hunpack]
    exact Bool.false_ne_true

theorem Holds.value_eq {y : ℚ} (h : x.Holds y) (hfinite : x.isFinite = true) : x.value = y := by
  rcases id h with ⟨-, -, hvalue⟩ | ⟨hy, -⟩
  · exact hvalue
  · exact absurd (h.isFinite_iff.mp hfinite) (not_lt.mpr hy)

/-- What is not finite stands for zero. -/
theorem isFinite_of_value_ne_zero (h : x.value ≠ 0) : x.isFinite = true := by
  rw [isFinite_iff]
  unfold value at h
  cases hu : x.unpack with
  | finite s m e hm => rfl
  | zero s => rfl
  | _ =>
    rw [hu] at h
    exact absurd rfl h

/-! ## §4 — comparison -/

/-- On canonical floats the exponent decides, then the significand. -/
theorem magnitude_lt_iff {s s' : Sign} {m m' : Nat} {e e' : Int} {hm : 0 < m} {hm' : 0 < m'}
    (hc : Canonical (.finite s m e hm)) (hc' : Canonical (.finite s' m' e' hm')) :
    (m : ℚ) * 2 ^ e < m' * 2 ^ e' ↔ e < e' ∨ e = e' ∧ m < m' := by
  -- a smaller exponent is a smaller number: the other significand is full
  have hexponent : ∀ {s s' : Sign} {m m' : Nat} {e e' : Int} {hm : 0 < m} {hm' : 0 < m'},
      Canonical (.finite s m e hm) → Canonical (.finite s' m' e' hm') → e < e' →
        (m : ℚ) * 2 ^ e < m' * 2 ^ e' := by
    rintro s s' m m' e e' hm hm' ⟨hlt, hleast, -⟩ ⟨-, -, hfull⟩ he
    have hm : (m : ℚ) < 2 ^ 24 := by exact_mod_cast hlt
    have hm' : (2 : ℚ) ^ 23 ≤ m' := by exact_mod_cast hfull.resolve_left (by omega)
    have hpos : (0 : ℚ) < 2 ^ e := zpow_pos two_pos e
    have hpos' : (0 : ℚ) < 2 ^ e' := zpow_pos two_pos e'
    calc (m : ℚ) * 2 ^ e < 2 ^ 24 * 2 ^ e := mul_lt_mul_of_pos_right hm hpos
      _ = 2 ^ 23 * 2 ^ (e + 1) := by rw [zpow_add_one₀ two_ne_zero]; ring
      _ ≤ 2 ^ 23 * 2 ^ e' := mul_le_mul_of_nonneg_left (zpow_mono he) (by positivity)
      _ ≤ m' * 2 ^ e' := mul_le_mul_of_nonneg_right hm' hpos'.le
  rcases lt_trichotomy e e' with he | rfl | he
  · exact iff_of_true (hexponent hc hc' he) (.inl he)
  · have hpos : (0 : ℚ) < 2 ^ e := zpow_pos two_pos e
    rw [mul_lt_mul_iff_of_pos_right hpos, Nat.cast_lt]
    omega
  · refine iff_of_false ?_ (by omega)
    have := hexponent hc' hc he
    linarith

theorem unpacked_lt_iff {u v : UnpackedFloat} (hu : Canonical u) (hv : Canonical v)
    (hufinite : u.isFinite = true) (hvfinite : v.isFinite = true) :
    UnpackedFloat.lt u v = true ↔ valueOf u < valueOf v := by
  unfold UnpackedFloat.lt
  rw [beq_iff_eq]
  cases u with
  | infinity s => cases hufinite
  | notANumber => cases hufinite
  | zero s =>
    cases v with
    | infinity s' => cases hvfinite
    | notANumber => cases hvfinite
    | zero s' => simp [UnpackedFloat.compare, valueOf]
    | finite s' m' e' hm' =>
      have hpos' : (0 : ℚ) < m' * 2 ^ e' := by positivity
      cases s' with
      | negative => simp [UnpackedFloat.compare, valueOf, factor, hpos'.le]
      | positive => simp [UnpackedFloat.compare, valueOf, factor, hpos']
  | finite s m e hm =>
    have hpos : (0 : ℚ) < m * 2 ^ e := by positivity
    cases v with
    | infinity s' => cases hvfinite
    | notANumber => cases hvfinite
    | zero s' =>
      cases s with
      | negative => simp [UnpackedFloat.compare, valueOf, factor, hpos]
      | positive => simp [UnpackedFloat.compare, valueOf, factor, hpos.le]
    | finite s' m' e' hm' =>
      have hpos' : (0 : ℚ) < m' * 2 ^ e' := by positivity
      cases s with
      | negative =>
        cases s' with
        | negative =>
          have hmagnitude := magnitude_lt_iff hv hu
          rw [eq_comm (a := e')] at hmagnitude
          simp only [UnpackedFloat.compare, valueOf, factor, neg_one_mul, neg_lt_neg_iff, hmagnitude,
            Option.some.injEq, Ordering.swap_eq_lt, Ordering.then_eq_gt, compare_gt_iff_gt,
            compare_eq_iff_eq]
        | positive =>
          have hlt : -((m : ℚ) * 2 ^ e) < m' * 2 ^ e' := by linarith
          simp [UnpackedFloat.compare, valueOf, factor, hlt]
      | positive =>
        cases s' with
        | negative =>
          have hle : -((m' : ℚ) * 2 ^ e') ≤ m * 2 ^ e := by linarith
          simp [UnpackedFloat.compare, valueOf, factor, hle]
        | positive =>
          have hmagnitude := magnitude_lt_iff hu hv
          simp only [UnpackedFloat.compare, valueOf, factor, one_mul, hmagnitude, Option.some.injEq,
            Ordering.then_eq_lt, compare_lt_iff_lt, compare_eq_iff_eq]

/-- **Comparing finite words** is comparing their numbers. -/
theorem lt_iff (ha : a.isFinite = true) (hb : b.isFinite = true) :
    lt a b = true ↔ a.value < b.value :=
  unpacked_lt_iff a.canonical_unpack.1 b.canonical_unpack.1 ((isFinite_iff a).mp ha)
    ((isFinite_iff b).mp hb)

/-- Finite words are below the positive infinity and above the negative one. -/
theorem lt_infinity (ha : a.isFinite = true) (hb : b.unpack = .infinity .positive) :
    lt a b = true := by
  rw [isFinite_iff] at ha
  unfold lt
  rw [hb]
  cases hu : a.unpack with
  | infinity s => rw [hu] at ha; cases ha
  | notANumber => rw [hu] at ha; cases ha
  | zero s => rfl
  | finite s m e hm => cases s <;> rfl

theorem infinity_lt (ha : a.unpack = .infinity .negative) (hb : b.isFinite = true) :
    lt a b = true := by
  rw [isFinite_iff] at hb
  unfold lt
  rw [ha]
  cases hu : b.unpack with
  | infinity s => rw [hu] at hb; cases hb
  | notANumber => rw [hu] at hb; cases hb
  | zero s => rfl
  | finite s m e hm => cases s <;> rfl

theorem isNaN_eq_false (h : x.isFinite = true) : x.isNaN = false := by
  unfold isFinite at h
  unfold isNaN
  rw [decide_eq_true_iff] at h
  exact decide_eq_false (UInt32.not_lt.mpr (UInt32.le_of_lt h))

end Binary32

end TexelFlow
