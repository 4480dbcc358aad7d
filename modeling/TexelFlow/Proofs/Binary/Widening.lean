import TexelFlow.Proofs.Binary.Arithmetic
import TexelFlow.Proofs.Binary.Cast

/-!
# Widening

A word of 32 bits is widened to 64 by lengthening its significand with zeros, and narrowed again by taking
them off. Nothing is rounded either way, so a finite word comes back with the bits it had.

## Main statements

* `round_lengthen`, `round_shorten` — rounding a significand by the zeros at its end.
* `unpack_pack_full` — words of 64 bits with a full significand.
* `toBinary32_toBinary64` — a finite word comes back.

## §1 — significands that end in zeros
## §2 — words of 64 bits
## §3 — there and back
-/

namespace TexelFlow

open Float.Model (UnpackedFloat Format totalExponent)
open Float.Model.UnpackedFloat (Sign ExtendedMantissa shiftToExponent shiftToTargetExponent
  roundWithAccuracy decreaseExponent unpackExponent unpackMantissa unpackSign packComponents
  unpackExponent_packComponents unpackMantissa_packComponents)

namespace Binary

/-! ## §1 — significands that end in zeros -/

variable {format : Format} {s : Sign} {m : Nat} {e : Int}

theorem shiftLeft_pos (hm : 0 < m) (k : Nat) : 0 < m <<< k := by
  rw [Nat.shiftLeft_eq]
  exact Nat.mul_pos hm (Nat.two_pow_pos k)

theorem log2_shiftLeft (hm : 0 < m) (k : Nat) : (m <<< k).log2 = m.log2 + k := by
  rw [Nat.log2_eq_iff (shiftLeft_pos hm k).ne', Nat.shiftLeft_eq, Nat.pow_add, Nat.add_right_comm,
    Nat.pow_add]
  exact ⟨Nat.mul_le_mul_right _ (Nat.log2_self_le hm.ne'),
    Nat.mul_lt_mul_of_pos_right Nat.lt_log2_self (Nat.two_pow_pos k)⟩

/-- Zeros at the end of a significand do not move its first bit. -/
theorem totalExponent_shiftLeft (hm : 0 < m) (e : Int) (k : Nat) :
    totalExponent (m <<< k) (e - k) = totalExponent m e := by
  unfold totalExponent
  rw [log2_shiftLeft hm]
  omega

/-- Zeros are shifted out without a trace. -/
theorem shiftRight_exact (m k : Nat) :
    ExtendedMantissa.ofMantissaAndAccuracy (m <<< k) .exact >>> k = ⟨m, false, false⟩ := by
  show k.repeat ExtendedMantissa.shiftRightOne ⟨m <<< k, false, false⟩ = _
  induction k generalizing m with
  | zero => rfl
  | succ k ih =>
    rw [Nat.repeat, Nat.shiftLeft_add, ← Nat.shiftLeft_add, Nat.add_comm, Nat.shiftLeft_add, ih,
      Nat.shiftLeft_eq, Nat.pow_one]
    unfold ExtendedMantissa.shiftRightOne
    dsimp only
    rw [Nat.mul_div_cancel m Nat.two_pos, Nat.mul_mod_left]
    rfl

/-- A significand is kept where its exponent is its last place, less the zeros behind that place. -/
theorem roundWithAccuracy_exact (hm : 0 < m)
    (hplace : format.targetExponent (totalExponent m e) = e) (k : Nat) :
    roundWithAccuracy format s (m <<< k) (e - k) .exact = .finite s m e hm := by
  have hfirst : shiftToTargetExponent format (m <<< k) (e - k) .exact = (⟨m, false, false⟩, e) := by
    unfold shiftToTargetExponent shiftToExponent
    rw [totalExponent_shiftLeft hm, hplace]
    dsimp only
    rw [show (e - (e - k)).toNat = k by omega, shiftRight_exact, Int.sub_add_cancel]
  have hsecond : shiftToTargetExponent format m e .exact = (⟨m, false, false⟩, e) := by
    unfold shiftToTargetExponent shiftToExponent
    rw [hplace]
    dsimp only
    rw [show (e - e).toNat = 0 by omega]
    exact Prod.ext (shiftRight_exact m 0) (Int.add_zero e)
  have hrounded : (⟨m, false, false⟩ : ExtendedMantissa).roundedMantissa = m := rfl
  unfold roundWithAccuracy
  rw [hfirst]
  dsimp only
  rw [hrounded, hsecond]
  exact dif_neg hm.ne'

/-- **Rounding takes off** the zeros behind the last place. -/
theorem round_shorten (hm : 0 < m) (hplace : format.targetExponent (totalExponent m e) = e) (k : Nat) :
    UnpackedFloat.round format s (m <<< k) (e - k) = .finite s m e hm := by
  unfold UnpackedFloat.round decreaseExponent
  dsimp only
  rw [totalExponent_shiftLeft hm, hplace, show (e - k - e).toNat = 0 by omega, Nat.shiftLeft_zero,
    Int.natCast_zero, Int.sub_zero]
  exact roundWithAccuracy_exact hm hplace k

/-- **Rounding puts on** zeros up to the last place. -/
theorem round_lengthen (hm : 0 < m) {k : Nat}
    (hplace : format.targetExponent (totalExponent m e) = e - k) :
    UnpackedFloat.round format s m e = .finite s (m <<< k) (e - k) (shiftLeft_pos hm k) := by
  have hkept := roundWithAccuracy_exact (s := s) (shiftLeft_pos hm k)
    (by rw [totalExponent_shiftLeft hm, hplace]) 0
  rw [Nat.shiftLeft_zero, Int.natCast_zero, Int.sub_zero] at hkept
  unfold UnpackedFloat.round decreaseExponent
  dsimp only
  rw [hplace, show (e - (e - k)).toNat = k by omega]
  exact hkept

/-- The last place that 53 bits leave to a significand. -/
theorem targetExponent_wide (m : Nat) (e : Int) :
    Format.binary64.targetExponent (totalExponent m e) = max (m.log2 + 1 + e - 53) (-1074) := rfl

end Binary

/-! ## §2 — words of 64 bits -/

namespace Binary64

variable {s : Sign} {m : Nat} {e : Int}

/-- Neither the least exponent nor the greatest: a significand with a leading one. -/
theorem unpack_full (b : BitVec Format.binary64.numBits) (hpos : 0 < (unpackExponent b).toNat)
    (hones : (unpackExponent b).toNat < 2047) :
    UnpackedFloat.unpack .binary64 b =
      .finite (Sign.ofBitVec (unpackSign b)) (2 ^ 52 + (unpackMantissa b).toNat)
        ((unpackExponent b).toNat - 1075) (by omega) := by
  have hones : unpackExponent b ≠ -1#11 := fun h => by
    rw [h] at hones
    exact absurd hones (by decide)
  have hzero : unpackExponent b ≠ 0#11 := fun h => by
    rw [h] at hpos
    exact absurd hpos (by decide)
  unfold UnpackedFloat.unpack
  dsimp only
  rw [if_neg hones, if_neg hzero]
  congr 1
  exact Binary.toNat_leading_append _

/-- Packing a float with a full significand gives its fields. -/
theorem unpack_pack_full {hm : 0 < m} (hlog : m.log2 = 52) (hlow : -1074 ≤ e) (hhigh : e ≤ 971) :
    (pack (.finite s m e hm)).unpack = .finite s m e hm := by
  obtain ⟨hle, hlt⟩ := (Nat.log2_eq_iff hm.ne').mp hlog
  have hpack : UnpackedFloat.pack .binary64 (.finite s m e hm) =
      packComponents .binary64 s (BitVec.ofNat 11 (e + 1075).toNat) (BitVec.ofNat 52 m) := by
    have hbias : (e + Format.binary64.exponentBias + Format.binary64.mantissaBitsWithoutImplicit).toNat
        = (e + 1075).toNat := by
      show (e + 1023 + 52).toNat = _
      rw [add_assoc]
      rfl
    unfold UnpackedFloat.pack
    dsimp only
    rw [hbias, if_neg (by show ¬ 2 ^ 11 ≤ _; omega), if_pos (by rw [hlog]; rfl)]
  have hexponent : (BitVec.ofNat 11 (e + 1075).toNat).toNat = (e + 1075).toNat := by
    rw [BitVec.toNat_ofNat]
    omega
  have hsame : ∀ s' m' e' hm', s' = s → m' = m → e' = e →
      UnpackedFloat.finite s' m' e' hm' = .finite s m e hm := by
    rintro _ _ _ _ rfl rfl rfl
    rfl
  show UnpackedFloat.unpack .binary64 (UnpackedFloat.pack .binary64 (.finite s m e hm)) = _
  rw [hpack, unpack_full]
  case hpos =>
    rw [unpackExponent_packComponents, hexponent]
    omega
  case hones =>
    rw [unpackExponent_packComponents, hexponent]
    omega
  refine hsame _ _ _ _ ?_ ?_ ?_
  · rw [Binary.unpackSign_packComponents, Binary.ofBitVec_toBitVec]
  · rw [unpackMantissa_packComponents, BitVec.toNat_ofNat]
    show 2 ^ 52 + m % 2 ^ 52 = m
    omega
  · rw [unpackExponent_packComponents, hexponent]
    omega
theorem unpack_pack_zero (s : Sign) : (pack (.zero s)).unpack = .zero s := by
  cases s <;> rfl

/-- A word of a float that is a number is narrowed as that float. -/
theorem toBinary32_pack {u : UnpackedFloat} (h : (pack u).unpack = u) (hu : u ≠ .notANumber) :
    (pack u).toBinary32 = Binary32.nearest u := by
  have hnan : ¬ (pack u).isNaN = true := by rwa [isNaN_iff, h]
  unfold toBinary32
  rw [if_neg hnan, h]

end Binary64

/-! ## §3 — there and back -/

namespace Binary32

open Binary

variable {x : Binary32}

/-- A finite word is packed as it was unpacked. -/
theorem pack_unpack (h : x.isFinite = true) : pack x.unpack = x := by
  have hvalid : Format.binary32.Valid x.bits.toBitVec := by
    refine ⟨fun hexponent hsignificand => absurd ((isFinite_iff x).mp h) ?_⟩
    have hnan : x.unpack = .notANumber := by
      unfold unpack UnpackedFloat.unpack
      dsimp only
      rw [if_pos hexponent, if_neg hsignificand]
    rw [hnan]
    exact Bool.false_ne_true
  unfold pack unpack
  rw [UnpackedFloat.pack_unpack_of_valid hvalid]

/-- **A finite word comes back** from 64 bits as it was. -/
theorem toBinary32_toBinary64 (h : x.isFinite = true) : x.toBinary64.toBinary32 = x := by
  have hwide : x.toBinary64 = .pack (roundTo .binary64 x.unpack) := by
    unfold toBinary64
    rw [if_neg (by rw [isNaN_eq_false h]; exact Bool.false_ne_true)]
  have hfinite := (isFinite_iff x).mp h
  obtain ⟨hc, hrange⟩ := x.canonical_unpack
  have hpack := pack_unpack h
  unfold value at hrange
  rw [hwide]
  cases hx : x.unpack with
  | infinity s =>
    rw [hx] at hfinite
    cases hfinite
  | notANumber =>
    rw [hx] at hfinite
    cases hfinite
  | zero s =>
    rw [hx] at hpack
    exact (Binary64.toBinary32_pack (Binary64.unpack_pack_zero s) nofun).trans hpack
  | finite s m e hm =>
    rw [hx] at hc hrange hpack
    have hhigh := hc.abs_lt_iff.mp hrange
    obtain ⟨hlt, hlow, hfull⟩ := hc
    have hlog : m.log2 ≤ 23 := Nat.lt_succ_iff.mp ((Nat.log2_lt hm.ne').mpr hlt)
    -- the significand is lengthened by as many zeros as it is short of 53 bits
    have hplace : Format.binary64.targetExponent (totalExponent m e) = e - (52 - m.log2 : Nat) := by
      rw [targetExponent_wide]
      omega
    have hback : Format.binary32.targetExponent (totalExponent m e) = e := by
      have hfull : e = -149 ∨ 23 ≤ m.log2 := hfull.imp_right (Nat.le_log2 hm.ne').mpr
      rw [targetExponent_eq, target]
      omega
    rw [roundTo, round_lengthen hm hplace, Binary64.toBinary32_pack
      (Binary64.unpack_pack_full (by rw [log2_shiftLeft hm]; omega) (by omega) (by omega)) nofun]
    unfold nearest
    rw [roundTo, round_shorten hm hback, hpack]

end Binary32

end TexelFlow
