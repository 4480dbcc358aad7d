import TexelFlow.Proofs.Binary.Arithmetic
import TexelFlow.Weight.Codec

/-!
# Values on an affine scale

A value goes through five rounded operations: its distance from the least one, that distance in steps,
the nearest whole number of steps; and back again, that number of steps, and their sum with the least
value. On the way there are half a step of error from the whole number, and a few units of the 24th bit
of the whole range from the others. The last sum is rounded to where the value itself has its last
place, or nearly so: that can move it by one such place, which a step may be smaller than.

All this is for steps that have all of their 24 bits. A range that is too small for that leaves a step
with fewer of them, or none; a range that is too large leaves an infinite step.

## Main statements

* `exists_ends` — the scale spans the values.
* `Spans.stored`, `Spans.displaced` — the number of steps, and where it leads.
* `Spans.restored_near`, `Spans.restored_le_of_uint8` — how far a value comes back from itself.
* `restores_of_scale` — values come back finite exactly if the end of the scale is, and then close.

## §1 — the ends of the values
## §2 — one value, there
## §3 — one value, back
## §4 — all values
-/

namespace TexelFlow.Weight

open Binary Binary32

/-! ## §1 — the ends of the values -/

/-- Choosing the better of two, all along a list, finds the best of all. -/
theorem foldl_choice {α : Type} {P : α → Prop} {r : α → α → Prop} {f : α → α → α}
    (hrefl : ∀ a, r a a) (htrans : ∀ a b c, r a b → r b c → r a c)
    (hf : ∀ a b, P a → P b → f a b = a ∧ r a b ∨ f a b = b ∧ r b a) {first : α} {rest : List α}
    (h : ∀ a ∈ first :: rest, P a) :
    rest.foldl f first ∈ first :: rest ∧ ∀ a ∈ first :: rest, r (rest.foldl f first) a := by
  induction rest generalizing first with
  | nil =>
    refine ⟨List.mem_singleton.mpr rfl, fun a ha => ?_⟩
    rw [List.mem_singleton.mp ha]
    exact hrefl first
  | cons second rest ih =>
    have hfirst := h first List.mem_cons_self
    have hsecond := h second (List.mem_cons_of_mem _ List.mem_cons_self)
    have hrest : ∀ a ∈ rest, P a := fun a ha =>
      h a (List.mem_cons_of_mem _ (List.mem_cons_of_mem _ ha))
    rw [List.foldl_cons]
    rcases hf first second hfirst hsecond with ⟨hchoice, hr⟩ | ⟨hchoice, hr⟩
    · rw [hchoice]
      obtain ⟨hmem, hbest⟩ := ih (List.forall_mem_cons.mpr ⟨hfirst, hrest⟩)
      refine ⟨?_, ?_⟩
      · rcases List.mem_cons.mp hmem with hmem | hmem
        · rw [hmem]
          exact List.mem_cons_self
        · exact List.mem_cons_of_mem _ (List.mem_cons_of_mem _ hmem)
      · intro a ha
        rcases List.mem_cons.mp ha with rfl | ha
        · exact hbest _ List.mem_cons_self
        · rcases List.mem_cons.mp ha with rfl | ha
          · exact htrans _ _ _ (hbest _ List.mem_cons_self) hr
          · exact hbest a (List.mem_cons_of_mem _ ha)
    · rw [hchoice]
      obtain ⟨hmem, hbest⟩ := ih (List.forall_mem_cons.mpr ⟨hsecond, hrest⟩)
      refine ⟨List.mem_cons_of_mem _ hmem, fun a ha => ?_⟩
      rcases List.mem_cons.mp ha with rfl | ha
      · exact htrans _ _ _ (hbest _ List.mem_cons_self) hr
      · exact hbest a ha

variable {a b : Binary32} {values : List Binary32} {storage : Storage}

theorem min_choice (ha : a.isFinite = true) (hb : b.isFinite = true) :
    a.min b = a ∧ a.value ≤ b.value ∨ a.min b = b ∧ b.value ≤ a.value := by
  unfold Binary32.min
  rw [isNaN_eq_false ha, isNaN_eq_false hb]
  by_cases h : b.value < a.value
  · exact .inr ⟨if_pos ((lt_iff hb ha).mpr h), h.le⟩
  · exact .inl ⟨if_neg (mt (lt_iff hb ha).mp h), not_lt.mp h⟩

theorem max_choice (ha : a.isFinite = true) (hb : b.isFinite = true) :
    a.max b = a ∧ b.value ≤ a.value ∨ a.max b = b ∧ a.value ≤ b.value := by
  unfold Binary32.max
  rw [isNaN_eq_false ha, isNaN_eq_false hb]
  by_cases h : a.value < b.value
  · exact .inr ⟨if_pos ((lt_iff ha hb).mpr h), h.le⟩
  · exact .inl ⟨if_neg (mt (lt_iff ha hb).mp h), not_lt.mp h⟩

theorem infinity_min (hb : b.isFinite = true) : Binary32.infinity.min b = b := by
  unfold Binary32.min
  rw [isNaN_eq_false hb, lt_infinity hb rfl]
  rfl

theorem negInfinity_max (hb : b.isFinite = true) : Binary32.negInfinity.max b = b := by
  unfold Binary32.max
  rw [isNaN_eq_false hb, infinity_lt rfl hb]
  rfl

/-- **The scale spans the values** from one of them to another. -/
theorem exists_ends (hne : values ≠ []) (hfinite : ∀ v ∈ values, v.isFinite = true)
    (storage : Storage) :
    ∃ least ∈ values, ∃ greatest ∈ values,
      (∀ v ∈ values, least.value ≤ v.value ∧ v.value ≤ greatest.value) ∧
      affineScale storage values = (least,
        if Binary32.lt .zero (greatest - least) then (greatest - least) / .ofNat storage.largest
        else .one) := by
  obtain ⟨first, rest, rfl⟩ := List.exists_cons_of_ne_nil hne
  have hfirst := hfinite first List.mem_cons_self
  obtain ⟨hleast, hlow⟩ := foldl_choice (r := fun a b => a.value ≤ b.value) (fun _ => le_rfl)
    (fun _ _ _ => le_trans) (fun _ _ => min_choice) hfinite
  obtain ⟨hgreatest, hhigh⟩ := foldl_choice (r := fun a b => b.value ≤ a.value) (fun _ => le_rfl)
    (fun _ _ _ hab hbc => hbc.trans hab) (fun _ _ => max_choice) hfinite
  refine ⟨_, hleast, _, hgreatest, fun v hv => ⟨hlow v hv, hhigh v hv⟩, ?_⟩
  unfold affineScale
  rw [if_neg (by simp), List.foldl_cons, List.foldl_cons, infinity_min hfirst, negInfinity_max hfirst]

/-! ## §2 — one value, there -/

/-- A step spans finite ends, and has all of its bits. -/
structure Spans (storage : Storage) (least greatest step : Binary32) : Prop where
  /-- The storage has a scale. -/
  affine : storage ≠ .float16
  /-- The least value is a number. -/
  least_finite : least.isFinite = true
  /-- So is the greatest one, -/
  greatest_finite : greatest.isFinite = true
  /-- and the range. -/
  range_finite : (greatest - least).isFinite = true
  /-- The step is the range divided by the largest stored integer. -/
  step_eq : step = (greatest - least) / .ofNat storage.largest
  /-- It is not so small that it has lost bits. -/
  normal : 2 ^ (-126 : ℤ) ≤ step.value

/-- A finite value that lies between two others. -/
structure Between (least greatest v : Binary32) : Prop where
  /-- The value is a number. -/
  finite : v.isFinite = true
  /-- It is not below the least one. -/
  low : least.value ≤ v.value
  /-- It is not above the greatest one. -/
  high : v.value ≤ greatest.value

variable {least greatest step v : Binary32}

theorem largest_bounds (h : storage ≠ .float16) : 255 ≤ storage.largest ∧ storage.largest ≤ 65535 := by
  cases storage with
  | uint8 => decide
  | uint16 => decide
  | float16 => exact absurd rfl h

/-- The same bounds, of the number. -/
theorem largest_cast (h : storage ≠ .float16) :
    (255 : ℚ) ≤ storage.largest ∧ (storage.largest : ℚ) ≤ 65535 := by
  obtain ⟨hlow, hhigh⟩ := largest_bounds h
  exact ⟨by exact_mod_cast hlow, by exact_mod_cast hhigh⟩

/-- A significand has bits enough for it. -/
theorem largest_le (h : storage ≠ .float16) : storage.largest ≤ 2 ^ 24 :=
  (largest_bounds h).2.trans (by norm_num)

theorem largest_exact (h : storage ≠ .float16) :
    (Binary32.ofNat storage.largest).isFinite = true ∧
      (Binary32.ofNat storage.largest).value = storage.largest :=
  ofNat_exact (largest_le h)

theorem value_zero : Binary32.zero.isFinite = true ∧ Binary32.zero.value = 0 := ⟨by decide, rfl⟩

theorem value_one : Binary32.one.isFinite = true ∧ Binary32.one.value = 1 := by
  refine ⟨by decide, ?_⟩
  have h := (ofNat_exact (show 1 ≤ 2 ^ 24 by norm_num)).2
  have hone : Binary32.ofNat 1 = Binary32.one := by decide +kernel
  rw [hone, Nat.cast_one] at h
  exact h

/-- A distance in steps that is on the scale is stored as the whole number nearest to it. -/
theorem quantize_near (hstorage : storage ≠ .float16) (hfinite : ((v - least) / step).isFinite = true)
    (hlow : 0 ≤ ((v - least) / step).value)
    (hhigh : ((v - least) / step).value < storage.largest + 1 / 2) :
    |(quantize storage least step v : ℚ) - ((v - least) / step).value| ≤ 1 / 2 := by
  obtain ⟨n, hnear, hround⟩ := round_rounded hfinite
  obtain ⟨hnear₁, hnear₂⟩ := abs_le.mp hnear
  have hlargest := (largest_bounds hstorage).2
  have hn : 0 ≤ n := by
    have : (-1 : ℚ) < n := by linarith
    have : (-1 : ℤ) < n := by exact_mod_cast this
    omega
  have hn' : n ≤ storage.largest := by
    have : (n : ℚ) < (storage.largest : ℤ) + 1 := by
      push_cast
      linarith
    have : n < (storage.largest : ℤ) + 1 := by exact_mod_cast this
    omega
  have habs : |n| ≤ 2 ^ 24 := by
    rw [abs_of_nonneg hn]
    omega
  obtain ⟨hwhole, hvalue⟩ := hround.exact (fits_intCast habs) (abs_intCast_lt habs)
  obtain ⟨hend, hend'⟩ := largest_exact hstorage
  have hclamp : (((v - least) / step).round).clamp .zero (.ofNat storage.largest) =
      ((v - least) / step).round := by
    refine clamp_eq hwhole value_zero.1 hend ?_ ?_
    · rw [value_zero.2, hvalue]
      exact_mod_cast hn
    · rw [hend', hvalue]
      exact_mod_cast hn'
  have hcast : ((n.toNat : ℕ) : ℚ) = n := by
    rw [← Int.cast_natCast, Int.toNat_of_nonneg hn]
  have hquantize : quantize storage least step v = n.toNat := by
    unfold quantize
    dsimp only
    rw [hclamp]
    exact toNatUpTo_eq hwhole (hvalue.trans hcast.symm) (by omega)
  rwa [hquantize, hcast]

namespace Spans

theorem pos (h : Spans storage least greatest step) : 0 < step.value :=
  (zpow_pos two_pos _).trans_le h.normal

theorem rounded (h : Spans storage least greatest step) :
    Rounded ((greatest - least).value / storage.largest) step := by
  obtain ⟨hfinite, hvalue⟩ := largest_exact h.affine
  have hlargest : (storage.largest : ℚ) ≠ 0 := by
    have := (largest_cast h.affine).1
    positivity
  have := div_rounded h.range_finite hfinite (by rwa [hvalue])
  rwa [hvalue, ← h.step_eq] at this

theorem step_finite (h : Spans storage least greatest step) : step.isFinite = true :=
  isFinite_of_value_ne_zero h.pos.ne'

/-- The steps cover the range, but for a unit of the 24th bit. -/
theorem range_near (h : Spans storage least greatest step) :
    |storage.largest * step.value - (greatest - least).value| ≤
      storage.largest * step.value / 2 ^ 24 := by
  have hlargest : (0 : ℚ) < storage.largest := by linarith [(largest_cast h.affine).1]
  have herror := (h.rounded.rounds h.step_finite).error_le_result
  have hnormal : (2 : ℚ) ^ (-150 : ℤ) ≤ |step.value| / 2 ^ 24 := by
    rw [abs_of_pos h.pos, le_div_iff₀ (by positivity)]
    refine le_trans (le_of_eq ?_) h.normal
    norm_num
  rw [max_eq_left hnormal, abs_of_pos h.pos] at herror
  have hscaled := mul_le_mul_of_nonneg_left herror hlargest.le
  rw [← abs_of_pos hlargest, ← abs_mul, abs_of_pos hlargest, mul_sub,
    mul_div_cancel₀ _ hlargest.ne'] at hscaled
  rwa [mul_div_assoc]

theorem range_le (h : Spans storage least greatest step) :
    (greatest - least).value ≤ (1 + 1 / 2 ^ 24) * (storage.largest * step.value) := by
  have := (abs_le.mp h.range_near).1
  linarith

/-- The distance of a value from the least one. -/
theorem offset (h : Spans storage least greatest step) (hv : Between least greatest v) :
    (v - least).isFinite = true ∧ 0 ≤ (v - least).value ∧
      (v - least).value ≤ (greatest - least).value ∧
      |(v - least).value - (v.value - least.value)| ≤ (v.value - least.value) / 2 ^ 24 := by
  have hdistance : 0 ≤ v.value - least.value := sub_nonneg.mpr hv.low
  have hle : v.value - least.value ≤ greatest.value - least.value := sub_le_sub_right hv.high _
  have hrounded := sub_rounded hv.finite h.least_finite
  have hrange := sub_rounded h.greatest_finite h.least_finite
  have hzero := rounded_self value_zero.1
  rw [value_zero.2] at hzero
  have hfinite := hrounded.isFinite_of_between hzero hrange value_zero.1 h.range_finite hdistance hle
  refine ⟨hfinite, (hrounded.rounds hfinite).nonneg hdistance,
    hrounded.mono hrange hle hfinite h.range_finite, ?_⟩
  have herror := sub_error_le hv.finite h.least_finite hfinite
  rwa [abs_of_nonneg hdistance] at herror

/-- The values lie no further apart than the steps reach, and half as much again. -/
theorem width_le (h : Spans storage least greatest step) (hle : least.value ≤ greatest.value) :
    greatest.value - least.value ≤ 3 / 2 * (storage.largest * step.value) := by
  have hrange := h.range_le
  have hwhole : (0 : ℚ) ≤ storage.largest * step.value := mul_nonneg (Nat.cast_nonneg _) h.pos.le
  have herror := sub_error_le h.greatest_finite h.least_finite h.range_finite
  rw [abs_of_nonneg (show 0 ≤ greatest.value - least.value by linarith)] at herror
  have := (abs_le.mp herror).1
  linarith

/-- The distance of a value from the least one, counted in steps. -/
theorem steps (h : Spans storage least greatest step) (hv : Between least greatest v) :
    ((v - least) / step).isFinite = true ∧ 0 ≤ ((v - least) / step).value ∧
      |((v - least) / step).value - (v - least).value / step.value| ≤
        (1 + 1 / 2 ^ 24) * storage.largest / 2 ^ 24 ∧
      (v - least).value / step.value ≤ (1 + 1 / 2 ^ 24) * storage.largest := by
  obtain ⟨hoffset, hnonneg, hle, -⟩ := h.offset hv
  obtain ⟨hlow, hhigh⟩ := largest_cast h.affine
  have hpos := h.pos
  have hsteps : (v - least).value / step.value ≤ (1 + 1 / 2 ^ 24) * storage.largest := by
    rw [div_le_iff₀ hpos, mul_assoc]
    exact hle.trans h.range_le
  have hsteps' : 0 ≤ (v - least).value / step.value := div_nonneg hnonneg hpos.le
  have hrounded := div_rounded hoffset h.step_finite hpos.ne'
  have hfinite : ((v - least) / step).isFinite = true :=
    hrounded.isFinite_of_le (z := 2 ^ 17) ⟨1, 17, by norm_num, by norm_num, by norm_num⟩
      (by norm_num) (by rw [abs_of_nonneg hsteps']; linarith)
  have hrounds := hrounded.rounds hfinite
  refine ⟨hfinite, hrounds.nonneg hsteps', hrounds.error_le.trans (max_le ?_ ?_), hsteps⟩
  · rw [abs_of_nonneg hsteps']
    exact div_le_div_of_nonneg_right hsteps (by positivity)
  · rw [le_div_iff₀ (by positivity)]
    refine le_trans (show (2 : ℚ) ^ (-150 : ℤ) * 2 ^ 24 ≤ 1 by norm_num) ?_
    linarith

/-- **The number of steps** is the whole number nearest to the distance in steps. -/
theorem stored (h : Spans storage least greatest step) (hv : Between least greatest v) :
    |quantize storage least step v * step.value - (v - least).value| ≤
      step.value / 2 + (1 + 1 / 2 ^ 24) * (storage.largest * step.value) / 2 ^ 24 := by
  obtain ⟨hfinite, hnonneg, herror, hsteps⟩ := h.steps hv
  have hpos := h.pos
  have hhigh := (largest_cast h.affine).2
  obtain ⟨herror₁, herror₂⟩ := abs_le.mp herror
  have hnear := quantize_near h.affine hfinite hnonneg (by linarith)
  obtain ⟨hnear₁, hnear₂⟩ := abs_le.mp hnear
  generalize quantize storage least step v = k at hnear₁ hnear₂
  have hsplit : (k : ℚ) * step.value - (v - least).value =
      (k - (v - least).value / step.value) * step.value := by
    rw [sub_mul, div_mul_cancel₀ _ hpos.ne']
  have hbound : |(k : ℚ) - (v - least).value / step.value| ≤
      1 / 2 + (1 + 1 / 2 ^ 24) * storage.largest / 2 ^ 24 := by
    rw [abs_le]
    constructor <;> linarith
  rw [hsplit, abs_mul, abs_of_pos hpos]
  refine (mul_le_mul_of_nonneg_right hbound hpos.le).trans_eq ?_
  ring

end Spans

/-! ## §3 — one value, back -/

theorem quantize_le (storage : Storage) (least step v : Binary32) :
    quantize storage least step v ≤ storage.largest :=
  toNatUpTo_le _ _

/-- Where the end of the scale is finite, all of it is: it lies between the least value and its end. -/
theorem dequantize_finite {k n : Nat} (hk : k ≤ n) (hn : n ≤ 2 ^ 24) (hleast : least.isFinite = true)
    (hstep : step.isFinite = true) (hpos : 0 ≤ step.value)
    (htop : (dequantize step least n).isFinite = true) :
    (Binary32.ofNat k * step).isFinite = true ∧ (dequantize step least k).isFinite = true := by
  obtain ⟨hk₁, hk₂⟩ := ofNat_exact (hk.trans hn)
  obtain ⟨hn₁, hn₂⟩ := ofNat_exact hn
  have hend := isFinite_of_add htop hleast
  have hrounded := mul_rounded hk₁ hstep
  have hroundedEnd := mul_rounded hn₁ hstep
  rw [hk₂] at hrounded
  rw [hn₂] at hroundedEnd
  have hcast : (k : ℚ) ≤ n := by exact_mod_cast hk
  have hnonneg : 0 ≤ (k : ℚ) * step.value := mul_nonneg (Nat.cast_nonneg k) hpos
  have hle : (k : ℚ) * step.value ≤ n * step.value := mul_le_mul_of_nonneg_right hcast hpos
  have hzero := rounded_self value_zero.1
  rw [value_zero.2] at hzero
  have hfinite := hrounded.isFinite_of_between hzero hroundedEnd value_zero.1 hend hnonneg hle
  refine ⟨hfinite, ?_⟩
  have hlow := (hrounded.rounds hfinite).nonneg hnonneg
  have hhigh := hrounded.mono hroundedEnd hle hfinite hend
  exact (add_rounded hfinite hleast).isFinite_of_between (rounded_self hleast) (add_rounded hend hleast)
    hleast htop (le_add_of_nonneg_left hlow) (add_le_add_left hhigh _)

namespace Spans

/-- **Where the number of steps leads**: no further from the value than half a step, and some units of the
24th bit of the whole range. -/
theorem displaced (h : Spans storage least greatest step) (hv : Between least greatest v)
    (hfinite : (Binary32.ofNat (quantize storage least step v) * step).isFinite = true) :
    |(Binary32.ofNat (quantize storage least step v) * step).value + least.value - v.value| ≤
      step.value / 2 + storage.largest * step.value / 2 ^ 22 := by
  obtain ⟨-, hnonneg, hle, hoffset⟩ := h.offset hv
  have hstored := h.stored hv
  have hk := quantize_le storage least step v
  generalize quantize storage least step v = k at hfinite hstored hk ⊢
  have hpos := h.pos
  have hrange := h.range_le
  obtain ⟨hk₁, hk₂⟩ := ofNat_exact (hk.trans (largest_le h.affine))
  have hcast : (k : ℚ) ≤ storage.largest := by exact_mod_cast hk
  have hwhole : (0 : ℚ) ≤ storage.largest * step.value := mul_nonneg (Nat.cast_nonneg _) hpos.le
  have hpart : (k : ℚ) * step.value ≤ storage.largest * step.value :=
    mul_le_mul_of_nonneg_right hcast hpos.le
  have hpart' : 0 ≤ (k : ℚ) * step.value := mul_nonneg (Nat.cast_nonneg k) hpos.le
  -- the product: no steps are no error, and one step or more have all of their bits
  have hproduct : |(Binary32.ofNat k * step).value - k * step.value| ≤
      storage.largest * step.value / 2 ^ 24 := by
    have hrounds := (mul_rounded hk₁ h.step_finite).rounds hfinite
    rw [hk₂] at hrounds
    rcases Nat.eq_zero_or_pos k with rfl | hone
    · rw [Nat.cast_zero, zero_mul] at hrounds ⊢
      rw [hrounds.unique rounds_zero, sub_self, abs_zero]
      positivity
    · have hstep : step.value ≤ k * step.value :=
        le_mul_of_one_le_left hpos.le (by exact_mod_cast hone)
      refine hrounds.error_le.trans (max_le ?_ ?_)
      · rw [abs_of_nonneg hpart']
        exact div_le_div_of_nonneg_right hpart (by positivity)
      · rw [le_div_iff₀ (by positivity)]
        refine le_trans (le_of_eq ?_) (h.normal.trans (hstep.trans hpart))
        norm_num
  have hdistance : 0 ≤ v.value - least.value := sub_nonneg.mpr hv.low
  have hwidth := h.width_le (hv.low.trans hv.high)
  have hhigh := hv.high
  obtain ⟨hproduct₁, hproduct₂⟩ := abs_le.mp hproduct
  obtain ⟨hstored₁, hstored₂⟩ := abs_le.mp hstored
  obtain ⟨hoffset₁, hoffset₂⟩ := abs_le.mp hoffset
  rw [abs_le]
  constructor <;> linarith

end Spans

/-- What a value comes back as. -/
def restored (storage : Storage) (least step v : Binary32) : Binary32 :=
  dequantize step least (quantize storage least step v)

namespace Spans

/-- **A value comes back** within a step, or as its neighbour at a last place that it has bits for. -/
theorem restored_near (h : Spans storage least greatest step) (hv : Between least greatest v)
    (htop : (dequantize step least storage.largest).isFinite = true) :
    |(restored storage least step v).value - v.value| ≤ step.value ∨
      ∃ t : ℤ, |(restored storage least step v).value - v.value| = 2 ^ t ∧ 2 ^ (t + 23) ≤ |v.value| := by
  have hpos := h.pos
  obtain ⟨hsteps, hfinite⟩ := dequantize_finite (quantize_le storage least step v)
    (largest_le h.affine) h.least_finite h.step_finite hpos.le htop
  have hrounds := (add_rounded hsteps h.least_finite).rounds hfinite
  have hlargest : storage.largest * step.value ≤ 65535 * step.value :=
    mul_le_mul_of_nonneg_right (largest_cast h.affine).2 hpos.le
  rcases hrounds.near v.fits_value (h.displaced hv hsteps) with hnear | ⟨t, -, hplace, hfull⟩
  · refine .inl (hnear.trans ?_)
    linarith
  · rcases hfull with rfl | hfull
    · refine .inl (hplace.trans_le ((zpow_mono (by norm_num)).trans h.normal))
    · exact .inr ⟨t, hplace, hfull⟩

/-- A value comes back no further away than twice its displacement: to what the last sum is rounded to, that
sum is no further than to the value. -/
theorem moved_le (h : Spans storage least greatest step) (hv : Between least greatest v)
    (htop : (dequantize step least storage.largest).isFinite = true) :
    |(restored storage least step v).value - v.value| ≤
      step.value + storage.largest * step.value / 2 ^ 21 := by
  obtain ⟨hsteps, hfinite⟩ := dequantize_finite (quantize_le storage least step v)
    (largest_le h.affine) h.least_finite h.step_finite h.pos.le htop
  have hnearest := ((add_rounded hsteps h.least_finite).rounds hfinite).nearest v.fits_value
  have hdisplaced := h.displaced hv hsteps
  have htriangle := abs_sub_le (restored storage least step v).value
    ((Binary32.ofNat (quantize storage least step v) * step).value + least.value) v.value
  rw [abs_sub_comm v.value] at hnearest
  have hmoved : |(restored storage least step v).value -
      ((Binary32.ofNat (quantize storage least step v) * step).value + least.value)| ≤
      step.value / 2 + storage.largest * step.value / 2 ^ 22 := hnearest.trans hdisplaced
  linarith

/-- As a bound: a step, or one unit of the 24th bit. -/
theorem restored_le (h : Spans storage least greatest step) (hv : Between least greatest v)
    (htop : (dequantize step least storage.largest).isFinite = true) :
    |(restored storage least step v).value - v.value| ≤ max step.value (|v.value| / 2 ^ 23) := by
  rcases h.restored_near hv htop with hnear | ⟨t, hplace, hfull⟩
  · exact le_max_of_le_left hnear
  · refine le_max_of_le_right ?_
    have hsplit : (2 : ℚ) ^ (t + 23) = 2 ^ 23 * 2 ^ t := zpow_split t 23
    rw [hplace, le_div_iff₀ (by positivity), mul_comm, ← hsplit]
    exact hfull

end Spans

/-- A number of 24 bits that is near one with a high leading bit is a multiple of half its last place. -/
theorem exists_multiple_of_near {z v : ℚ} {t : ℤ} (hz : Fits z) (hv : 2 ^ (t + 23) ≤ |v|)
    (hnear : |z - v| ≤ 2 ^ (t + 21)) : ∃ n : ℤ, z = n * 2 ^ (t - 1) := by
  refine (hz.multiple_or_le (t - 1)).resolve_right ?_
  rintro ⟨-, hsmall⟩
  have hd : (0 : ℚ) < 2 ^ (t - 1) := zpow_pos two_pos _
  have h₂₄ := zpow_split (t - 1) 24
  have h₂₃ := zpow_split (t - 1) 23
  have h₂₂ := zpow_split (t - 1) 22
  rw [show t - 1 + ((24 : ℕ) : ℤ) = t + 23 by push_cast; ring] at h₂₄
  rw [show t - 1 + ((23 : ℕ) : ℤ) = t - 1 + 23 by push_cast; ring] at h₂₃
  rw [show t - 1 + ((22 : ℕ) : ℤ) = t + 21 by push_cast; ring] at h₂₂
  rw [h₂₄] at hv
  rw [h₂₃] at hsmall
  rw [h₂₂] at hnear
  have htriangle := abs_sub_abs_le_abs_sub v z
  rw [abs_sub_comm] at htriangle
  linarith

namespace Spans

/-- A step from one byte that is hardly less than a last place, on a range of whole halves of that place,
is the place itself: there are 510 halves. -/
theorem step_eq_of_halves (h : Spans .uint8 least greatest step) {t n : ℤ} (ht : -148 ≤ t)
    (hn : greatest.value - least.value = n * 2 ^ (t - 1)) (hlow : step.value < 2 ^ t)
    (hhigh : 2 ^ t ≤ (1 + 510 / 2 ^ 22) * step.value) (hle : least.value ≤ greatest.value) :
    step.value = 2 ^ t := by
  have hbyte : (Storage.uint8.largest : ℚ) = 255 := rfl
  have hd : (0 : ℚ) < 2 ^ (t - 1) := zpow_pos two_pos _
  have hhalf : (2 : ℚ) ^ t = 2 * 2 ^ (t - 1) := by
    rw [zpow_sub_one₀ two_ne_zero]
    ring
  have hwidth := h.width_le hle
  obtain ⟨hrange₁, hrange₂⟩ := abs_le.mp h.range_near
  rw [hbyte] at hwidth hrange₁ hrange₂
  have hsmall : |n| ≤ 2 ^ 24 := by
    have hbelow : (-1 : ℚ) * 2 ^ (t - 1) < n * 2 ^ (t - 1) := by linarith
    have habove : (n : ℚ) * 2 ^ (t - 1) < 766 * 2 ^ (t - 1) := by linarith
    have hbelow : (-1 : ℤ) < n := by exact_mod_cast lt_of_mul_lt_mul_right hbelow hd.le
    have habove : n < 766 := by exact_mod_cast lt_of_mul_lt_mul_right habove hd.le
    rw [abs_le]
    omega
  -- so few halves are subtracted without an error
  have hexact : (greatest - least).value = n * 2 ^ (t - 1) := by
    rw [← hn]
    exact ((sub_rounded h.greatest_finite h.least_finite).rounds h.range_finite).eq_of_fits
      ⟨n, t - 1, hn, hsmall, by omega⟩
  have hcount : n = 510 := by
    have hbelow : (509 : ℚ) * 2 ^ (t - 1) < n * 2 ^ (t - 1) := by linarith
    have habove : (n : ℚ) * 2 ^ (t - 1) < 511 * 2 ^ (t - 1) := by linarith
    have hbelow : 509 < n := by exact_mod_cast lt_of_mul_lt_mul_right hbelow hd.le
    have habove : n < 511 := by exact_mod_cast lt_of_mul_lt_mul_right habove hd.le
    omega
  have hquotient : (greatest - least).value / (Storage.uint8.largest : ℚ) = 2 ^ t := by
    rw [hexact, hcount, hbyte, hhalf]
    push_cast
    ring
  have hrounds := h.rounded.rounds h.step_finite
  rw [hquotient] at hrounds
  exact hrounds.eq_of_fits ⟨1, t, by rw [Int.cast_one, one_mul], by norm_num, by omega⟩

/-- **From one byte a value comes back** within a step. Were a step smaller than the last place that the
value is moved by, all values of so short a range would have this last place or half of it, the range
would be 510 halves, and the step the last place itself. -/
theorem restored_le_of_uint8 (h : Spans .uint8 least greatest step) (hv : Between least greatest v)
    (htop : (dequantize step least 255).isFinite = true) :
    |(restored .uint8 least step v).value - v.value| ≤ step.value := by
  rcases h.restored_near hv htop with hnear | ⟨t, hplace, hfull⟩
  · exact hnear
  · rw [hplace]
    by_contra hstep
    rw [not_le] at hstep
    have hle := hv.low.trans hv.high
    have hbyte : (Storage.uint8.largest : ℚ) = 255 := rfl
    have hmoved := h.moved_le hv htop
    rw [hplace, hbyte] at hmoved
    have hmoved : 2 ^ t ≤ (1 + 510 / 2 ^ 22) * step.value := by linarith
    have ht : (-126 : ℤ) < t := (zpow_lt_zpow_iff_right₀ one_lt_two).mp (h.normal.trans_lt hstep)
    -- the ends are as near to the value as so short a range is wide
    have hshort : (2 : ℚ) ^ (t + 21) = 2 ^ 21 * 2 ^ t := zpow_split t 21
    have hwidth := h.width_le hle
    rw [hbyte] at hwidth
    obtain ⟨i, hi⟩ := exists_multiple_of_near least.fits_value hfull (by
      rw [hshort, abs_le]
      constructor <;> linarith [hv.low, hv.high])
    obtain ⟨j, hj⟩ := exists_multiple_of_near greatest.fits_value hfull (by
      rw [hshort, abs_le]
      constructor <;> linarith [hv.low, hv.high])
    have hhalves : greatest.value - least.value = ((j - i : ℤ) : ℚ) * 2 ^ (t - 1) := by
      rw [hi, hj]
      push_cast
      ring
    exact hstep.ne (h.step_eq_of_halves (by omega) hhalves hstep hmoved hle)

end Spans

/-! ## §4 — all values -/

/-- A value comes back within a step; or from two bytes, within one unit of its 24th bit. -/
def Close (storage : Storage) (step v w : Binary32) : Prop :=
  |w.value - v.value| ≤ step.value ∨ storage ≠ .uint8 ∧ |w.value - v.value| ≤ |v.value| / 2 ^ 23

theorem Spans.restored_close (h : Spans storage least greatest step) (hv : Between least greatest v)
    (htop : (dequantize step least storage.largest).isFinite = true) :
    Close storage step v (restored storage least step v) := by
  by_cases hbyte : storage = .uint8
  · subst hbyte
    exact .inl (h.restored_le_of_uint8 hv htop)
  · exact (le_max_iff.mp (h.restored_le hv htop)).imp_right fun hplace => ⟨hbyte, hplace⟩

/-- The greatest value takes all steps. -/
theorem Spans.quantize_greatest (h : Spans storage least greatest step) (hle : least.value ≤ greatest.value) :
    quantize storage least step greatest = storage.largest := by
  have hstored := h.stored ⟨h.greatest_finite, hle, le_rfl⟩
  have hpos := h.pos
  have hlargest : storage.largest * step.value ≤ 65535 * step.value :=
    mul_le_mul_of_nonneg_right (largest_cast h.affine).2 hpos.le
  obtain ⟨hrange₁, hrange₂⟩ := abs_le.mp h.range_near
  obtain ⟨hstored₁, hstored₂⟩ := abs_le.mp hstored
  generalize quantize storage least step greatest = k at hstored₁ hstored₂ ⊢
  have hlow : ((storage.largest : ℚ) - 1) * step.value < k * step.value := by linarith
  have hhigh : (k : ℚ) * step.value < (storage.largest + 1) * step.value := by linarith
  have hlow := lt_of_mul_lt_mul_right hlow hpos.le
  have hhigh := lt_of_mul_lt_mul_right hhigh hpos.le
  have hlow : storage.largest < k + 1 := by
    have : (storage.largest : ℚ) < k + 1 := by linarith
    exact_mod_cast this
  have hhigh : k < storage.largest + 1 := by exact_mod_cast hhigh
  omega

/-- A small step does not lead out of the numbers. -/
theorem top_finite_of_small (hstorage : storage ≠ .float16) (hleast : least.isFinite = true)
    (hstep : step.isFinite = true) (hpos : 0 ≤ step.value) (hsmall : step.value ≤ 1) :
    (dequantize step least storage.largest).isFinite = true := by
  obtain ⟨hlargest, hvalue⟩ := largest_exact hstorage
  have hbound := (largest_cast hstorage).2
  have hrounded := mul_rounded hlargest hstep
  rw [hvalue] at hrounded
  have hnonneg : 0 ≤ (storage.largest : ℚ) * step.value := mul_nonneg (Nat.cast_nonneg _) hpos
  have hle : (storage.largest : ℚ) * step.value ≤ 2 ^ 16 := by
    have := mul_le_mul hbound hsmall hpos (by norm_num)
    linarith
  have hfits : Fits (2 ^ 16) := ⟨1, 16, by norm_num, by norm_num, by norm_num⟩
  have hfinite := hrounded.isFinite_of_le hfits (by norm_num) (by rwa [abs_of_nonneg hnonneg])
  have hrounds := hrounded.rounds hfinite
  refine add_isFinite_of_small hfinite hleast ?_
  rw [abs_of_nonneg (hrounds.nonneg hnonneg)]
  exact (hrounds.le_of_le hfits hle).trans (by norm_num)

/-- Values that are all the same come back as themselves. -/
theorem restored_of_flat (hstorage : storage ≠ .float16) (hleast : least.isFinite = true)
    (hv : v.isFinite = true) (hsame : v.value = least.value) :
    (restored storage least .one v).isFinite = true ∧ (restored storage least .one v).value = v.value := by
  obtain ⟨hone, hone'⟩ := value_one
  have hzero : |(0 : ℚ)| < 2 ^ 128 := by norm_num
  have hoffset := sub_rounded hv hleast
  rw [hsame, sub_self] at hoffset
  obtain ⟨hoffset, hoffset'⟩ := hoffset.exact fits_zero hzero
  have hsteps := div_rounded hoffset hone (by rw [hone']; norm_num)
  rw [hoffset', zero_div] at hsteps
  obtain ⟨hsteps, hsteps'⟩ := hsteps.exact fits_zero hzero
  have hquantize : quantize storage least .one v = 0 := by
    have hnear := quantize_near hstorage hsteps hsteps'.ge (by rw [hsteps']; positivity)
    rw [hsteps', sub_zero, Nat.abs_cast] at hnear
    have : (quantize storage least .one v : ℚ) < 1 := hnear.trans_lt (by norm_num)
    exact Nat.lt_one_iff.mp (by exact_mod_cast this)
  unfold restored dequantize
  rw [hquantize]
  obtain ⟨hnone, hnone'⟩ := ofNat_exact (show 0 ≤ 2 ^ 24 by norm_num)
  have hproduct := mul_rounded hnone hone
  rw [hnone', Nat.cast_zero, zero_mul] at hproduct
  obtain ⟨hproduct, hproduct'⟩ := hproduct.exact fits_zero hzero
  have hsum := add_rounded hproduct hleast
  rw [hproduct', zero_add] at hsum
  obtain ⟨hsum, hsum'⟩ := hsum.exact least.fits_value least.canonical_unpack.2
  exact ⟨hsum, hsum'.trans hsame.symm⟩

/-- **The scale of finite values** has no step in use, an infinite one, or the range in equal parts. -/
theorem scale_cases (hstorage : storage ≠ .float16) (hne : values ≠ [])
    (hfinite : ∀ v ∈ values, v.isFinite = true) :
    ∃ least ∈ values, ∃ greatest ∈ values, ∃ step, affineScale storage values = (least, step) ∧
      (∀ v ∈ values, Between least greatest v) ∧
      (step = .one ∧ greatest.value = least.value ∨ step.isFinite = false ∨
        (greatest - least).isFinite = true ∧ step = (greatest - least) / .ofNat storage.largest ∧
          step.isFinite = true ∧ 0 ≤ step.value) := by
  obtain ⟨least, hleast, greatest, hgreatest, hends, hscale⟩ := exists_ends hne hfinite storage
  have hbetween : ∀ v ∈ values, Between least greatest v := fun v hv =>
    ⟨hfinite v hv, (hends v hv).1, (hends v hv).2⟩
  refine ⟨least, hleast, greatest, hgreatest, _, hscale, hbetween, ?_⟩
  have hrounded := sub_rounded (hfinite greatest hgreatest) (hfinite least hleast)
  have hle : 0 ≤ greatest.value - least.value := sub_nonneg.mpr (hends least hleast).2
  obtain ⟨hlargest, hlargest'⟩ := largest_exact hstorage
  have hbound := (largest_cast hstorage).1
  by_cases hrange : (greatest - least).isFinite = true
  · have hrounds := hrounded.rounds hrange
    have hnonneg := hrounds.nonneg hle
    by_cases hflat : Binary32.lt .zero (greatest - least) = true
    · rw [if_pos hflat]
      refine .inr (.inr ⟨hrange, rfl, ?_⟩)
      have hstep := div_rounded hrange hlargest (by rw [hlargest']; linarith)
      rw [hlargest'] at hstep
      have hquotient : 0 ≤ (greatest - least).value / storage.largest :=
        div_nonneg hnonneg (by linarith)
      have hstepFinite := hstep.isFinite_of_le (greatest - least).fits_value
        ((le_abs_self _).trans_lt (greatest - least).canonical_unpack.2)
        (by rw [abs_of_nonneg hquotient]; exact div_le_self hnonneg (by linarith))
      exact ⟨hstepFinite, (hstep.rounds hstepFinite).nonneg hquotient⟩
    · rw [if_neg hflat]
      refine .inl ⟨rfl, ?_⟩
      -- words that differ do so by the least last place at least, so their difference is not lost
      rw [lt_iff value_zero.1 hrange, value_zero.2, not_lt] at hflat
      have herror := sub_error_le (hfinite greatest hgreatest) (hfinite least hleast) hrange
      rw [le_antisymm hflat hnonneg, zero_sub, abs_neg, abs_of_nonneg hle] at herror
      linarith
  · rw [Bool.not_eq_true] at hrange
    have hpos : 0 < greatest.value - least.value := by
      refine lt_of_le_of_ne hle fun hzero => ?_
      rw [← hzero] at hrounded
      rw [(hrounded.exact fits_zero (by norm_num)).1] at hrange
      cases hrange
    rw [if_pos (lt_infinity value_zero.1 (hrounded.unpack_of_pos hpos hrange))]
    refine .inr (.inl ?_)
    rw [← Bool.not_eq_true]
    intro hstep
    rw [isFinite_of_div hstep hlargest] at hrange
    cases hrange

/-- What finite values come back as from a scale. -/
structure Restores (storage : Storage) (step least : Binary32) (values ws : List Binary32) : Prop where
  /-- All are numbers exactly if the end of the scale is one. -/
  finite : (∀ w ∈ ws, w.isFinite = true) ↔ (dequantize step least storage.largest).isFinite = true
  /-- They are then close to the values, where the step has all of its bits. -/
  close : (dequantize step least storage.largest).isFinite = true → 2 ^ (-126 : ℤ) ≤ step.value →
    List.Forall₂ (Close storage step) values ws

/-- Each value for itself. -/
theorem restores_map
    (hfinite : (∀ v ∈ values, (restored storage least step v).isFinite = true) ↔
      (dequantize step least storage.largest).isFinite = true)
    (hclose : (dequantize step least storage.largest).isFinite = true → 2 ^ (-126 : ℤ) ≤ step.value →
      ∀ v ∈ values, Close storage step v (restored storage least step v)) :
    Restores storage step least values (values.map (restored storage least step)) := by
  refine ⟨by rwa [List.forall_mem_map], fun htop hnormal => ?_⟩
  rw [List.forall₂_map_right_iff, List.forall₂_same]
  exact hclose htop hnormal

/-- Without a step in use, nothing is lost. -/
theorem restores_of_flat (hstorage : storage ≠ .float16) (hleast : least.isFinite = true)
    (hsame : ∀ v ∈ values, v.isFinite = true ∧ v.value = least.value) :
    Restores storage .one least values (values.map (restored storage least .one)) := by
  have hback : ∀ v ∈ values, (restored storage least .one v).isFinite = true ∧
      (restored storage least .one v).value = v.value := fun v hv =>
    restored_of_flat hstorage hleast (hsame v hv).1 (hsame v hv).2
  have htop : (dequantize .one least storage.largest).isFinite = true :=
    top_finite_of_small hstorage hleast value_one.1 (by rw [value_one.2]; norm_num)
      (by rw [value_one.2])
  refine restores_map (iff_of_true (fun v hv => (hback v hv).1) htop) fun _ _ v hv => .inl ?_
  rw [(hback v hv).2, sub_self, abs_zero, value_one.2]
  exact zero_le_one

/-- With an infinite step, everything is lost. -/
theorem restores_of_wide (hne : values ≠ []) (hleast : least.isFinite = true)
    (hwide : step.isFinite = false) :
    Restores storage step least values (values.map (restored storage least step)) := by
  have hlost : ∀ k, (dequantize step least k).isFinite ≠ true := by
    intro k hk
    rw [isFinite_of_mul (isFinite_of_add hk hleast)] at hwide
    cases hwide
  obtain ⟨v, hv⟩ := List.exists_mem_of_ne_nil values hne
  exact restores_map (iff_of_false (fun hall => hlost _ (hall v hv)) (hlost _))
    fun htop => absurd htop (hlost _)

/-- With equal parts of the range, the end of the scale decides: the greatest value comes back as it, and
a step too small to have all of its bits does not lead out of the numbers. -/
theorem restores_of_parts (hstorage : storage ≠ .float16) (hleast : least ∈ values)
    (hgreatest : greatest ∈ values) (hbetween : ∀ v ∈ values, Between least greatest v)
    (hrange : (greatest - least).isFinite = true)
    (hstep : step = (greatest - least) / .ofNat storage.largest) (hfinite : step.isFinite = true)
    (hnonneg : 0 ≤ step.value) :
    Restores storage step least values (values.map (restored storage least step)) := by
  have hleast' := (hbetween _ hleast).finite
  have hspans : 2 ^ (-126 : ℤ) ≤ step.value → Spans storage least greatest step := fun hnormal =>
    ⟨hstorage, hleast', (hbetween _ hgreatest).finite, hrange, hstep, hnormal⟩
  refine restores_map ⟨fun hall => ?_, fun htop v hv => ?_⟩ fun htop hnormal v hv => ?_
  · rcases le_or_gt (2 ^ (-126 : ℤ)) step.value with hnormal | hsmall
    · have hend := hall _ hgreatest
      unfold restored at hend
      rwa [(hspans hnormal).quantize_greatest (hbetween _ hleast).high] at hend
    · exact top_finite_of_small hstorage hleast' hfinite hnonneg (hsmall.le.trans (by norm_num))
  · exact (dequantize_finite (quantize_le ..) (largest_le hstorage) hleast' hfinite hnonneg htop).2
  · exact (hspans hnormal).restored_close (hbetween v hv) htop

/-- **Values come back finite** exactly if the end of their scale is; and where the step has all of its
bits, they then come back close to themselves. -/
theorem restores_of_scale (hstorage : storage ≠ .float16) (hfinite : ∀ v ∈ values, v.isFinite = true)
    (hscale : affineScale storage values = (least, step)) :
    Restores storage step least values (values.map (restored storage least step)) := by
  by_cases hne : values = []
  · -- a scale that nothing is on
    subst hne
    obtain ⟨rfl, rfl⟩ := Prod.mk.inj hscale
    exact restores_of_flat hstorage value_zero.1 (by simp)
  · obtain ⟨least', hleast, greatest, hgreatest, step', hscale', hbetween, hcases⟩ :=
      scale_cases hstorage hne hfinite
    obtain ⟨rfl, rfl⟩ := Prod.mk.inj (hscale'.symm.trans hscale)
    rcases hcases with ⟨rfl, hflat⟩ | hwide | ⟨hrange, hstep, hstepFinite, hnonneg⟩
    · exact restores_of_flat hstorage (hfinite _ hleast) fun v hv => ⟨(hbetween v hv).finite,
        le_antisymm ((hbetween v hv).high.trans_eq hflat) (hbetween v hv).low⟩
    · exact restores_of_wide hne (hfinite _ hleast) hwide
    · exact restores_of_parts hstorage hleast hgreatest hbetween hrange hstep hstepFinite hnonneg

end TexelFlow.Weight
