import Mathlib
import TexelFlow.Proofs.Operator.Infer
import TexelFlow.Proofs.Size

/-!
# Windows along an axis

Along an axis, an element of a convolution looks at a window of places: as many as the kernel has, from
where the element's step begins, moved forward by the near border. Windows may lie partly before the input
or behind it, so their places are integers.

Everything here rests on two facts about a quotient rounded up: the last step starts inside the input, and
one more would not. The first also bounds every number that is formed on the way. That each of them is a word
is said by a second computation of an axis, over the integers, which has no result as soon as one number is
no word.

## Main statements

* `sameAxis_of_pos`, `validAxis_of_le` — the windows of both paddings.
* `axisChecked_same`, `axisChecked_valid` — every number formed is a word.
* `axis_sound` — all of it, for extents and steps that are not empty.
* `Geometry.axes_sound` — the same for both axes of a geometry.

## §1 — windows
## §2 — axes
## §3 — words
## §4 — soundness
-/

namespace TexelFlow.Convolution

/-! ## §1 — windows -/

/-- The places that an element of the result looks at. -/
def window (stride pad kernel output : ℕ) : Set ℤ :=
  Set.Ico ((output : ℤ) * stride - pad) ((output : ℤ) * stride - pad + kernel)

/-- The places of the input. -/
def places (input : ℕ) : Set ℤ := Set.Ico 0 (input : ℤ)

/-- **What `same` padding gives**: an element for every step that starts inside the input, with windows
that reach over both borders by equal parts or by one more behind. -/
structure SameAxis (input kernel stride out pad : ℕ) : Prop where
  /-- The steps that start inside the input. -/
  extent : out = ⌈(input : ℚ) / stride⌉₊
  /-- There is one. -/
  pos : 1 ≤ out
  /-- Every window meets the input. -/
  meets : ∀ o < out, (window stride pad kernel o ∩ places input).Nonempty
  /-- What the windows need beyond the input is split in two, and the last window stays within the part
  behind. -/
  split : ∃ behind : ℕ, ((pad + behind : ℕ) : ℤ) = max (((out : ℤ) - 1) * stride + kernel - input) 0 ∧
    (behind = pad ∨ behind = pad + 1) ∧
    ((out : ℤ) - 1) * stride - pad + kernel ≤ input + behind

/-- **What `valid` padding gives**: as many windows inside the input as there is room for. -/
structure ValidAxis (input kernel stride out : ℕ) : Prop where
  /-- Every window lies inside the input. -/
  inside : ∀ o < out, window stride 0 kernel o ⊆ places input
  /-- A further window would not. -/
  maximal : ¬ window stride 0 kernel out ⊆ places input

section Windows

variable {input kernel stride : ℕ}

/-- The last step starts inside the input. -/
theorem lastStep_lt (hinput : 1 ≤ input) (hstride : 1 ≤ stride) :
    (Size.divCeil input stride - 1) * stride < input := by
  have hpos : 0 < Size.divCeil input stride := Size.divCeil_pos hstride hinput
  exact (Size.lt_divCeil_iff hstride).mp (by omega)

/-- Steps that start inside the input, counted by a quotient of rationals. -/
theorem divCeil_eq_ceil (hinput : 1 ≤ input) (hstride : 1 ≤ stride) :
    Size.divCeil input stride = ⌈(input : ℚ) / stride⌉₊ := by
  have hpos : 0 < Size.divCeil input stride := Size.divCeil_pos hstride hinput
  have hlast := lastStep_lt hinput hstride
  have hroom : input ≤ Size.divCeil input stride * stride := Size.le_divCeil_mul hstride
  have hq : (0 : ℚ) < stride := by exact_mod_cast hstride
  symm
  rw [Nat.ceil_eq_iff (by omega), lt_div_iff₀ hq, div_le_iff₀ hq]
  exact ⟨by exact_mod_cast hlast, by exact_mod_cast hroom⟩

/-- A window inside the input ends inside it. -/
theorem window_subset_iff (hkernel : 1 ≤ kernel) {output : ℕ} :
    window stride 0 kernel output ⊆ places input ↔ output * stride + kernel ≤ input := by
  unfold window places
  constructor
  · intro h
    have hlast := h (a := (output : ℤ) * stride - (0 : ℕ) + kernel - 1) ⟨by omega, by omega⟩
    have hend := hlast.2
    push_cast at hend
    zify
    omega
  · intro h place hplace
    zify at h
    have hstart : (0 : ℤ) ≤ (output : ℤ) * stride := by positivity
    obtain ⟨hle, hlt⟩ := hplace
    push_cast at hle hlt
    exact ⟨by omega, by omega⟩

/-- **The windows of `same` padding**, for the extent and the border that an axis gives. -/
theorem sameAxis_of_pos (hinput : 1 ≤ input) (hkernel : 1 ≤ kernel) (hstride : 1 ≤ stride) :
    SameAxis input kernel stride (Size.divCeil input stride)
      (((Size.divCeil input stride - 1) * stride + kernel - input) / 2) := by
  have hextent := divCeil_eq_ceil hinput hstride
  have hpos : 0 < Size.divCeil input stride := Size.divCeil_pos hstride hinput
  have hlast := lastStep_lt hinput hstride
  have hsteps : ∀ o < Size.divCeil input stride, o * stride < input := fun o ho =>
    (Size.lt_divCeil_iff hstride).mp ho
  generalize Size.divCeil input stride = out at hextent hpos hlast hsteps
  have hcast : ((out : ℤ) - 1) * stride = ((out - 1) * stride : ℕ) := by
    rw [Nat.cast_mul, Nat.cast_sub hpos, Nat.cast_one]
  generalize htotal : (out - 1) * stride + kernel - input = total
  refine ⟨hextent, hpos, fun o ho => ?_, total - total / 2, ?_, by omega, ?_⟩
  · -- the first place of the window that is not before the input
    have hstep := hsteps o ho
    refine ⟨max 0 ((o : ℤ) * stride - (total / 2 : ℕ)), ?_, ?_⟩
    · unfold window
      zify at hstep
      have hstart : (0 : ℤ) ≤ (o : ℤ) * stride := by positivity
      exact ⟨by omega, by omega⟩
    · unfold places
      zify at hstep
      exact ⟨by omega, by omega⟩
  · rw [hcast]
    omega
  · rw [hcast]
    omega

/-- **The windows of `valid` padding**, for the extent that an axis gives. -/
theorem validAxis_of_le (hkernel : 1 ≤ kernel) (hstride : 1 ≤ stride) (hle : kernel ≤ input) :
    ValidAxis input kernel stride (Size.divCeil (input - kernel + 1) stride) := by
  have hfits : ∀ o, o < Size.divCeil (input - kernel + 1) stride ↔ o * stride + kernel ≤ input := by
    intro o
    rw [Size.lt_divCeil_iff hstride]
    omega
  refine ⟨fun o ho => (window_subset_iff hkernel).mpr ((hfits o).mp ho), fun h => ?_⟩
  exact absurd ((hfits _).mpr ((window_subset_iff hkernel).mp h)) (Nat.lt_irrefl _)

end Windows

/-! ## §2 — axes -/

section Axes

variable {input kernel stride : ℕ}

theorem axis_same_eq (node : String) (hinput : 1 ≤ input) (hstride : 1 ≤ stride)
    (hword : input + kernel < Size.modulus) :
    axis node input kernel stride .same = .ok (Size.divCeil input stride,
      ((Size.divCeil input stride - 1) * stride + kernel - input) / 2) := by
  have hpos : ¬ (input = 0 ∨ stride = 0) := by omega
  have hlast := lastStep_lt hinput hstride
  unfold axis
  rw [if_neg hpos]
  dsimp only
  rw [Size.mul, Size.fit_of_lt (by omega), Outcome.bind_of_eq_ok rfl, Size.add, Size.fit_of_lt (by omega)]
  rfl

theorem axis_valid_eq (node : String) (hinput : 1 ≤ input) (hkernel : 1 ≤ kernel) (hstride : 1 ≤ stride)
    (hword : input + kernel < Size.modulus) :
    axis node input kernel stride .valid =
      if input < kernel then .error (.shape (.kernelExtent node kernel input))
      else .ok (Size.divCeil (input - kernel + 1) stride, 0) := by
  have hpos : ¬ (input = 0 ∨ stride = 0) := by omega
  unfold axis
  rw [if_neg hpos]
  dsimp only
  by_cases hlt : input < kernel
  · rw [if_pos hlt, if_pos hlt]
  · rw [if_neg hlt, if_neg hlt, Size.add, Size.fit_of_lt (by omega)]
    rfl

end Axes

/-! ## §3 — words -/

/-- A number that a word holds. -/
def word? (x : ℤ) : Option ℕ := if 0 ≤ x ∧ x < Size.modulus then some x.toNat else none

theorem word?_eq_some {x : ℤ} {n : ℕ} (hx : x = n) (hn : n < Size.modulus) : word? x = some n := by
  unfold word?
  rw [if_pos (by omega), hx, Int.toNat_natCast]

/-- A quotient rounded up, all of whose numbers are words. -/
def divCeilChecked (n d : ℕ) : Option ℕ := do
  let quotient ← word? (n / d)
  if n % d = 0 then return quotient else word? (quotient + 1)

/-- An axis over the integers, all of whose numbers are words. The only difference that may be negative is
the one that stops at zero. -/
def axisChecked (node : String) (input kernel stride : ℕ) (padding : Padding) :
    Option (Outcome (ℕ × ℕ)) :=
  if input = 0 ∨ stride = 0 then some (.error (.shape (.emptyExtent node)))
  else
    match padding with
    | .same => do
      let out ← divCeilChecked input stride
      let before ← word? (out - 1)
      let last ← word? (before * stride)
      let reach ← word? (last + kernel)
      return .ok (out, Size.subStop reach input / 2)
    | .valid =>
      if input < kernel then some (.error (.shape (.kernelExtent node kernel input)))
      else do
        let room ← word? (input - kernel)
        let starts ← word? (room + 1)
        return .ok (← divCeilChecked starts stride, 0)

section Words

variable {input kernel stride : ℕ}

theorem divCeilChecked_eq {n d : ℕ} (hd : 1 ≤ d) (hn : n < Size.modulus) :
    divCeilChecked n d = some (Size.divCeil n d) := by
  have hle := Size.divCeil_le (n := n) hd
  unfold Size.divCeil at hle
  have hquotient : word? ((n : ℤ) / d) = some (n / d) := word?_eq_some (by norm_cast) (by omega)
  unfold divCeilChecked Size.divCeil
  rw [hquotient, Option.bind_eq_bind, Option.bind_some]
  split
  · rfl
  · rename_i hrest
    rw [if_neg hrest] at hle
    exact word?_eq_some (by push_cast; rfl) (by omega)

theorem axisChecked_same (node : String) (hinput : 1 ≤ input) (hstride : 1 ≤ stride)
    (hword : input + kernel < Size.modulus) :
    axisChecked node input kernel stride .same = some (axis node input kernel stride .same) := by
  have hpos : ¬ (input = 0 ∨ stride = 0) := by omega
  have hout : 0 < Size.divCeil input stride := Size.divCeil_pos hstride hinput
  have hlast := lastStep_lt hinput hstride
  have hle := Size.divCeil_le (n := input) hstride
  rw [axis_same_eq node hinput hstride hword]
  unfold axisChecked
  rw [if_neg hpos]
  dsimp only
  rw [divCeilChecked_eq hstride (by omega)]
  generalize Size.divCeil input stride = out at hout hlast hle
  have hbefore : word? ((out : ℤ) - 1) = some (out - 1) := word?_eq_some (by omega) (by omega)
  have hsteps : word? (((out - 1 : ℕ) : ℤ) * stride) = some ((out - 1) * stride) :=
    word?_eq_some (Int.natCast_mul _ _).symm (by omega)
  have hreach : word? ((((out - 1) * stride : ℕ) : ℤ) + kernel) = some ((out - 1) * stride + kernel) :=
    word?_eq_some (Int.natCast_add _ _).symm (by omega)
  rw [Option.bind_eq_bind, Option.bind_some, hbefore, Option.bind_some, hsteps, Option.bind_some,
    hreach, Option.bind_some]
  rfl

theorem axisChecked_valid (node : String) (hinput : 1 ≤ input) (hkernel : 1 ≤ kernel)
    (hstride : 1 ≤ stride) (hword : input + kernel < Size.modulus) :
    axisChecked node input kernel stride .valid = some (axis node input kernel stride .valid) := by
  have hpos : ¬ (input = 0 ∨ stride = 0) := by omega
  rw [axis_valid_eq node hinput hkernel hstride hword]
  unfold axisChecked
  rw [if_neg hpos]
  dsimp only
  by_cases hlt : input < kernel
  · rw [if_pos hlt, if_pos hlt]
  · have hroom : word? ((input : ℤ) - kernel) = some (input - kernel) :=
      word?_eq_some (by omega) (by omega)
    have hstarts : word? (((input - kernel : ℕ) : ℤ) + 1) = some (input - kernel + 1) :=
      word?_eq_some (by omega) (by omega)
    rw [if_neg hlt, if_neg hlt, Option.bind_eq_bind, hroom, Option.bind_some, hstarts, Option.bind_some,
      divCeilChecked_eq hstride (by omega), Option.bind_some]
    rfl

end Words

/-! ## §4 — soundness -/

section Axes

variable {input kernel stride : ℕ}

/-- **An axis is sound.** With `same` padding it always has an extent and a border, with `valid` padding
exactly when the kernel is no longer than the input; the windows are as the padding says, and no number
formed on the way is below zero or too large for a word. -/
theorem axis_sound (node : String) (hinput : 1 ≤ input) (hkernel : 1 ≤ kernel) (hstride : 1 ≤ stride)
    (hword : input + kernel < Size.modulus) :
    (∃ out pad, axis node input kernel stride .same = .ok (out, pad) ∧
      SameAxis input kernel stride out pad) ∧
    ((∃ fault, axis node input kernel stride .valid = .error fault) ↔ input < kernel) ∧
    (∀ out pad, axis node input kernel stride .valid = .ok (out, pad) →
      pad = 0 ∧ ValidAxis input kernel stride out) ∧
    ∀ padding, axisChecked node input kernel stride padding =
      some (axis node input kernel stride padding) := by
  refine ⟨⟨_, _, axis_same_eq node hinput hstride hword, sameAxis_of_pos hinput hkernel hstride⟩, ?_⟩
  rw [axis_valid_eq node hinput hkernel hstride hword]
  refine ⟨?_, fun out pad h => ?_, fun padding => ?_⟩
  · by_cases hlt : input < kernel
    · simp [hlt]
    · simp [hlt]
  · split at h
    · cases h
    · obtain ⟨rfl, rfl⟩ := Prod.mk.inj (Except.ok.inj h)
      exact ⟨rfl, validAxis_of_le hkernel hstride (by omega)⟩
  · cases padding with
    | same => exact axisChecked_same node hinput hstride hword
    | valid => exact axisChecked_valid node hinput hkernel hstride hword

/-- Two places over four by steps of three: the second window reaches over the border behind. -/
theorem odd_axis_sound : 1 ≤ 4 ∧ 1 ≤ 2 ∧ 1 ≤ 3 ∧ 4 + 2 < Size.modulus ∧
    axis "c" 4 2 3 .same = .ok (2, 0) ∧ SameAxis 4 2 3 2 0 ∧
    axisChecked "c" 4 2 3 .same = some (.ok (2, 0)) := by
  have hword : 4 + 2 < Size.modulus := by decide
  have haxis : axis "c" 4 2 3 .same = .ok (2, 0) := by decide
  obtain ⟨⟨out, pad, h, hsame⟩, -, -, hchecked⟩ :=
    axis_sound "c" (show 1 ≤ 4 by decide) (show 1 ≤ 2 by decide) (show 1 ≤ 3 by decide) hword
  obtain ⟨rfl, rfl⟩ := Prod.mk.inj (Except.ok.inj (haxis.symm.trans h))
  exact ⟨by decide, by decide, by decide, hword, haxis, hsame, (hchecked .same).trans (congrArg some haxis)⟩

end Axes

/-- **What a padding gives** along an axis. -/
def SoundAxis (padding : Padding) (input kernel stride out pad : ℕ) : Prop :=
  match padding with
  | .same => SameAxis input kernel stride out pad
  | .valid => pad = 0 ∧ ValidAxis input kernel stride out

theorem soundAxis_of_axis {node : String} {input kernel stride out pad : ℕ} {padding : Padding}
    (h : axis node input kernel stride padding = .ok (out, pad)) (hkernel : 1 ≤ kernel)
    (hword : input + kernel < Size.modulus) : SoundAxis padding input kernel stride out pad := by
  have hpos : 1 ≤ input ∧ 1 ≤ stride := by
    unfold axis at h
    split at h
    · cases h
    · omega
  obtain ⟨hinput, hstride⟩ := hpos
  cases padding with
  | same =>
    rw [axis_same_eq node hinput hstride hword] at h
    obtain ⟨rfl, rfl⟩ := Prod.mk.inj (Except.ok.inj h)
    exact sameAxis_of_pos hinput hkernel hstride
  | valid =>
    rw [axis_valid_eq node hinput hkernel hstride hword] at h
    split at h
    · cases h
    · obtain ⟨rfl, rfl⟩ := Prod.mk.inj (Except.ok.inj h)
      exact ⟨rfl, validAxis_of_le hkernel hstride (by omega)⟩

/-- **Both axes of a geometry** are sound, where its kernel has elements. -/
theorem Geometry.axes_sound {node : String} {p : Params} {input kernel : Shape} {depthwise : Bool}
    {g : Geometry} (h : resolve node p input kernel depthwise = .ok g) (hH : 1 ≤ g.kernelH)
    (hW : 1 ≤ g.kernelW) (hwordH : g.inH + g.kernelH < Size.modulus)
    (hwordW : g.inW + g.kernelW < Size.modulus) :
    SoundAxis p.padding g.inH g.kernelH g.strideH g.outH g.padTop ∧
      SoundAxis p.padding g.inW g.kernelW g.strideW g.outW g.padLeft :=
  ⟨soundAxis_of_axis (axes_of_resolve h).1 hH hwordH, soundAxis_of_axis (axes_of_resolve h).2 hW hwordW⟩

end TexelFlow.Convolution
