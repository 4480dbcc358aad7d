import TexelFlow.Proofs.Texture.Compute

/-!
# When a layout overflows

Computing a layout multiplies several times, and a product that is too large for a word is a breach. The layers
are held against the limits only behind these products, so a tensor that is far too large for the device is
not always refused for its layers. Four products decide: the positions, the channels once they are counted up,
the texels of a layer, and the elements with the channels counted up. All others are bounded by these.

## Main statements

* `compute_overflows_iff` — when computing a layout overflows.
* `exactProducts_iff` — when the arithmetic of a layout is that of numbers.
* `turned_not_exact` — a tensor that no device holds and that is not refused for its layers.
-/

namespace TexelFlow.Layout

variable {name : String} {d : Descriptor} {limits : Limits} {options : Options}

/-- **Computing a layout overflows** exactly when the positions are too many for a word, or the channels once
they are counted up, or, on limits that allow a texel, the texels of a layer or the elements with the channels
counted up. -/
theorem compute_overflows_iff : compute name d limits options = .error (.breach .overflow) ↔
    (d.dtype ≠ .string ∧ ¬ Shape.Counted d.shape.dropLast) ∨
    (Storable d ∧ (options.padChannels ∧ Size.modulus ≤ paddedChannelsOf d.shape options ∨
      1 ≤ limits.maxWidth ∧ 1 ≤ limits.maxHeight ∧ (Size.modulus ≤ areaOf (spatialOf d.shape) limits ∨
        Size.modulus ≤ spatialOf d.shape * paddedChannelsOf d.shape options))) := by
  by_cases h : Storable d
  · have hpositions : Shape.Counted d.shape.dropLast ↔ spatialOf d.shape < Size.modulus :=
      Shape.counted_iff_of_pos (Shape.pos_of_prod_pos h.spatial_pos)
    rw [h.compute_eq, hpositions, Nat.not_lt, and_iff_right h.numeric, and_iff_right h]
    by_cases hcounts : Size.modulus ≤ (laidOut d.shape limits options).spatial ∨
        options.padChannels ∧ Size.modulus ≤ (laidOut d.shape limits options).paddedChannels
    · rw [if_pos hcounts]
      exact iff_of_true rfl (hcounts.imp_right .inl)
    rw [if_neg hcounts]
    obtain ⟨hspatial, hpadded⟩ := not_or.mp hcounts
    rw [or_iff_right (show ¬ Size.modulus ≤ spatialOf d.shape from hspatial), or_iff_right
      (show ¬ (options.padChannels ∧ Size.modulus ≤ paddedChannelsOf d.shape options) from hpadded)]
    by_cases hnone : limits.maxWidth = 0 ∨ limits.maxHeight = 0
    · rw [if_pos hnone]
      exact iff_of_false nofun (by omega)
    rw [if_neg hnone]
    by_cases hlarge : Size.modulus ≤ (laidOut d.shape limits options).texelsPerLayer ∨
        Size.modulus ≤ (laidOut d.shape limits options).paddedCount
    · rw [if_pos hlarge]
      exact iff_of_true rfl ⟨by omega, by omega, hlarge⟩
    · rw [if_neg hlarge]
      refine iff_of_false ?_ fun hover => hlarge hover.2.2
      split
      · exact nofun
      · exact nofun
  · rw [or_iff_left fun hover => h hover.1]
    rcases compute_of_not_storable h name limits options with ⟨hstring, he⟩ | ⟨-, hcounted, he⟩ |
      ⟨hnumeric, hcounted, he⟩
    · rw [he]
      exact iff_of_false nofun fun hover => hover.1 hstring
    · rw [he]
      exact iff_of_false nofun fun hover => hover.2 hcounted
    · exact iff_of_true he ⟨hnumeric, hcounted⟩

/-- **The arithmetic of a layout is that of numbers.** -/
structure ExactProducts (name : String) (d : Descriptor) (limits : Limits) (options : Options) : Prop where
  /-- No product is too large for a word, whether there is a layout in the end or not. -/
  formed : compute name d limits options ≠ .error (.breach .overflow)
  /-- A layout has the positions and the elements of its tensor. -/
  counts : ∀ l, compute name d limits options = .ok l →
    l.spatial = d.shape.dropLast.prod ∧ l.elementCount = d.shape.prod
  /-- The products of a layout are words. -/
  words : ∀ l, compute name d limits options = .ok l →
    l.spatial < Size.modulus ∧ l.spatial * l.paddedChannels < Size.modulus ∧
      l.width * l.height < Size.modulus ∧ l.slices * l.layersPerSlice < Size.modulus ∧
      l.elementCount < Size.modulus
  /-- Layers that are too many are counted by a word. -/
  refused : ∀ tensor shape layers slices perSlice most,
    compute name d limits options = .error (.limit (.layers tensor shape layers slices perSlice most)) →
      layers = slices * perSlice ∧ layers < Size.modulus

/-- **The arithmetic of a layout is that of numbers** exactly when four products are words: the positions,
the channels once they are counted up, the texels of a layer, and the elements with the channels counted
up. -/
theorem exactProducts_iff : ExactProducts name d limits options ↔
    (d.dtype ≠ .string → Shape.Counted d.shape.dropLast) ∧
    (Storable d → (options.padChannels → paddedChannelsOf d.shape options < Size.modulus) ∧
      (1 ≤ limits.maxWidth → 1 ≤ limits.maxHeight → areaOf (spatialOf d.shape) limits < Size.modulus ∧
        spatialOf d.shape * paddedChannelsOf d.shape options < Size.modulus)) := by
  have hformed : compute name d limits options ≠ .error (.breach .overflow) ↔ _ :=
    not_congr compute_overflows_iff
  simp only [not_or, not_and, not_not, Nat.not_le] at hformed
  rw [← hformed]
  refine ⟨fun h => h.formed, fun h => ⟨h, ?counts, ?words, ?refused⟩⟩
  case counts =>
    intro l hl
    obtain ⟨-, -, rfl⟩ := compute_eq_ok_iff.mp hl
    exact ⟨rfl, rfl⟩
  case words =>
    intro l hl
    obtain ⟨hlaid, -, rfl⟩ := compute_eq_ok_iff.mp hl
    refine ⟨?_, hlaid.padded_lt, hlaid.area_lt, hlaid.layers_lt, hlaid.prod_lt⟩
    have hprod := hlaid.prod_lt
    rw [prod_eq] at hprod
    exact (Nat.le_mul_of_pos_right _ hlaid.channels_pos).trans_lt hprod
  case refused =>
    intro tensor shape layers slices perSlice most hrefused
    by_cases hlaid : Laid d limits options
    · rw [hlaid.compute_eq] at hrefused
      split at hrefused
      · cases hrefused
        exact ⟨rfl, hlaid.layers_lt⟩
      · cases hrefused
    · obtain ⟨e, he, hother⟩ := exists_error_of_not_laid hlaid name
      exact absurd (Except.error.inj (he.symm.trans hrefused)) (hother _ _ _ _ _ _)

/-- A hundred positions of four channels, on layers of twelve by five. -/
theorem cut_rows_exact :
    (∃ l, compute "t" ⟨[10, 10, 4], .float32⟩ ⟨12, 5, 64⟩ ⟨true, []⟩ = .ok l ∧ l.elementCount = 400) ∧
    ExactProducts "t" ⟨[10, 10, 4], .float32⟩ ⟨12, 5, 64⟩ ⟨true, []⟩ := by
  have hl : compute "t" ⟨[10, 10, 4], .float32⟩ ⟨12, 5, 64⟩ ⟨true, []⟩ =
      .ok ⟨[10, 10, 4], 400, 4, 4, 100, 1, 10, 5, 2, 1, 2, 1⟩ := by cbv
  obtain ⟨hlaid, -, -⟩ := compute_eq_ok_iff.mp hl
  refine ⟨⟨_, hl, rfl⟩, exactProducts_iff.mpr ⟨fun _ => ?_, fun _ => ⟨fun _ => by decide, fun _ _ => ?_⟩⟩⟩
  · exact Shape.counted_of_prod_pos (by decide) (by decide)
  · exact ⟨hlaid.area_lt, hlaid.padded_lt⟩

/-- The positions are one more than twice what a word holds. No layers of any device hold them, but the tensor is
not refused for its layers. -/
theorem turned_not_exact :
    compute "t" ⟨[3, 12297829382473034411, 1], .float32⟩ ⟨64, 64, 64⟩ ⟨true, []⟩ =
      .error (.breach .overflow) ∧
    [3, 12297829382473034411].prod = 2 * Size.modulus + 1 ∧
    ¬ ExactProducts "t" ⟨[3, 12297829382473034411, 1], .float32⟩ ⟨64, 64, 64⟩ ⟨true, []⟩ := by
  have hcompute : compute "t" ⟨[3, 12297829382473034411, 1], .float32⟩ ⟨64, 64, 64⟩ ⟨true, []⟩ =
      .error (.breach .overflow) := rfl
  exact ⟨hcompute, by decide, fun hexact => hexact.formed hcompute⟩

end TexelFlow.Layout
