import TexelFlow.Proofs.Texture.Compute

/-!
# Slices that are needed

The limits allow layers of a largest width and height, and the positions of a tensor need as many slices as
layers of this size are needed to hold them. A layout does not start from the largest layer but from rows as
long as the root of the positions, and cuts the number of rows afterwards. So it comes to the slices that are
needed where the root is no shorter than the longest row, or the rows need not be cut, or cutting them costs
no slice. Limits that are no wider than high always come to one of the three; wider ones can fail all, and
then a tensor that fits one layer is sliced.

## Main statements

* `slicesOf_eq_iff` — when the layers of a texture need no more slices than the largest ones.
* `rootRowsSuffice_of_le` — limits that are no wider than high make it so.
* `slicedByRoot` — a tensor is sliced by the root of its positions.
* `row_not_slicedAsNeeded` — a tensor that fits one layer and is sliced.

## §1 — slices of largest layers
## §2 — the slices that computing comes to
## §3 — slicing by the root
-/

namespace TexelFlow.Layout

variable {spatial : Nat} {name : String} {d : Descriptor} {limits : Limits} {options : Options}

/-! ## §1 — slices of largest layers -/

/-- The slices that so many positions need on layers of the largest size. -/
def slicesNeeded (spatial : Nat) (limits : Limits) : Nat :=
  Size.divCeil spatial (limits.maxWidth * limits.maxHeight)

/-- Rows of the root of the positions lose nothing against the longest rows: they are the longest ones, or
need not be cut in number, or need no more slices once they are. -/
def RootRowsSuffice (spatial : Nat) (limits : Limits) : Prop :=
  limits.maxWidth ≤ Size.ceilSqrt spatial ∨
    Size.divCeil spatial (Size.ceilSqrt spatial) ≤ limits.maxHeight ∨
    Size.divCeil spatial (Size.ceilSqrt spatial * limits.maxHeight) = slicesNeeded spatial limits

section Largest

variable (hspatial : 0 < spatial) (hwidth : 1 ≤ limits.maxWidth) (hheight : 1 ≤ limits.maxHeight)
include hspatial hwidth hheight

/-- What fits the largest layer needs one slice of it. -/
theorem slicesNeeded_eq_one (hfits : spatial ≤ limits.maxWidth * limits.maxHeight) :
    slicesNeeded spatial limits = 1 :=
  (Size.divCeil_eq_one_iff (Nat.mul_pos hwidth hheight) hspatial).mpr hfits

/-- **No more slices than on the largest layer** are needed exactly where the rows of the root suffice. -/
theorem slicesOf_eq_iff : slicesOf spatial limits = slicesNeeded spatial limits ↔
    RootRowsSuffice spatial limits := by
  have hpos := widthOf_pos hspatial hwidth
  by_cases hrows : Size.divCeil spatial (widthOf spatial limits) ≤ limits.maxHeight
  · -- all rows are there, and one slice is enough on either layer
    have hheightOf : heightOf spatial limits = Size.divCeil spatial (widthOf spatial limits) :=
      Nat.min_eq_left hrows
    have hfits : spatial ≤ areaOf spatial limits := by
      unfold areaOf
      rw [hheightOf, Nat.mul_comm]
      exact Size.le_divCeil_mul hpos
    have hle : areaOf spatial limits ≤ limits.maxWidth * limits.maxHeight :=
      Nat.mul_le_mul (Nat.min_le_right _ _) (Nat.min_le_right _ _)
    have hone : slicesOf spatial limits = 1 :=
      (Size.divCeil_eq_one_iff (areaOf_pos hspatial hwidth hheight) hspatial).mpr hfits
    rw [hone, slicesNeeded_eq_one hspatial hwidth hheight (hfits.trans hle)]
    refine iff_of_true rfl ?_
    by_cases hroot : limits.maxWidth ≤ Size.ceilSqrt spatial
    · exact .inl hroot
    · have hwidthOf : widthOf spatial limits = Size.ceilSqrt spatial := Nat.min_eq_left (by omega)
      exact .inr (.inl (hwidthOf ▸ hrows))
  · have hheightOf : heightOf spatial limits = limits.maxHeight := Nat.min_eq_right (by omega)
    unfold slicesOf areaOf
    rw [hheightOf]
    by_cases hroot : limits.maxWidth ≤ Size.ceilSqrt spatial
    · -- the rows are the longest ones, so the layer is the largest one
      have hwidthOf : widthOf spatial limits = limits.maxWidth := Nat.min_eq_right hroot
      rw [hwidthOf]
      exact iff_of_true rfl (.inl hroot)
    · have hwidthOf : widthOf spatial limits = Size.ceilSqrt spatial := Nat.min_eq_left (by omega)
      rw [hwidthOf] at hrows ⊢
      unfold RootRowsSuffice
      rw [or_iff_right hroot, or_iff_right hrows]

end Largest

/-- **Limits that are no wider than high** leave the rows of the root long enough for every tensor. -/
theorem rootRowsSuffice_of_le (hspatial : 0 < spatial) (h : limits.maxWidth ≤ limits.maxHeight) :
    RootRowsSuffice spatial limits := by
  by_cases hroot : limits.maxWidth ≤ Size.ceilSqrt spatial
  · exact .inl hroot
  · have hrows := (Size.isLeast_divCeil (Size.ceilSqrt_pos hspatial)).2
      (show spatial ≤ Size.ceilSqrt spatial * Size.ceilSqrt spatial from Size.le_ceilSqrt_mul_self)
    exact .inr (.inl (by omega))

/-! ## §2 — the slices that computing comes to -/

/-- The slices that a layout comes to, whether there is room for its layers or not. -/
def slicesOf? : Outcome Layout → Option Nat
  | .ok l => some l.slices
  | .error (.limit (.layers _ _ _ slices _ _)) => some slices
  | .error _ => none

/-- What comes to slices is laid out, and comes to the slices of its positions. -/
theorem slicesOf?_eq_some {n : Nat} (h : slicesOf? (compute name d limits options) = some n) :
    Laid d limits options ∧ n = slicesOf (spatialOf d.shape) limits := by
  by_cases hlaid : Laid d limits options
  · refine ⟨hlaid, ?_⟩
    rw [hlaid.compute_eq] at h
    split at h
    · exact (Option.some.inj h).symm
    · exact (Option.some.inj h).symm
  · -- nothing else than the number of layers tells the slices
    obtain ⟨e, he, hother⟩ := exists_error_of_not_laid hlaid name
    rw [he] at h
    unfold slicesOf? at h
    split at h
    · rename_i heq
      cases heq
    · rename_i heq
      exact absurd (Except.error.inj heq) (hother _ _ _ _ _ _)
    · cases h

/-- Layers that are too many are those of all slices. -/
theorem refused_of_compute {tensor : String} {shape : Shape} {layers slices perSlice most : Nat}
    (h : compute name d limits options = .error (.limit (.layers tensor shape layers slices perSlice most))) :
    limits.maxLayers < slicesOf (spatialOf d.shape) limits * perSlice := by
  by_cases hlaid : Laid d limits options
  · rw [hlaid.compute_eq] at h
    split at h
    · rename_i hmany
      cases h
      exact hmany
    · cases h
  · obtain ⟨e, he, hother⟩ := exists_error_of_not_laid hlaid name
    exact absurd (Except.error.inj (he.symm.trans h)) (hother _ _ _ _ _ _)

/-! ## §3 — slicing by the root -/

/-- **A tensor is sliced as needed.** -/
structure SlicedAsNeeded (name : String) (d : Descriptor) (limits : Limits) (options : Options) : Prop where
  /-- The slices are those that are needed. -/
  slices : ∀ n, slicesOf? (compute name d limits options) = some n →
    n = slicesNeeded (spatialOf d.shape) limits
  /-- A tensor that fits one layer is in one piece. -/
  whole : spatialOf d.shape ≤ limits.maxWidth * limits.maxHeight →
    ∀ n, slicesOf? (compute name d limits options) = some n → n = 1
  /-- Layers are too many only if those of the needed slices are. -/
  refused : ∀ tensor shape layers slices perSlice most,
    compute name d limits options = .error (.limit (.layers tensor shape layers slices perSlice most)) →
      limits.maxLayers < slicesNeeded (spatialOf d.shape) limits * perSlice

/-- **A tensor is sliced by the root of its positions.** -/
structure SlicedByRoot (name : String) (d : Descriptor) (limits : Limits) (options : Options) : Prop where
  /-- The slices are those of layers whose rows are as long as the root, cut to the limits. -/
  slices : ∀ n, slicesOf? (compute name d limits options) = some n → n = slicesOf (spatialOf d.shape) limits
  /-- Layers are too many only if those of these slices are. -/
  refused : ∀ tensor shape layers slices perSlice most,
    compute name d limits options = .error (.limit (.layers tensor shape layers slices perSlice most)) →
      limits.maxLayers < slicesOf (spatialOf d.shape) limits * perSlice
  /-- Where there are slices, they are as needed exactly if rows of the root suffice. -/
  needed : (slicesOf? (compute name d limits options)).isSome →
    (SlicedAsNeeded name d limits options ↔ RootRowsSuffice (spatialOf d.shape) limits)
  /-- Limits that are no wider than high have the tensor sliced as needed. -/
  square : limits.maxWidth ≤ limits.maxHeight → SlicedAsNeeded name d limits options

/-- Rows of the root that suffice have a tensor sliced as needed. -/
theorem slicedAsNeeded_of_rows (h : Laid d limits options → RootRowsSuffice (spatialOf d.shape) limits) :
    SlicedAsNeeded name d limits options := by
  have hneeded : Laid d limits options →
      slicesOf (spatialOf d.shape) limits = slicesNeeded (spatialOf d.shape) limits :=
    fun hlaid => (slicesOf_eq_iff hlaid.spatial_pos hlaid.width_pos hlaid.height_pos).mpr (h hlaid)
  constructor
  case slices =>
    intro n hn
    obtain ⟨hlaid, rfl⟩ := slicesOf?_eq_some hn
    exact hneeded hlaid
  case whole =>
    intro hfits n hn
    obtain ⟨hlaid, rfl⟩ := slicesOf?_eq_some hn
    rw [hneeded hlaid]
    exact slicesNeeded_eq_one hlaid.spatial_pos hlaid.width_pos hlaid.height_pos hfits
  case refused =>
    intro tensor shape layers slices perSlice most hrefused
    obtain ⟨hlaid, -⟩ := slicesOf?_eq_some (n := slices) (by rw [hrefused]; rfl)
    rw [← hneeded hlaid]
    exact refused_of_compute hrefused

/-- **Slicing goes by the root**, whatever the tensor, the limits and the options. -/
theorem slicedByRoot (name : String) (d : Descriptor) (limits : Limits) (options : Options) :
    SlicedByRoot name d limits options := by
  constructor
  case slices => exact fun n hn => (slicesOf?_eq_some hn).2
  case refused => exact fun _ _ _ _ _ _ hrefused => refused_of_compute hrefused
  case needed =>
    intro hsome
    obtain ⟨n, hn⟩ := Option.isSome_iff_exists.mp hsome
    obtain ⟨hlaid, rfl⟩ := slicesOf?_eq_some hn
    refine ⟨fun hsliced => ?_, fun hrows => slicedAsNeeded_of_rows fun _ => hrows⟩
    exact (slicesOf_eq_iff hlaid.spatial_pos hlaid.width_pos hlaid.height_pos).mp (hsliced.slices _ hn)
  case square => exact fun h => slicedAsNeeded_of_rows fun hlaid => rootRowsSuffice_of_le hlaid.spatial_pos h

/-- A hundred positions on layers of twelve by five: rows of ten are shorter than the longest ones and half of
them is cut, but two slices are needed either way. -/
theorem cut_slicedAsNeeded :
    (compute "t" ⟨[10, 10, 4], .float32⟩ ⟨12, 5, 64⟩ ⟨true, []⟩).map (·.slices) = .ok 2 ∧
    SlicedAsNeeded "t" ⟨[10, 10, 4], .float32⟩ ⟨12, 5, 64⟩ ⟨true, []⟩ := by
  have hcompute : compute "t" ⟨[10, 10, 4], .float32⟩ ⟨12, 5, 64⟩ ⟨true, []⟩ =
      .ok ⟨[10, 10, 4], 400, 4, 4, 100, 1, 10, 5, 2, 1, 2, 1⟩ := by cbv
  have hspatial : spatialOf [10, 10, 4] = 100 := by decide
  have hroot : Size.ceilSqrt 100 = 10 := by decide +kernel
  have hrows : RootRowsSuffice 100 ⟨12, 5, 64⟩ := by
    refine .inr (.inr ?_)
    rw [hroot]
    rfl
  refine ⟨by rw [hcompute]; rfl, ((slicedByRoot _ _ _ _).needed ?_).mpr (hspatial ▸ hrows)⟩
  rw [hcompute]
  rfl

/-- Three positions fit a layer of three by one, but rows of two cut them in two, which is one layer too
many. -/
theorem row_not_slicedAsNeeded :
    slicesNeeded (spatialOf [3, 1]) ⟨3, 1, 1⟩ = 1 ∧
    compute "t" ⟨[3, 1], .float32⟩ ⟨3, 1, 1⟩ ⟨true, []⟩ =
      .error (.limit (.layers "t" [3, 1] 2 2 1 1)) ∧
    ¬ SlicedAsNeeded "t" ⟨[3, 1], .float32⟩ ⟨3, 1, 1⟩ ⟨true, []⟩ := by
  have hneeded : slicesNeeded (spatialOf [3, 1]) ⟨3, 1, 1⟩ = 1 := by decide
  have hcompute : compute "t" ⟨[3, 1], .float32⟩ ⟨3, 1, 1⟩ ⟨true, []⟩ =
      .error (.limit (.layers "t" [3, 1] 2 2 1 1)) := by cbv
  refine ⟨hneeded, hcompute, fun hsliced => ?_⟩
  have hmany := hsliced.refused _ _ _ _ _ _ hcompute
  rw [hneeded] at hmany
  exact absurd hmany (by decide)

end TexelFlow.Layout
