import TexelFlow.Texture.Layout
import TexelFlow.Proofs.Checked
import TexelFlow.Proofs.Size
import Mathlib.Tactic.Ring

/-!
# Computing a layout

Everything in a layout follows from the shape of the tensor, from the limits and from the options
(`laidOut`). Width and height come from the spatial positions and the limits alone: rows are as long as the
root of the positions, and the limits cut rows first and then their number. The options have a say in the
number of render targets, and through it in the layers of a slice.

Computing a layout is forming it with a few products that words have to hold. All but four of them are
bounded by the others, so the computation has a short normal form (`Storable.compute_eq`): a tensor that
holds numbers, and at least one, is refused where one of the four is too large for a word, where the limits
allow no texel, and where its layers are too many.

## Main statements

* `Storable.compute_eq` — what computing a layout comes to.
* `compute_eq_ok_iff` — when a layout is computed, and which.
* `floats_lt_of_compute` — a texture has room for not much more than its tensor.

## §1 — what a layout is made of
## §2 — computing
## §3 — how the fields depend on each other
## §4 — how large a texture is
-/

namespace TexelFlow.Layout

variable {name : String} {d : Descriptor} {limits : Limits} {options : Options} {l : Layout} {shape : Shape}
  {spatial : Nat}

/-! ## §1 — what a layout is made of -/

/-- The spatial positions of a shape: all axes but the last one together. -/
def spatialOf (shape : Shape) : Nat := shape.dropLast.prod

/-- The width of a texture for so many positions. -/
def widthOf (spatial : Nat) (limits : Limits) : Nat := min (Size.ceilSqrt spatial) limits.maxWidth

/-- The height of a texture for so many positions. -/
def heightOf (spatial : Nat) (limits : Limits) : Nat :=
  min (Size.divCeil spatial (widthOf spatial limits)) limits.maxHeight

/-- The texels of a layer for so many positions. -/
def areaOf (spatial : Nat) (limits : Limits) : Nat := widthOf spatial limits * heightOf spatial limits

/-- The groups of four channels of a shape. -/
def groupsOf (shape : Shape) : Nat := Size.divCeil (channelsOf shape) lanes

/-- The channels of a shape as they are counted for render targets. -/
def paddedChannelsOf (shape : Shape) (options : Options) : Nat :=
  if options.padChannels then groupsOf shape * lanes else channelsOf shape

/-- The number of render targets for a shape. -/
def targetsOf (shape : Shape) (options : Options) : Nat :=
  max (min (options.targetsFor (spatialOf shape * paddedChannelsOf shape options)) (groupsOf shape)) 1

/-- The number of layers of a slice for a shape. -/
def layersPerSliceOf (shape : Shape) (options : Options) : Nat :=
  Size.divCeil (groupsOf shape) (targetsOf shape options) * targetsOf shape options

/-- The number of slices for so many positions. -/
def slicesOf (spatial : Nat) (limits : Limits) : Nat := Size.divCeil spatial (areaOf spatial limits)

/-- **The layout of a shape**, where there is one. -/
def laidOut (shape : Shape) (limits : Limits) (options : Options) : Layout where
  shape := shape
  elementCount := shape.prod
  channels := channelsOf shape
  paddedChannels := paddedChannelsOf shape options
  spatial := spatialOf shape
  channelGroups := groupsOf shape
  width := widthOf (spatialOf shape) limits
  height := heightOf (spatialOf shape) limits
  slices := slicesOf (spatialOf shape) limits
  layersPerSlice := layersPerSliceOf shape options
  layers := slicesOf (spatialOf shape) limits * layersPerSliceOf shape options
  renderTargets := targetsOf shape options

/-- The last extent counts channels. -/
theorem channelsOf_concat (front : Shape) (channels : Nat) : channelsOf (front ++ [channels]) = channels := by
  unfold channelsOf
  rw [List.getLast?_concat, Option.getD_some]

/-- The ones in front of it count positions. -/
theorem spatialOf_concat (front : Shape) (channels : Nat) : spatialOf (front ++ [channels]) = front.prod := by
  unfold spatialOf
  rw [List.dropLast_concat]

/-- The elements of a shape are those of its positions, with each its channels. -/
theorem prod_eq (shape : Shape) : shape.prod = spatialOf shape * channelsOf shape := by
  rcases List.eq_nil_or_concat shape with rfl | ⟨front, channels, rfl⟩
  · rfl
  · rw [List.concat_eq_append, channelsOf_concat, spatialOf_concat, List.prod_append, List.prod_singleton]

theorem groupsOf_pos (h : 0 < channelsOf shape) : 0 < groupsOf shape := Size.divCeil_pos (by decide) h

/-- Counting channels up makes them no fewer. -/
theorem le_paddedChannelsOf (shape : Shape) (options : Options) :
    channelsOf shape ≤ paddedChannelsOf shape options := by
  unfold paddedChannelsOf
  split
  · exact Size.le_divCeil_mul (by decide)
  · exact Nat.le_refl _

/-- The number of render targets is held between one and the number of groups. -/
theorem targetsOf_bounds (options : Options) (h : 0 < channelsOf shape) :
    0 < targetsOf shape options ∧ targetsOf shape options ≤ groupsOf shape := by
  have hgroups := groupsOf_pos h
  unfold targetsOf
  omega

/-- **The layers of a slice** are no more than the channels: they are fewer than twice the groups, and all
groups but the last one are full. -/
theorem layersPerSliceOf_le (options : Options) (h : 0 < channelsOf shape) :
    layersPerSliceOf shape options ≤ channelsOf shape := by
  obtain ⟨hpos, hle⟩ := targetsOf_bounds options h
  have hrounded := Size.divCeil_mul_lt hpos (groupsOf_pos h)
  have hlast : groupsOf shape * lanes < channelsOf shape + lanes := Size.divCeil_mul_lt (by decide) h
  unfold layersPerSliceOf
  unfold lanes at hlast
  omega

section Extents

variable (hspatial : 0 < spatial) (hwidth : 1 ≤ limits.maxWidth)
include hspatial hwidth

theorem widthOf_pos : 0 < widthOf spatial limits := by
  have hroot := Size.ceilSqrt_pos hspatial
  unfold widthOf
  omega

variable (hheight : 1 ≤ limits.maxHeight)
include hheight

theorem heightOf_pos : 0 < heightOf spatial limits := by
  have hrows := Size.divCeil_pos (widthOf_pos hspatial hwidth) hspatial
  unfold heightOf
  omega

theorem areaOf_pos : 0 < areaOf spatial limits :=
  Nat.mul_pos (widthOf_pos hspatial hwidth) (heightOf_pos hspatial hwidth hheight)

/-- The layers of a texture are no more than the elements. -/
theorem layers_le (options : Options) (h : 0 < channelsOf shape) :
    slicesOf spatial limits * layersPerSliceOf shape options ≤ spatial * channelsOf shape :=
  Nat.mul_le_mul (Size.divCeil_le (areaOf_pos hspatial hwidth hheight)) (layersPerSliceOf_le options h)

end Extents

/-- **The products behind the count** of elements with their padding are bounded by it: a word that holds it
holds the layers of a slice, the layers and the elements. -/
theorem products_lt (hspatial : 0 < spatialOf shape) (hchannels : 0 < channelsOf shape)
    (hwidth : 1 ≤ limits.maxWidth) (hheight : 1 ≤ limits.maxHeight)
    (hcount : spatialOf shape * paddedChannelsOf shape options < Size.modulus) :
    let l := laidOut shape limits options
    l.layersPerSlice < Size.modulus ∧ l.layers < Size.modulus ∧ shape.prod < Size.modulus := by
  intro l
  have helements : l.spatial * l.channels < Size.modulus :=
    (Nat.mul_le_mul_left _ (le_paddedChannelsOf shape options)).trans_lt hcount
  have hlayers : l.layers < Size.modulus :=
    (layers_le hspatial hwidth hheight options hchannels).trans_lt helements
  have hslices : 0 < l.slices := Size.divCeil_pos (areaOf_pos hspatial hwidth hheight) hspatial
  exact ⟨(Nat.le_mul_of_pos_left _ hslices).trans_lt hlayers, hlayers, prod_eq shape ▸ helements⟩

/-! ## §2 — computing -/

/-- Tensors that are put in textures: they hold numbers, and at least one. -/
structure Storable (d : Descriptor) : Prop where
  /-- The elements are numbers. -/
  numeric : d.dtype ≠ .string
  /-- There are channels. -/
  channels_pos : 0 < channelsOf d.shape
  /-- There are positions. -/
  spatial_pos : 0 < spatialOf d.shape

/-- Every extent that is wanted is held to a limit that allows one. -/
theorem extent_eq {wanted most : Nat} (hwanted : 0 < wanted) (hmost : most ≠ 0) :
    extent wanted most = .ok (min wanted most) := by
  unfold extent Size.clamp
  rw [if_neg (by omega), Nat.max_eq_left hwanted]

theorem countChannels_eq (shape : Shape) (options : Options) :
    countChannels options (channelsOf shape) =
      if options.padChannels ∧ Size.modulus ≤ paddedChannelsOf shape options then .error (.breach .overflow)
      else .ok (paddedChannelsOf shape options) := by
  unfold countChannels paddedChannelsOf
  by_cases hpad : options.padChannels
  · rw [if_pos hpad, if_pos hpad]
    by_cases hlarge : Size.modulus ≤ groupsOf shape * lanes
    · rw [if_pos ⟨hpad, hlarge⟩]
      exact Size.fit_of_le hlarge
    · rw [if_neg (not_and_of_not_right _ hlarge)]
      exact Size.fit_of_lt (Nat.not_le.mp hlarge)
  · rw [if_neg hpad, if_neg hpad, if_neg (not_and_of_not_left _ hpad)]

/-- **Computing a layout** of a tensor that is put in textures: one of four products is too large for a word,
or the limits allow no texel, or the layers are too many, or it is the layout of its shape. -/
theorem Storable.compute_eq (h : Storable d) (name : String) (limits : Limits) (options : Options) :
    let l := laidOut d.shape limits options
    compute name d limits options =
      if Size.modulus ≤ l.spatial ∨ options.padChannels ∧ Size.modulus ≤ l.paddedChannels then
        .error (.breach .overflow)
      else if limits.maxWidth = 0 ∨ limits.maxHeight = 0 then .error (.breach .emptyRange)
      else if Size.modulus ≤ l.texelsPerLayer ∨ Size.modulus ≤ l.paddedCount then .error (.breach .overflow)
      else if limits.maxLayers < l.layers then
        .error (.limit (.layers name d.shape l.layers l.slices l.layersPerSlice limits.maxLayers))
      else .ok l := by
  intro l
  have hchannels := h.channels_pos
  have hspatial := h.spatial_pos
  unfold compute
  rw [if_neg h.numeric]
  dsimp only
  by_cases hpositions : Size.modulus ≤ l.spatial
  · have hcounted : Shape.counted d.shape.dropLast = .error (.breach .overflow) :=
      Shape.counted_eq_error_iff.mpr ⟨fun hcounted => Nat.not_lt.mpr hpositions hcounted.prod_lt, rfl⟩
    rw [if_pos (.inl hpositions), hcounted]
    rfl
  have hcounted : Shape.counted d.shape.dropLast = .ok (spatialOf d.shape) :=
    (Shape.counted_of_prod_pos hspatial (Nat.not_le.mp hpositions)).counted
  rw [Outcome.bind_of_eq_ok hcounted, if_neg (by omega), countChannels_eq]
  by_cases hpadded : options.padChannels ∧ Size.modulus ≤ paddedChannelsOf d.shape options
  · rw [if_pos hpadded, if_pos (.inr hpadded)]
    rfl
  have hcounts : ¬ (Size.modulus ≤ l.spatial ∨ options.padChannels ∧ Size.modulus ≤ l.paddedChannels) :=
    not_or.mpr ⟨hpositions, hpadded⟩
  rw [if_neg hpadded, if_neg hcounts, Outcome.bind_of_eq_ok rfl]
  by_cases hwidth : limits.maxWidth = 0
  · rw [if_pos (.inl hwidth), hwidth]
    rfl
  rw [extent_eq (Size.ceilSqrt_pos hspatial) hwidth, Outcome.bind_of_eq_ok rfl]
  change (extent (Size.divCeil _ (widthOf _ limits)) _ >>= _) = _
  by_cases hheight : limits.maxHeight = 0
  · rw [if_pos (.inr hheight), hheight]
    rfl
  have hwidth' : 1 ≤ limits.maxWidth := Nat.pos_of_ne_zero hwidth
  have hheight' : 1 ≤ limits.maxHeight := Nat.pos_of_ne_zero hheight
  rw [if_neg (not_or.mpr ⟨hwidth, hheight⟩), extent_eq (Size.divCeil_pos (widthOf_pos hspatial hwidth') hspatial) hheight,
    Outcome.bind_of_eq_ok rfl]
  change (Size.fit l.texelsPerLayer >>= _) = _
  by_cases harea : Size.modulus ≤ l.texelsPerLayer
  · rw [if_pos (.inl harea), Size.fit_of_le harea]
    rfl
  rw [Size.fit_of_lt (Nat.not_le.mp harea), Outcome.bind_of_eq_ok rfl]
  change (Size.fit l.paddedCount >>= _) = _
  by_cases hcount : Size.modulus ≤ l.paddedCount
  · rw [if_pos (.inr hcount), Size.fit_of_le hcount]
    rfl
  rw [if_neg (not_or.mpr ⟨harea, hcount⟩), Size.fit_of_lt (Nat.not_le.mp hcount), Outcome.bind_of_eq_ok rfl]
  -- no product that is left can be too large
  obtain ⟨hperSlice, hlayers, hprod⟩ := products_lt hspatial hchannels hwidth' hheight' (Nat.not_le.mp hcount)
  change (Size.fit l.layersPerSlice >>= _) = _
  rw [Size.fit_of_lt hperSlice, Outcome.bind_of_eq_ok rfl]
  change (Size.fit l.layers >>= _) = _
  rw [Size.fit_of_lt hlayers, Outcome.bind_of_eq_ok rfl]
  by_cases hmany : limits.maxLayers < l.layers
  · rw [if_pos hmany, if_pos hmany]
    rfl
  have hpos : 0 < d.shape.prod := prod_eq d.shape ▸ Nat.mul_pos hspatial hchannels
  rw [if_neg hmany, if_neg hmany, Outcome.bind_of_eq_ok (Shape.counted_of_prod_pos hpos hprod).counted]
  rfl

/-- A tensor that is put in no texture is refused for that, or for positions that no word counts. -/
theorem compute_of_not_storable (h : ¬ Storable d) (name : String) (limits : Limits) (options : Options) :
    (d.dtype = .string ∧ compute name d limits options = .error (.limit (.strings name))) ∨
    (d.dtype ≠ .string ∧ Shape.Counted d.shape.dropLast ∧
      compute name d limits options = .error (.limit (.empty name d.shape))) ∨
    (d.dtype ≠ .string ∧ ¬ Shape.Counted d.shape.dropLast ∧
      compute name d limits options = .error (.breach .overflow)) := by
  unfold compute
  by_cases hstring : d.dtype = .string
  · rw [if_pos hstring]
    exact .inl ⟨hstring, rfl⟩
  rw [if_neg hstring]
  dsimp only
  by_cases hcounted : Shape.Counted d.shape.dropLast
  · have hempty : channelsOf d.shape = 0 ∨ spatialOf d.shape = 0 := by
      by_contra hsome
      obtain ⟨hchannels, hspatial⟩ := not_or.mp hsome
      exact h ⟨hstring, Nat.pos_of_ne_zero hchannels, Nat.pos_of_ne_zero hspatial⟩
    have hcount : Shape.counted d.shape.dropLast = .ok (spatialOf d.shape) := hcounted.counted
    refine .inr (.inl ⟨hstring, hcounted, ?_⟩)
    rw [Outcome.bind_of_eq_ok hcount, if_pos hempty]
    rfl
  · refine .inr (.inr ⟨hstring, hcounted, ?_⟩)
    rw [Shape.counted_eq_error_iff.mpr ⟨hcounted, rfl⟩]
    rfl

/-- Tensors that are laid out, if only there are not too many layers. -/
structure Laid (d : Descriptor) (limits : Limits) (options : Options) : Prop extends Storable d where
  /-- The limits allow rows. -/
  width_pos : 1 ≤ limits.maxWidth
  /-- The limits allow texels in them. -/
  height_pos : 1 ≤ limits.maxHeight
  /-- A word counts the texels of a layer. -/
  area_lt : areaOf (spatialOf d.shape) limits < Size.modulus
  /-- A word counts the elements, and padding with them. -/
  padded_lt : spatialOf d.shape * paddedChannelsOf d.shape options < Size.modulus

theorem Laid.area_pos (h : Laid d limits options) : 0 < areaOf (spatialOf d.shape) limits :=
  areaOf_pos h.spatial_pos h.width_pos h.height_pos

theorem Laid.prod_lt (h : Laid d limits options) : d.shape.prod < Size.modulus :=
  (products_lt h.spatial_pos h.channels_pos h.width_pos h.height_pos h.padded_lt).2.2

/-- The layers of what is laid out are counted by a word. -/
theorem Laid.layers_lt (h : Laid d limits options) : (laidOut d.shape limits options).layers < Size.modulus :=
  (products_lt h.spatial_pos h.channels_pos h.width_pos h.height_pos h.padded_lt).2.1

/-- What is laid out is only held against the number of layers. -/
theorem Laid.compute_eq (h : Laid d limits options) (name : String) :
    let l := laidOut d.shape limits options
    compute name d limits options = if limits.maxLayers < l.layers then
        .error (.limit (.layers name d.shape l.layers l.slices l.layersPerSlice limits.maxLayers))
      else .ok l := by
  intro l
  have hspatial : l.spatial < Size.modulus :=
    (Nat.le_mul_of_pos_right _ (h.channels_pos.trans_le (le_paddedChannelsOf _ options))).trans_lt h.padded_lt
  have hpadded : l.paddedChannels < Size.modulus :=
    (Nat.le_mul_of_pos_left _ h.spatial_pos).trans_lt h.padded_lt
  have hwidth := h.width_pos
  have hheight := h.height_pos
  rw [h.toStorable.compute_eq, if_neg, if_neg (by omega), if_neg]
  · exact not_or.mpr ⟨Nat.not_le.mpr h.area_lt, Nat.not_le.mpr h.padded_lt⟩
  · exact not_or.mpr ⟨Nat.not_le.mpr hspatial, fun hlarge => Nat.not_le.mpr hpadded hlarge.2⟩

/-- What is not laid out is refused for something else than the number of its layers. -/
theorem exists_error_of_not_laid (h : ¬ Laid d limits options) (name : String) :
    ∃ e, compute name d limits options = .error e ∧
      ∀ tensor shape layers slices perSlice most,
        e ≠ .limit (.layers tensor shape layers slices perSlice most) := by
  by_cases hstorable : Storable d
  · rw [hstorable.compute_eq]
    split
    · exact ⟨_, rfl, nofun⟩
    split
    · exact ⟨_, rfl, nofun⟩
    split
    · exact ⟨_, rfl, nofun⟩
    rename_i hlimits hcounts
    obtain ⟨hwidth, hheight⟩ := not_or.mp hlimits
    obtain ⟨harea, hpadded⟩ := not_or.mp hcounts
    exact absurd ⟨hstorable, Nat.pos_of_ne_zero hwidth, Nat.pos_of_ne_zero hheight, Nat.not_le.mp harea,
      Nat.not_le.mp hpadded⟩ h
  · rcases compute_of_not_storable hstorable name limits options with ⟨-, h⟩ | ⟨-, -, h⟩ | ⟨-, -, h⟩
    · exact ⟨_, h, nofun⟩
    · exact ⟨_, h, nofun⟩
    · exact ⟨_, h, nofun⟩

/-- **A layout is computed** exactly when the tensor is laid out and its layers are not too many; it is the
layout of its shape. -/
theorem compute_eq_ok_iff : compute name d limits options = .ok l ↔
    Laid d limits options ∧ (laidOut d.shape limits options).layers ≤ limits.maxLayers ∧
      laidOut d.shape limits options = l := by
  by_cases h : Laid d limits options
  · rw [h.compute_eq, and_iff_right h]
    by_cases hmany : limits.maxLayers < (laidOut d.shape limits options).layers
    · rw [if_pos hmany]
      exact iff_of_false nofun fun hl => absurd hl.1 (Nat.not_le.mpr hmany)
    · rw [if_neg hmany, and_iff_right (Nat.not_lt.mp hmany)]
      exact ⟨Except.ok.inj, congrArg Except.ok⟩
  · obtain ⟨e, he, -⟩ := exists_error_of_not_laid h name
    rw [he]
    exact iff_of_false nofun fun hl => h hl.1

/-! ## §3 — how the fields depend on each other -/

/-- How the fields of a computed layout depend on each other and on the shape. -/
structure Computed (l : Layout) (shape : Shape) : Prop where
  /-- There are as many channels as the last extent says. -/
  channels : l.channels = channelsOf shape
  /-- There are as many positions as all others say. -/
  spatial : l.spatial = spatialOf shape
  /-- There are channels. -/
  channels_pos : 0 < l.channels
  /-- There are positions. -/
  spatial_pos : 0 < l.spatial
  /-- A layer has texels. -/
  area_pos : 0 < l.width * l.height
  /-- Channels are cut into groups. -/
  groups : l.channelGroups = Size.divCeil l.channels lanes
  /-- Positions are cut into slices. -/
  slices : l.slices = Size.divCeil l.spatial (l.width * l.height)
  /-- A draw writes some layer. -/
  targets_pos : 0 < l.renderTargets
  /-- A draw writes no more layers than there are groups. -/
  targets_le : l.renderTargets ≤ l.channelGroups
  /-- Layers of a slice are rounded up to draws. -/
  rounded : l.layersPerSlice = Size.divCeil l.channelGroups l.renderTargets * l.renderTargets
  /-- Layers are those of all slices. -/
  layers : l.layers = l.slices * l.layersPerSlice
  /-- Elements are counted by positions and channels. -/
  count : l.elementCount = l.spatial * l.channels
  /-- A word counts the elements. -/
  count_lt : l.elementCount < Size.modulus

/-- Positions and channels of a layout are those of its shape. -/
theorem Computed.prod_eq (h : l.Computed shape) : l.spatial * l.channels = shape.prod := by
  rw [h.spatial, h.channels, Layout.prod_eq]

theorem Computed.extents_le (h : l.Computed shape) :
    l.spatial ≤ l.spatial * l.channels ∧ l.channels ≤ l.spatial * l.channels :=
  ⟨Nat.le_mul_of_pos_right _ h.channels_pos, Nat.le_mul_of_pos_left _ h.spatial_pos⟩

section Computed

variable (h : compute name d limits options = .ok l)
include h

/-- **A computed layout** depends on its shape in this way. -/
theorem compute_eq_ok : l.Computed d.shape := by
  obtain ⟨hlaid, -, rfl⟩ := compute_eq_ok_iff.mp h
  obtain ⟨htargets_pos, htargets_le⟩ := targetsOf_bounds options hlaid.channels_pos
  exact {
    channels := rfl
    spatial := rfl
    channels_pos := hlaid.channels_pos
    spatial_pos := hlaid.spatial_pos
    area_pos := hlaid.area_pos
    groups := rfl
    slices := rfl
    targets_pos := htargets_pos
    targets_le := htargets_le
    rounded := rfl
    layers := rfl
    count := prod_eq d.shape
    count_lt := hlaid.prod_lt }

theorem compute_shape : l.shape = d.shape := by
  obtain ⟨-, -, rfl⟩ := compute_eq_ok_iff.mp h
  rfl

/-- The elements of a tensor that is laid out can be counted. -/
theorem counted_of_compute : d.shape.Counted := by
  have hcomputed := compute_eq_ok h
  have hpos := Nat.mul_pos hcomputed.spatial_pos hcomputed.channels_pos
  rw [hcomputed.prod_eq] at hpos
  exact Shape.counted_of_prod_pos hpos (by rw [← hcomputed.prod_eq, ← hcomputed.count]; exact hcomputed.count_lt)

/-- A computed layout keeps to the limits. -/
theorem compute_le : l.width ≤ limits.maxWidth ∧ l.height ≤ limits.maxHeight ∧ l.layers ≤ limits.maxLayers := by
  obtain ⟨-, hlayers, rfl⟩ := compute_eq_ok_iff.mp h
  exact ⟨Nat.min_le_right _ _, Nat.min_le_right _ _, hlayers⟩

end Computed

/-! ## §4 — how large a texture is -/

/-- The floats of the texture, unused lanes included: texels of a layer, lanes, and layers of all
slices. -/
def floats (l : Layout) : Nat := l.width * l.height * lanes * (l.slices * l.layersPerSlice)

section Large

variable (h : compute name d limits options = .ok l)
include h

/-- A layer has less than twice as many texels as there are positions. -/
theorem area_lt_of_compute : l.width * l.height < 2 * l.spatial := by
  obtain ⟨hlaid, -, rfl⟩ := compute_eq_ok_iff.mp h
  have hwidth : widthOf (spatialOf d.shape) limits ≤ spatialOf d.shape :=
    (Nat.min_le_left _ _).trans Size.ceilSqrt_le
  have hrows := Nat.mul_le_mul_left (widthOf (spatialOf d.shape) limits)
    (Nat.min_le_left (Size.divCeil (spatialOf d.shape) (widthOf (spatialOf d.shape) limits)) limits.maxHeight)
  have hlast := Size.divCeil_mul_lt (widthOf_pos hlaid.spatial_pos hlaid.width_pos) hlaid.spatial_pos
  rw [Nat.mul_comm] at hlast
  show widthOf _ _ * min _ _ < 2 * spatialOf d.shape
  omega

/-- A layer has no more texels in a row than there are positions, and no more rows. -/
theorem extents_le_of_compute : l.width ≤ l.spatial ∧ l.height ≤ l.spatial := by
  obtain ⟨hlaid, -, rfl⟩ := compute_eq_ok_iff.mp h
  have hpos := widthOf_pos hlaid.spatial_pos hlaid.width_pos
  exact ⟨(Nat.min_le_left _ _).trans Size.ceilSqrt_le, (Nat.min_le_left _ _).trans (Size.divCeil_le hpos)⟩

/-- All slices together have less than twice as many texels as there are positions. -/
theorem texels_lt_of_compute : l.slices * (l.width * l.height) < 2 * l.spatial := by
  have hcomputed := compute_eq_ok h
  have harea := area_lt_of_compute h
  by_cases hone : l.slices ≤ 1
  · have := Nat.mul_le_mul_right (l.width * l.height) hone
    omega
  · -- behind the first slice there are positions, so it is full
    have hslices := hcomputed.slices
    have hfull := (Size.lt_divCeil_iff (n := l.spatial) (k := 1) hcomputed.area_pos).mp (by omega)
    have hlast := Size.divCeil_mul_lt hcomputed.area_pos hcomputed.spatial_pos
    rw [← hslices] at hlast
    omega

/-- **A texture has room** for not much more than its tensor: less than twice as many texels, and in each no
more than four lanes for a channel. -/
theorem floats_lt_of_compute : l.floats < 8 * l.elementCount := by
  have hcomputed := compute_eq_ok h
  have hperSlice : l.layersPerSlice ≤ l.channels := by
    obtain ⟨hlaid, -, rfl⟩ := compute_eq_ok_iff.mp h
    exact layersPerSliceOf_le options hlaid.channels_pos
  calc l.floats = l.slices * (l.width * l.height) * (4 * l.layersPerSlice) := by
        unfold floats lanes
        ring
    _ < 2 * l.spatial * (4 * l.channels) :=
        Nat.mul_lt_mul_of_lt_of_le (texels_lt_of_compute h) (by omega)
          (Nat.mul_pos (by decide) hcomputed.channels_pos)
    _ = 8 * l.elementCount := by
        rw [hcomputed.count]
        ring

end Large

end TexelFlow.Layout
