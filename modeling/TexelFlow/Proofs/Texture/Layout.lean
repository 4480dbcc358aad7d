import TexelFlow.Proofs.Texture.Compute

/-!
# The places of elements

The fields of a computed layout are related by arithmetic on numbers, and a few of these relations are all
that places rest on (`Exact`): the place of an element and the element of a place determine each other. The
words of the texture are its floats wherever a word can count them.

## Main statements

* `Computed.exact` — what places rest on holds of every computed layout.
* `Exact.capacity_eq_ok_iff` — when the words of a texture are counted, and as how many.
* `Exact.offset_lt`, `Exact.home_offset`, `Exact.offset_home` — elements and their places.

## §1 — what places rest on
## §2 — places
-/

namespace TexelFlow.Layout

variable {l : Layout} {shape : Shape}

/-! ## §1 — what places rest on -/

/-- What the places of elements rest on. -/
structure Exact (l : Layout) : Prop where
  /-- There are channels. -/
  channels_pos : 0 < l.channels
  /-- A layer has texels. -/
  area_pos : 0 < l.width * l.height
  /-- Every channel has a group. -/
  channels_le : l.channels ≤ l.channelGroups * lanes
  /-- Every group has a layer. -/
  groups_le : l.channelGroups ≤ l.layersPerSlice
  /-- A draw writes some layer. -/
  targets_pos : 0 < l.renderTargets
  /-- The layers of a slice are whole draws. -/
  targets_dvd : l.renderTargets ∣ l.layersPerSlice
  /-- A position belongs to a slice exactly when the slice is counted. -/
  lt_slices : ∀ k, k < l.slices ↔ k * (l.width * l.height) < l.spatial
  /-- The layers are those of all slices. -/
  layers : l.layers = l.slices * l.layersPerSlice
  /-- There are elements. -/
  spatial_pos : 0 < l.spatial
  /-- The elements are counted by positions and channels. -/
  count : l.elementCount = l.spatial * l.channels

/-- **A computed layout** has places for its elements. -/
theorem Computed.exact (h : l.Computed shape) : l.Exact := by
  constructor
  case channels_pos => exact h.channels_pos
  case area_pos => exact h.area_pos
  case channels_le =>
    rw [h.groups]
    exact Size.le_divCeil_mul (by decide)
  case groups_le =>
    rw [h.rounded]
    exact Size.le_divCeil_mul h.targets_pos
  case targets_pos => exact h.targets_pos
  case targets_dvd =>
    rw [h.rounded]
    exact Nat.dvd_mul_left _ _
  case lt_slices =>
    intro k
    rw [h.slices]
    exact Size.lt_divCeil_iff h.area_pos
  case layers => exact h.layers
  case spatial_pos => exact h.spatial_pos
  case count => exact h.count

section Exact

variable (h : l.Exact)
include h

theorem Exact.floats_eq : l.floats = l.layers * (l.width * l.height) * lanes := by
  rw [h.layers]
  unfold floats
  ring

/-- Every slice has layers. -/
theorem Exact.layersPerSlice_pos : 0 < l.layersPerSlice := by
  have hchannels := h.channels_pos
  have hchannels_le := h.channels_le
  have hgroups_le := h.groups_le
  unfold lanes at hchannels_le
  omega

theorem Exact.layers_pos : 0 < l.layers := by
  rw [h.layers]
  refine Nat.mul_pos ((h.lt_slices 0).mpr ?_) h.layersPerSlice_pos
  rw [Nat.zero_mul]
  exact h.spatial_pos

/-- **The words of a texture are its floats**, and they are counted exactly where a word can. -/
theorem Exact.capacity_eq_ok_iff {n : Nat} :
    l.capacity = .ok n ↔ l.floats < Size.modulus ∧ l.floats = n := by
  have hfloats : l.floats = l.width * l.height * lanes * l.layers := by
    rw [h.floats_eq]
    ring
  have hlayers := h.layers_pos
  have hle : l.width * l.height * lanes ≤ l.floats := by
    rw [hfloats]
    exact Nat.le_mul_of_pos_right _ hlayers
  have harea : l.width * l.height ≤ l.width * l.height * lanes := Nat.le_mul_of_pos_right _ (by decide)
  unfold capacity
  constructor
  · intro hn
    obtain ⟨area, hfit, hn⟩ := Outcome.bind_eq_ok_iff.mp hn
    obtain ⟨-, rfl⟩ := Size.mul_eq_ok_iff.mp hfit
    obtain ⟨texels, hfit, hn⟩ := Outcome.bind_eq_ok_iff.mp hn
    obtain ⟨-, rfl⟩ := Size.mul_eq_ok_iff.mp hfit
    rw [hfloats]
    exact Size.mul_eq_ok_iff.mp hn
  · rintro ⟨hlt, rfl⟩
    refine Outcome.bind_eq_ok_iff.mpr ⟨_, Size.mul_eq_ok_iff.mpr ⟨by omega, rfl⟩, ?_⟩
    refine Outcome.bind_eq_ok_iff.mpr ⟨_, Size.mul_eq_ok_iff.mpr ⟨by omega, rfl⟩, ?_⟩
    exact Size.mul_eq_ok_iff.mpr ⟨hfloats ▸ hlt, hfloats.symm⟩

end Exact

/-! ## §2 — places -/

/-- The position of the element that a word belongs to, if it belongs to one. -/
def positionAt (l : Layout) (place : Nat) : Nat :=
  place / lanes / (l.width * l.height) / l.layersPerSlice * (l.width * l.height) +
    place / lanes % (l.width * l.height)

/-- The channel of the element that a word belongs to, if it belongs to one. -/
def channelAt (l : Layout) (place : Nat) : Nat :=
  place / lanes / (l.width * l.height) % l.layersPerSlice * lanes + place % lanes

/-- A word by slice, group, texel and lane. -/
def word (l : Layout) (slice group texel lane : Nat) : Nat :=
  ((slice * l.layersPerSlice + group) * (l.width * l.height) + texel) * lanes + lane

section Places

variable {slice group texel lane : Nat}

/-- A word of the texture is told apart into its slice, group, texel and lane. -/
theorem positionAt_word (hg : group < l.layersPerSlice) (ht : texel < l.width * l.height)
    (hl : lane < lanes) : l.positionAt (l.word slice group texel lane) =
      slice * (l.width * l.height) + texel := by
  unfold positionAt word
  rw [Size.mul_add_div hl, Size.mul_add_div ht, Size.mul_add_mod ht, Size.mul_add_div hg]

theorem channelAt_word (hg : group < l.layersPerSlice) (ht : texel < l.width * l.height)
    (hl : lane < lanes) : l.channelAt (l.word slice group texel lane) = group * lanes + lane := by
  unfold channelAt word
  rw [Size.mul_add_div hl, Size.mul_add_div ht, Size.mul_add_mod hg, Size.mul_add_mod hl]

theorem Exact.word_lt (h : l.Exact) (hs : slice < l.slices) (hg : group < l.layersPerSlice)
    (ht : texel < l.width * l.height) (hl : lane < lanes) :
    l.word slice group texel lane < l.floats := by
  rw [h.floats_eq, h.layers]
  exact Size.mul_add_lt (Size.mul_add_lt (Size.mul_add_lt hs hg) ht) hl

/-- Every word has its slice, group, texel and lane. -/
theorem Exact.exists_word (h : l.Exact) {place : Nat} (hp : place < l.floats) :
    ∃ slice group texel lane, slice < l.slices ∧ group < l.layersPerSlice ∧
      texel < l.width * l.height ∧ lane < lanes ∧ place = l.word slice group texel lane := by
  have hlayer : place / lanes / (l.width * l.height) < l.slices * l.layersPerSlice := by
    rw [h.floats_eq, h.layers] at hp
    rw [Nat.div_lt_iff_lt_mul h.area_pos, Nat.div_lt_iff_lt_mul (by decide)]
    exact hp
  have hper := h.layersPerSlice_pos
  refine ⟨place / lanes / (l.width * l.height) / l.layersPerSlice,
    place / lanes / (l.width * l.height) % l.layersPerSlice,
    place / lanes % (l.width * l.height), place % lanes,
    (Nat.div_lt_iff_lt_mul hper).mpr hlayer, Nat.mod_lt _ hper, Nat.mod_lt _ h.area_pos,
    Nat.mod_lt _ (by decide), ?_⟩
  unfold word
  rw [Size.div_mul_add_mod, Size.div_mul_add_mod, Size.div_mul_add_mod]

variable {position channel : Nat}

/-- The place of an element, in its slice, group, texel and lane. -/
theorem Exact.offset_eq (h : l.Exact) (hp : position < l.spatial) (hc : channel < l.channels) :
    position / (l.width * l.height) < l.slices ∧ channel / lanes < l.layersPerSlice ∧
      l.offset position channel = l.word (position / (l.width * l.height)) (channel / lanes)
        (position % (l.width * l.height)) (channel % lanes) := by
  have hs : position / (l.width * l.height) < l.slices := by
    rw [h.lt_slices]
    exact Nat.lt_of_le_of_lt (Nat.div_mul_le_self _ _) hp
  have hg : channel / lanes < l.layersPerSlice := by
    refine Nat.lt_of_lt_of_le ?_ h.groups_le
    exact (Nat.div_lt_iff_lt_mul (by decide)).mpr (Nat.lt_of_lt_of_le hc h.channels_le)
  exact ⟨hs, hg, rfl⟩

/-- **An element has its place** within the texture. -/
theorem Exact.offset_lt (h : l.Exact) (hp : position < l.spatial) (hc : channel < l.channels) :
    l.offset position channel < l.floats := by
  obtain ⟨hs, hg, heq⟩ := h.offset_eq hp hc
  rw [heq]
  exact h.word_lt hs hg (Nat.mod_lt _ h.area_pos) (Nat.mod_lt _ (by decide))

/-- **The place tells the element.** -/
theorem Exact.home_offset (h : l.Exact) (hp : position < l.spatial) (hc : channel < l.channels) :
    l.positionAt (l.offset position channel) = position ∧
      l.channelAt (l.offset position channel) = channel := by
  obtain ⟨-, hg, heq⟩ := h.offset_eq hp hc
  have ht : position % (l.width * l.height) < l.width * l.height := Nat.mod_lt _ h.area_pos
  have hl : channel % lanes < lanes := Nat.mod_lt _ (by decide)
  rw [heq, positionAt_word hg ht hl, channelAt_word hg ht hl]
  exact ⟨Size.div_mul_add_mod _ _, Size.div_mul_add_mod _ _⟩

/-- **The element tells the place**, of every word that belongs to one. -/
theorem Exact.offset_home (h : l.Exact) {place : Nat} (hlt : place < l.floats)
    (hp : l.positionAt place < l.spatial) (hc : l.channelAt place < l.channels) :
    l.offset (l.positionAt place) (l.channelAt place) = place := by
  obtain ⟨slice, group, texel, lane, -, hg, ht, hl, rfl⟩ := h.exists_word hlt
  obtain ⟨-, -, heq⟩ := h.offset_eq hp hc
  rw [heq, positionAt_word hg ht hl, channelAt_word hg ht hl, Size.mul_add_div ht,
    Size.mul_add_mod ht, Size.mul_add_div hl, Size.mul_add_mod hl]

end Places

end TexelFlow.Layout
