import TexelFlow.Proofs.Texture.Pack

/-!
# Draws render what the host packs

A draw covers a canvas as large as a layer and writes, for every render target, one texel at every
pixel: the layer is that of the draw's slice and of the target's group, the position is counted in the
shader. Going through the draws in order goes through the layers in order, and through the texels and
lanes of each; so the words are written one after the other, each once, and what is written is what packing
writes.

## Main statements

* `Exact.attached_eq` — the layers that draws write are all layers, in order.
* `Exact.render_eq` — every word of a rendered texture.
* `rendersAsPacked_of_compute` — the draws of a computed layout render what the host packs.

## §1 — what draws write
## §2 — layers
## §3 — words
## §4 — rendering is packing
-/

namespace TexelFlow.Layout

variable {l : Layout}

/-! ## §1 — what draws write -/

/-- One more than the largest number of a shader's words. -/
def shaderModulus : Nat := 4294967296

/-- The position that the fragment at a pixel computes, in the words of the shader. -/
def fragmentPosition (l : Layout) (slice x y : Nat) : Nat :=
  (slice * l.width * l.height + y * l.width + x) % shaderModulus

/-- A lane of the texel that a fragment writes for a group: zero outside the tensor. -/
def fragment (l : Layout) (f : Nat → Nat → Nat → Binary32) (slice group x y lane : Nat) : Binary32 :=
  let s := l.fragmentPosition slice x y
  if l.spatial ≤ s ∨ l.channelGroups ≤ group ∨ l.channels ≤ lanes * group + lane then .zero
  else f s group lane

/-- Slice and group of every render target, draw after draw. -/
def targets (l : Layout) : List (Nat × Nat) :=
  l.draws.flatMap fun d => (List.range l.renderTargets).map fun i => (d.slice, d.group + i)

/-- The layers that are written, draw after draw. -/
def attached (l : Layout) : List Nat := l.targets.map fun t => l.layer t.1 t.2

/-- The words that a render target writes: every pixel of its layer, row by row, in every lane. -/
def paint (l : Layout) (f : Nat → Nat → Nat → Binary32) (t : Nat × Nat) : List (Nat × Binary32) :=
  (List.range l.height).flatMap fun y => (List.range l.width).flatMap fun x =>
    (List.range lanes).map fun lane =>
      ((l.layer t.1 t.2 * (l.width * l.height) + (y * l.width + x)) * lanes + lane,
        l.fragment f t.1 t.2 x y lane)

/-- **Render**: execute all draws on a texture with the layers of the layout. -/
def render (l : Layout) (f : Nat → Nat → Nat → Binary32) : Outcome (Array Binary32) :=
  writeAll (Array.replicate (l.layers * (l.width * l.height) * lanes) .zero)
    (l.targets.flatMap (l.paint f))

/-- The elements of a tensor in row-major order, from what is computed for position, group and lane. -/
def rowMajor (l : Layout) (f : Nat → Nat → Nat → Binary32) : List Binary32 :=
  (List.range l.elementCount).map fun i =>
    f (i / l.channels) (i % l.channels / lanes) (i % l.channels % lanes)

/-! ## §2 — layers -/

/-- Where the layers of a slice are whole draws, the targets are the groups of every slice. -/
theorem targets_eq (hpos : 0 < l.renderTargets) (hdvd : l.renderTargets ∣ l.layersPerSlice) :
    l.targets = (List.range l.slices).flatMap fun slice =>
      (List.range l.layersPerSlice).map fun group => (slice, group) := by
  -- each slice takes `k` draws, and their targets are consecutive groups
  obtain ⟨k, hk⟩ := hdvd
  rw [Nat.mul_comm] at hk
  unfold targets draws
  rw [hk, Size.divCeil_mul_self hpos, List.flatMap_assoc]
  refine congrArg (fun f => (List.range l.slices).flatMap f) (funext fun slice => ?_)
  rw [List.flatMap_map]
  exact Size.map_range_mul k l.renderTargets fun group => (slice, group)

theorem Exact.mem_targets_iff (h : l.Exact) {slice group : Nat} :
    (slice, group) ∈ l.targets ↔ slice < l.slices ∧ group < l.layersPerSlice := by
  rw [targets_eq h.targets_pos h.targets_dvd, List.mem_flatMap]
  constructor
  · rintro ⟨s, hs, ht⟩
    obtain ⟨g, hg, heq⟩ := List.mem_map.mp ht
    obtain ⟨rfl, rfl⟩ := Prod.mk.inj heq
    exact ⟨List.mem_range.mp hs, List.mem_range.mp hg⟩
  · rintro ⟨hs, hg⟩
    exact ⟨slice, List.mem_range.mpr hs, List.mem_map.mpr ⟨group, List.mem_range.mpr hg, rfl⟩⟩

/-- **The layers that draws write** are all layers, in order. -/
theorem Exact.attached_eq (h : l.Exact) : l.attached = List.range l.layers := by
  unfold attached
  rw [targets_eq h.targets_pos h.targets_dvd, List.map_flatMap, h.layers, ← Size.flatMap_range_rows]
  simp only [List.map_map]
  rfl

/-! ## §3 — words -/

/-- The places that a render target writes are those of its layer, in order. -/
theorem paint_fst (f : Nat → Nat → Nat → Binary32) (t : Nat × Nat) :
    (l.paint f t).map Prod.fst = (List.range (l.height * l.width)).flatMap fun texel =>
      (List.range lanes).map fun lane =>
        (l.layer t.1 t.2 * (l.width * l.height) + texel) * lanes + lane := by
  unfold paint
  rw [List.map_flatMap, ← Size.flatMap_range_mul]
  simp only [List.map_flatMap, List.map_map]
  rfl

/-- **The places that draws write** are all words of the texture, in order. -/
theorem Exact.painted_fst (h : l.Exact) (f : Nat → Nat → Nat → Binary32) :
    (l.targets.flatMap (l.paint f)).map Prod.fst = List.range l.floats := by
  have hlayers : l.targets.flatMap (fun t => (l.paint f t).map Prod.fst) =
      l.attached.flatMap fun k => (List.range (l.height * l.width)).flatMap fun texel =>
        (List.range lanes).map fun lane => (k * (l.width * l.height) + texel) * lanes + lane := by
    unfold attached
    rw [List.flatMap_map]
    exact congrArg (fun p => l.targets.flatMap p) (funext fun t => paint_fst f t)
  rw [List.map_flatMap, hlayers, h.attached_eq, Nat.mul_comm l.height l.width,
    Size.flatMap_range_mul l.layers (l.width * l.height) fun k =>
      (List.range lanes).map fun lane => k * lanes + lane,
    Size.flatMap_range_rows, h.floats_eq]

/-- Within the canvas the shader counts positions as they are. -/
theorem fragmentPosition_eq (hsmall : l.width * l.height * l.slices ≤ shaderModulus)
    {slice x y : Nat} (hs : slice < l.slices) (hx : x < l.width) (hy : y < l.height) :
    l.fragmentPosition slice x y = slice * (l.width * l.height) + (y * l.width + x) := by
  have ht : y * l.width + x < l.width * l.height := by
    rw [Nat.mul_comm l.width]
    exact Size.mul_add_lt hy hx
  have hlt : slice * (l.width * l.height) + (y * l.width + x) < l.slices * (l.width * l.height) :=
    Size.mul_add_lt hs ht
  rw [Nat.mul_comm l.slices] at hlt
  unfold fragmentPosition
  rw [Nat.mul_assoc, Nat.add_assoc]
  exact Nat.mod_eq_of_lt (by omega)

/-- What a fragment writes is what its word should hold. -/
theorem Exact.fragment_eq (h : l.Exact) (hsmall : l.width * l.height * l.slices ≤ shaderModulus)
    (f : Nat → Nat → Nat → Binary32) {slice group x y lane : Nat} (hs : slice < l.slices)
    (hg : group < l.layersPerSlice) (hx : x < l.width) (hy : y < l.height) (hl : lane < lanes) :
    l.fragment f slice group x y lane =
      l.content (fun position channel => f position (channel / lanes) (channel % lanes))
        (l.word slice group (y * l.width + x) lane) := by
  have ht : y * l.width + x < l.width * l.height := by
    rw [Nat.mul_comm l.width]
    exact Size.mul_add_lt hy hx
  have hchannels := h.channels_le
  have hgroup : l.channelGroups ≤ group → l.channels ≤ group * lanes + lane := by
    intro hle
    have := Nat.mul_le_mul_right lanes hle
    omega
  unfold fragment content
  dsimp only
  rw [fragmentPosition_eq hsmall hs hx hy, positionAt_word hg ht hl, channelAt_word hg ht hl,
    Size.mul_add_div hl, Size.mul_add_mod hl, Nat.mul_comm lanes group]
  -- a group without channels has no lane within the channels either
  by_cases hin : slice * (l.width * l.height) + (y * l.width + x) < l.spatial ∧
      group * lanes + lane < l.channels
  · rw [if_pos hin, if_neg (by omega)]
  · rw [if_neg hin, if_pos (by omega)]

/-- Every word that is written is what it should be. -/
theorem Exact.painted_snd (h : l.Exact) (hsmall : l.width * l.height * l.slices ≤ shaderModulus)
    (f : Nat → Nat → Nat → Binary32) {w : Nat × Binary32} (hw : w ∈ l.targets.flatMap (l.paint f)) :
    w.2 = l.content (fun position channel => f position (channel / lanes) (channel % lanes)) w.1 := by
  obtain ⟨⟨slice, group⟩, ht, hw⟩ := List.mem_flatMap.mp hw
  obtain ⟨hs, hg⟩ := h.mem_targets_iff.mp ht
  obtain ⟨y, hy, hw⟩ := List.mem_flatMap.mp hw
  obtain ⟨x, hx, hw⟩ := List.mem_flatMap.mp hw
  obtain ⟨lane, hl, rfl⟩ := List.mem_map.mp hw
  exact h.fragment_eq hsmall f hs hg (List.mem_range.mp hx) (List.mem_range.mp hy)
    (List.mem_range.mp hl)

/-- **Every word of a rendered texture** is known. -/
theorem Exact.render_eq (h : l.Exact) (hsmall : l.width * l.height * l.slices ≤ shaderModulus)
    (f : Nat → Nat → Nat → Binary32) : ∃ words, l.render f = .ok words ∧ words.size = l.floats ∧
      ∀ place < l.floats, words[place]? = some
        (l.content (fun position channel => f position (channel / lanes) (channel % lanes)) place) := by
  have hfst := h.painted_fst f
  have hsize : (Array.replicate (l.layers * (l.width * l.height) * lanes) Binary32.zero).size =
      l.floats := by
    rw [Array.size_replicate, h.floats_eq]
  obtain ⟨words, hwords⟩ : ∃ words, l.render f = .ok words := by
    refine exists_writeAll fun w hw => ?_
    rw [hsize, ← List.mem_range, ← hfst]
    exact List.mem_map_of_mem hw
  have hnodup : ((l.targets.flatMap (l.paint f)).map Prod.fst).Nodup := by
    rw [hfst]
    exact List.nodup_range
  obtain ⟨hread, -⟩ := writeAll_eq_ok hwords hnodup
  refine ⟨words, hwords, by rw [size_writeAll hwords, hsize], fun place hplace => ?_⟩
  -- some fragment writes this word
  have hmem : place ∈ (l.targets.flatMap (l.paint f)).map Prod.fst := by
    rw [hfst]
    exact List.mem_range.mpr hplace
  obtain ⟨w, hw, rfl⟩ := List.mem_map.mp hmem
  rw [hread w hw, h.painted_snd hsmall f hw]

/-! ## §4 — rendering is packing -/

/-- The row-major elements, by position and channel. -/
theorem Exact.element_rowMajor (h : l.Exact) (f : Nat → Nat → Nat → Binary32)
    {position channel : Nat} (hp : position < l.spatial) (hc : channel < l.channels) :
    l.element (l.rowMajor f) position channel = f position (channel / lanes) (channel % lanes) := by
  have hindex : position * l.channels + channel < l.elementCount := by
    rw [h.count]
    exact Size.mul_add_lt hp hc
  unfold element rowMajor
  rw [List.getD_eq_getElem?_getD, List.getElem?_map, List.getElem?_range hindex, Option.map_some,
    Option.getD_some, Size.mul_add_div hc, Size.mul_add_mod hc]

/-- **Draws render what the host packs.** The layers that are written are all layers of the texture, each once;
and whatever is computed for position, group and lane, the rendered texture is the packed array of the
elements in row-major order, from which they are unpacked again, if only there is room for the packed array
beside the texture. -/
structure RendersAsPacked (l : Layout) : Prop where
  /-- The layers that are written are those of the texture, in order. -/
  attached : l.attached = List.range l.layers
  /-- The rendered texture is the packed array. -/
  rendered : ∀ f, ∃ words, l.render f = .ok words ∧
    (∀ packed, l.pack (l.rowMajor f) = .ok packed → packed = words ∧ l.unpack words = .ok (l.rowMajor f)) ∧
    (l.HasRoom → l.pack (l.rowMajor f) = .ok words)
  /-- There is room where the elements leave eight times their own. -/
  roomy : 8 * (l.elementCount * elementRoom) ≤ Size.addressable → l.HasRoom

/-- What is packed of the elements is what is rendered of them. -/
theorem Exact.eq_of_pack_rowMajor (h : l.Exact) {f : Nat → Nat → Nat → Binary32} {words packed : Array Binary32}
    (hsize : words.size = l.floats)
    (hwords : ∀ place < l.floats, words[place]? = some
      (l.content (fun position channel => f position (channel / lanes) (channel % lanes)) place))
    (hpack : l.pack (l.rowMajor f) = .ok packed) : packed = words := by
  refine Array.ext_getElem? fun place => ?_
  by_cases hplace : place < l.floats
  · rw [hwords place hplace, h.getElem?_of_pack hpack hplace]
    unfold content
    split
    · rename_i hhome
      rw [h.element_rowMajor f hhome.1 hhome.2]
    · rfl
  · have hpacked := h.size_of_pack hpack
    rw [Array.getElem?_eq_none (by omega), Array.getElem?_eq_none (by omega)]

/-- **The draws of a computed layout render what the host packs**, where the shader counts its positions. -/
theorem rendersAsPacked_of_compute {name : String} {d : Descriptor} {limits : Limits} {options : Options}
    (h : compute name d limits options = .ok l) (hsmall : l.width * l.height * l.slices ≤ shaderModulus) :
    l.RendersAsPacked := by
  have hexact := (compute_eq_ok h).exact
  refine ⟨hexact.attached_eq, fun f => ?_, hasRoom_of_compute h⟩
  obtain ⟨words, hrender, hsize, hwords⟩ := hexact.render_eq hsmall f
  have hpacked : ∀ packed, l.pack (l.rowMajor f) = .ok packed → packed = words :=
    fun packed hpack => hexact.eq_of_pack_rowMajor hsize hwords hpack
  refine ⟨words, hrender, fun packed hpack => ?_, fun hroom => ?_⟩
  · obtain rfl := hpacked packed hpack
    have hunpack := hexact.unpack_pack hpack #[]
    rw [Array.append_empty] at hunpack
    exact ⟨rfl, hunpack⟩
  · have hlen : (l.rowMajor f).length = l.elementCount := by
      unfold rowMajor
      rw [List.length_map, List.length_range]
    obtain ⟨packed, hpack⟩ := hexact.exists_pack hroom hlen
    rw [hpack, hpacked packed hpack]

/-- Two draws with two render targets each write the four layers of the rounded layout. -/
theorem rounded_renders :
    compute "t" ⟨[2, 2, 12], .float32⟩ ⟨64, 64, 16⟩ ⟨true, [⟨1, 2⟩]⟩ = .ok roundedLayout ∧
    roundedLayout.width * roundedLayout.height * roundedLayout.slices ≤ shaderModulus ∧
    8 * (roundedLayout.elementCount * elementRoom) ≤ Size.addressable ∧ roundedLayout.RendersAsPacked :=
  ⟨rounded_compute, by decide, by decide, rendersAsPacked_of_compute rounded_compute (by decide)⟩

end TexelFlow.Layout
