import TexelFlow.Proofs.Shader.Multiplied

/-!
# Where the shader of a convolution finds its bias

The host adds the elements of a bias by their row-major index, one for each channel of the result, and
inference asks for nothing but their number. The shader loads them by groups of four from the first
texels of the layers. A texture holds a tensor that way only if its layout is flat: if it has one position,
or one in each slice and no lane to spare. For every other shape with the right number of elements the
shader adds something else than the host.

## Main statements

* `Stored.loaded_of_flat`, `flat_of_loaded` — the layouts whose first texels hold all elements in order.
* `bias_found_iff` — the biases that the shader finds where they are stored.

## §1 — first texels
## §2 — flat layouts
## §3 — the shader
-/

namespace TexelFlow

/-- The first texels of the layers hold all elements, one after the other. -/
def Layout.Flat (l : Layout) : Prop :=
  l.spatial = 1 ∨ l.width * l.height = 1 ∧ l.layersPerSlice * Layout.lanes = l.channels

namespace Wgsl

open TexelFlow.Convolution (Geometry)

/-! ## §1 — first texels -/

section First

variable {l : Layout} {g k slot : Nat} {outside : Outside} {values : List Binary32}
  {words : Array Binary32}

theorem Loadable.texelOf_zero (h : Loadable l) : texelOf l 0 g = (.ofNat 0, .ofNat 0, .ofNat g) := by
  rw [h.texelOf_eq (by decide)]
  simp

/-- The first texel of a layer of the texture. -/
theorem Stored.loaded_zero (h : Stored l values words) (hg : g < l.slices * l.layersPerSlice) (hk : k < 4) :
    (Texture.mk l words).loaded outside slot 0 g k =
      padded l values (g / l.layersPerSlice * (l.width * l.height)) (g % l.layersPerSlice * 4 + k) := by
  have hwidth : 0 < l.width := Nat.pos_of_mul_pos_right h.exact.area_pos
  have hheight : 0 < l.height := Nat.pos_of_mul_pos_left h.exact.area_pos
  have hlayers : 0 < l.layersPerSlice := Nat.pos_of_mul_pos_left (Nat.zero_lt_of_lt hg)
  have hslice : g / l.layersPerSlice * (l.width * l.height) < l.spatial := by
    rw [← h.exact.lt_slices]
    exact (Nat.div_lt_iff_lt_mul hlayers).mpr hg
  have hgroup : (Texture.mk l words).loaded outside slot 0 g =
      (Texture.mk l words).group (g / l.layersPerSlice * (l.width * l.height)) (g % l.layersPerSlice) := by
    unfold Texture.loaded Texture.group Layout.word
    rw [h.loadable.texelOf_zero, Texture.fetch_ofNat _ h.loadable outside slot hwidth hheight hg]
    dsimp only
    rw [Nat.mul_div_cancel _ h.exact.area_pos, Nat.mul_mod_left, Size.div_mul_add_mod, Nat.zero_mul]
    rfl
  rw [hgroup]
  exact group_of_pack h.exact h.packed hslice (Nat.mod_lt _ hlayers) hk

/-- A layer that the texture does not have. -/
theorem Loadable.loaded_zero_of_le (h : Loadable l) (hg : l.slices * l.layersPerSlice ≤ g)
    (hg' : g < 2 ^ 31) :
    (Texture.mk l words).loaded outside slot 0 g = outside slot (.ofNat 0) (.ofNat 0) (.ofNat g) := by
  unfold Texture.loaded
  rw [h.texelOf_zero]
  refine if_neg fun hand => ?_
  have hlayer := hand.2.2.2
  rw [toInt_ofNat hg', h.layers] at hlayer
  omega

end First

/-! ## §2 — flat layouts -/

section Flat

variable {l : Layout} {slot : Nat}

/-- **In a flat layout** the lanes of first texels are the elements. -/
theorem Stored.loaded_of_flat {values : List Binary32} {words : Array Binary32}
    (h : Stored l values words) (hflat : l.Flat) (outside : Outside) {i : Nat} (hi : i < l.elementCount) :
    (Texture.mk l words).loaded outside slot 0 (i / 4) (i % 4) = values.getD i .zero := by
  have hcount := h.exact.count
  have hlane : i % 4 < 4 := Nat.mod_lt i (by decide)
  obtain hone | ⟨harea, hlayers⟩ := hflat
  · -- all channels are in the layers of one slice
    rw [hone, Nat.one_mul] at hcount
    have hgroup : i / 4 < l.channelGroups :=
      Nat.div_lt_of_lt_mul (Nat.mul_comm 4 _ ▸ (hcount ▸ hi).trans_le h.exact.channels_le)
    rw [h.loaded outside slot (by omega) hgroup hlane, Size.div_mul_add_mod]
    unfold padded Layout.element
    rw [if_pos (by omega), Nat.zero_mul, Nat.zero_add]
  · -- every slice has one position, and its layers have no lane to spare
    have hpos : 0 < l.layersPerSlice := by
      have hchannels := h.exact.channels_pos
      rw [← hlayers] at hchannels
      exact Nat.pos_of_mul_pos_right hchannels
    unfold Layout.lanes at hlayers
    have hbound : i / 4 < l.spatial * l.layersPerSlice := by
      refine Nat.div_lt_of_lt_mul ?_
      rw [hcount, ← hlayers] at hi
      rwa [Nat.mul_comm 4, Nat.mul_assoc]
    have hslice : i / 4 / l.layersPerSlice < l.slices := by
      rw [h.exact.lt_slices, harea, Nat.mul_one]
      exact (Nat.div_lt_iff_lt_mul hpos).mpr hbound
    have hlayer : i / 4 < l.slices * l.layersPerSlice := (Nat.div_lt_iff_lt_mul hpos).mp hslice
    have hchannel : i / 4 % l.layersPerSlice * 4 + i % 4 < l.channels := by
      rw [← hlayers]
      exact Size.mul_add_lt (Nat.mod_lt _ hpos) hlane
    rw [h.loaded_zero hlayer hlane]
    unfold padded Layout.element
    rw [if_pos hchannel, harea, Nat.mul_one, ← hlayers, ← Nat.mul_assoc, ← Nat.add_assoc, ← Nat.add_mul,
      Size.div_mul_add_mod, Size.div_mul_add_mod]

/-- A tensor that is one at a single element, and zero elsewhere. -/
def marked (count mark : Nat) : List Binary32 :=
  (List.range count).map fun i => if i = mark then .one else .zero

theorem getD_marked {count mark : Nat} (h : mark < count) (i : Nat) :
    (marked count mark).getD i .zero = if i = mark then .one else .zero := by
  unfold marked
  rw [List.getD_eq_getElem?_getD, List.getElem?_map]
  by_cases hi : i < count
  · rw [List.getElem?_range hi]
    rfl
  · rw [List.getElem?_eq_none (by simpa using hi), if_neg (by omega)]
    rfl

/-- Where the element behind the first channels would have to be, there is another one unless the layout is
flat. -/
theorem eq_of_index_eq {area layers channels : Nat}
    (hchannel : channels / 4 % layers * 4 + channels % 4 < channels)
    (hindex : channels / 4 / layers * area * channels + (channels / 4 % layers * 4 + channels % 4) =
      channels) : area = 1 ∧ layers * 4 = channels := by
  generalize hposition : channels / 4 / layers * area = position at hindex
  -- the position is the second one, and the channel the first
  have hone : position = 1 := by
    match position with
    | 0 => omega
    | 1 => rfl
    | position + 2 =>
      rw [Nat.add_mul] at hindex
      omega
  rw [hone, Nat.one_mul] at hindex
  rw [hone] at hposition
  have hlayer : channels / 4 / layers = 1 := Nat.eq_one_of_mul_eq_one_right hposition
  have hgroup := Size.div_mul_add_mod (channels / 4) layers
  rw [hlayer] at hgroup
  exact ⟨Nat.eq_one_of_mul_eq_one_left hposition, by omega⟩

/-- **Only in a flat layout** the element behind the first channels is found where it would have to be. -/
theorem flat_of_loaded (h : l.Exact) (hl : Loadable l) (hroom : l.HasRoom)
    (hspatial : l.spatial ≤ 2 ^ 31) (hchannels : l.channels ≤ 2 ^ 31) (slot : Nat)
    (hloaded : ∀ values words, l.pack values = .ok words → ∀ outside, ∀ i < l.elementCount,
      (Texture.mk l words).loaded outside slot 0 (i / 4) (i % 4) = values.getD i .zero) : l.Flat := by
  by_cases hone : l.spatial = 1
  · exact .inl hone
  have hpos := h.channels_pos
  have hpositions := h.spatial_pos
  have hin : l.channels < l.elementCount := by
    rw [h.count]
    exact (Nat.lt_mul_iff_one_lt_left hpos).mpr (by omega)
  -- a one stands there, and all else is zero, also outside of the texture
  obtain ⟨words, hpack⟩ := h.exists_pack hroom
    (show (marked l.elementCount l.channels).length = l.elementCount by simp [marked])
  have hstored : Stored l (marked l.elementCount l.channels) words := ⟨h, hl, hspatial, hpack⟩
  have hmark := hloaded _ _ hpack (fun _ _ _ _ _ => .zero) l.channels hin
  rw [getD_marked hin, if_pos rfl] at hmark
  have hzero : (Binary32.zero) ≠ .one := by decide
  have hlane : l.channels % 4 < 4 := Nat.mod_lt _ (by decide)
  by_cases hlayer : l.channels / 4 < l.slices * l.layersPerSlice
  · rw [hstored.loaded_zero hlayer hlane] at hmark
    unfold padded Layout.element at hmark
    split at hmark
    · rename_i hchannel
      rw [getD_marked hin] at hmark
      split at hmark
      · rename_i hindex
        exact .inr (eq_of_index_eq hchannel hindex)
      · exact absurd hmark hzero
    · exact absurd hmark hzero
  · rw [hl.loaded_zero_of_le (Nat.not_lt.mp hlayer) (by omega)] at hmark
    exact absurd hmark hzero

end Flat

/-! ## §3 — the shader -/

/-- What the shader loads for a channel is the first summand of the host. -/
def StartsAsHost (shader : Shader) (outside : Outside) (t : Operands) (bias : Values) (co : Nat) : Prop :=
  ∃ lanes, (shader.functions (sampling t.textures outside)).call "load_bias" [.ofNat 0, .ofNat (co / 4)] =
      some (.lanes lanes) ∧
    Convolution.start (some bias) co = .ok (lanes (co % 4))

theorem start_eq_ok_iff {bias : Values} {co : Nat} (h : co < bias.elements.size) {x : Binary32} :
    Convolution.start (some bias) co = .ok x ↔ x = bias.elements.getD co .zero := by
  show bias.read co = .ok x ↔ _
  unfold Values.read
  rw [dif_pos h, Except.ok.injEq, Array.getD_eq_getD_getElem?, Array.getElem?_eq_getElem h,
    Option.getD_some]
  exact eq_comm

section Shader

variable {op : Operator} {g : Geometry} {a : Activation} {depthwise : Bool} {t : Operands}
  {output : Layout} {outside : Outside} {b : Texture} {values : List Binary32} {shape : Shape} {co : Nat}

/-- The first summand of a shader is what is loaded from the first texel of a layer. -/
theorem startsAsHost_iff (hb : t.bias = some b) (hco : co < values.length) :
    StartsAsHost (convolutionShader op g a depthwise t output) outside t ⟨shape, values.toArray⟩ co ↔
      b.loaded outside 3 0 (co / 4) (co % 4) = values.getD co .zero := by
  have hcall : ((convolutionShader op g a depthwise t output).functions (sampling t.textures outside)).call
      "load_bias" [.ofNat 0, .ofNat (co / 4)] = some (.lanes (b.loaded outside 3 0 (co / 4))) :=
    call_of_convolutionKnown ((reads_bias hb).group 0 (co / 4))
  have hvalue : values.toArray.getD co .zero = values.getD co .zero := by
    simp [Array.getD_eq_getD_getElem?, List.getD_eq_getElem?_getD]
  constructor
  · rintro ⟨lanes, hlanes, hstart⟩
    rw [start_eq_ok_iff hco, hvalue] at hstart
    rw [← hstart]
    have heq := Option.some.inj (hcall.symm.trans hlanes)
    exact Value.eq_of_lanes_eq heq (Nat.mod_lt co (by decide))
  · intro hloaded
    refine ⟨_, hcall, (start_eq_ok_iff hco).mpr ?_⟩
    rw [hvalue]
    exact hloaded

/-- **All biases are found** exactly where the layout is flat, if biases have room in it at all. The shader does
not depend on what the textures hold, so that it is looked at without any words here. -/
theorem forall_startsAsHost_iff {input kernel bias : Layout} (h : bias.Exact) (hl : Loadable bias)
    (hspatial : bias.spatial ≤ 2 ^ 31) (hchannels : bias.channels ≤ 2 ^ 31)
    (helements : bias.elementCount = g.outC) :
    (∀ inputWords kernelWords values words, bias.pack values = .ok words →
      ∀ outside, ∀ co < g.outC, StartsAsHost (convolutionShader op g a depthwise
        ⟨⟨input, #[]⟩, ⟨kernel, #[]⟩, some ⟨bias, #[]⟩⟩ output) outside
        ⟨⟨input, inputWords⟩, ⟨kernel, kernelWords⟩, some ⟨bias, words⟩⟩ ⟨shape, values.toArray⟩ co) ↔
      (bias.HasRoom → bias.Flat) := by
  have hiff : ∀ inputWords kernelWords words outside, ∀ values : List Binary32, ∀ co < values.length,
      (StartsAsHost (convolutionShader op g a depthwise
        ⟨⟨input, #[]⟩, ⟨kernel, #[]⟩, some ⟨bias, #[]⟩⟩ output) outside
        ⟨⟨input, inputWords⟩, ⟨kernel, kernelWords⟩, some ⟨bias, words⟩⟩ ⟨shape, values.toArray⟩ co ↔
        (Texture.mk bias words).loaded outside 3 0 (co / 4) (co % 4) = values.getD co .zero) := by
    intro inputWords kernelWords words outside values co hco
    have hsame : convolutionShader op g a depthwise
        ⟨⟨input, #[]⟩, ⟨kernel, #[]⟩, some ⟨bias, #[]⟩⟩ output =
        convolutionShader op g a depthwise
          ⟨⟨input, inputWords⟩, ⟨kernel, kernelWords⟩, some ⟨bias, words⟩⟩ output := rfl
    rw [hsame]
    exact startsAsHost_iff rfl hco
  constructor
  · intro hfound hroom
    refine flat_of_loaded h hl hroom hspatial hchannels 3 ?_
    intro values words hpack outside co hco
    have hlength : co < values.length := h.length_of_pack hpack ▸ hco
    have hstart := hfound #[] #[] values words hpack outside co (helements ▸ hco)
    exact (hiff #[] #[] words outside values co hlength).mp hstart
  · intro hflat inputWords kernelWords values words hpack outside co hco
    rw [← helements] at hco
    have hstored : Stored bias values words := ⟨h, hl, hspatial, hpack⟩
    have hlength : co < values.length := h.length_of_pack hpack ▸ hco
    exact (hiff inputWords kernelWords words outside values co hlength).mpr
      (hstored.loaded_of_flat (hflat (h.hasRoom_of_pack hpack)) outside hco)

end Shader

section Node

variable {n : Node} {constant : Nat → Option Tensor} {i k b o : Descriptor} {limits : Layout.Limits}
  {options : Layout.Options} {inputName kernelName biasName : String} {input kernel bias : Layout}

/-- **The bias is found where it is stored** exactly when its layout is flat, if there is room for it at all. Then
the shader starts every channel with the summand of the host, whatever the bias holds; for any other layout
that inference lets pass there is a bias for which it does not. -/
theorem bias_found_iff (hop : n.op.isConvolution) (hinfer : Operator.infer n [i, k, b] constant = .ok o)
    (hi : Layout.compute inputName i limits options = .ok input)
    (hk : Layout.compute kernelName k limits options = .ok kernel)
    (hb : Layout.compute biasName b limits options = .ok bias)
    (hspatial : bias.spatial ≤ 2 ^ 31) (hchannels : bias.channels ≤ 2 ^ 31)
    (hlayers : bias.slices * bias.layersPerSlice ≤ 2 ^ 31) (output : Layout) (size : Option Tensor) :
    ∃ p g shader, Convolution.Params.ofNode n = .ok p ∧
      Geometry.resolve n.name p i.shape k.shape n.op.isDepthwise = .ok g ∧
      Pass.resolve n [input, kernel, bias] size =
        .ok (.convolution g p.activation n.op.isDepthwise true) ∧
      Wgsl.shader n.op (.convolution g p.activation n.op.isDepthwise true) [input, kernel, bias] output =
        .ok shader ∧
      ((∀ inputWords kernelWords values words, bias.pack values = .ok words →
        ∀ outside, ∀ co < g.outC, StartsAsHost shader outside
          ⟨⟨input, inputWords⟩, ⟨kernel, kernelWords⟩, some ⟨bias, words⟩⟩ ⟨b.shape, values.toArray⟩ co) ↔
        (bias.HasRoom → bias.Flat)) := by
  have hinfer' : Operator.infer n (i :: k :: (some b).toList) constant = .ok o := hinfer
  obtain ⟨p, g, hp, hg, hcount, -⟩ := Operator.exists_geometry_of_infer hop hinfer'
  have hcomputed := Layout.compute_eq_ok hb
  have helements : bias.elementCount = g.outC :=
    (hcomputed.count.trans hcomputed.prod_eq).trans (Shape.prod_of_counted (hcount b rfl))
  obtain ⟨hexact, hloadable⟩ := loadable_of_compute hb hspatial hlayers
  let t : Operands := ⟨⟨input, #[]⟩, ⟨kernel, #[]⟩, some ⟨bias, #[]⟩⟩
  have hresolve : Pass.resolve n t.layouts size =
      .ok (.convolution g p.activation n.op.isDepthwise t.bias.isSome) :=
    resolve_convolution hop hp hg hi hk size
  have hshader : Wgsl.shader n.op (.convolution g p.activation n.op.isDepthwise t.bias.isSome) t.layouts
      output = .ok (convolutionShader n.op g p.activation n.op.isDepthwise t output) := shader_convolution
  exact ⟨p, g, _, hp, hg, hresolve, hshader, forall_startsAsHost_iff hexact hloadable hspatial
    hchannels helements⟩

end Node

/-- A convolution of single elements with a bias. -/
def biased : Node where
  name := "biased"
  op := .fusedConv
  inputs := []
  attributes := .ofList [("strides", .number .one), ("padding", .string "valid")]
  weights := []

/-- Its parameters. -/
theorem biased_params : Convolution.Params.ofNode biased = .ok ⟨1, 1, .valid, .linear⟩ := by
  have hstrides : Convolution.readStrides biased = .ok (1, 1) := rfl
  have hpadding : Convolution.readPadding biased = .ok .valid := Padding.parse_valid "biased"
  have hactivation : Convolution.readActivation biased = .ok .linear := rfl
  unfold Convolution.Params.ofNode
  rw [hstrides, hpadding, hactivation]
  rfl

/-- Its geometry for one element and some channels of the result. -/
def pointGeometry (outC : Nat) : Geometry := ⟨1, 1, 1, 1, 1, 1, 1, outC, 1, 1, 0, 0, 1⟩

theorem biased_geometry (outC : Nat) : Geometry.resolve "biased" ⟨1, 1, .valid, .linear⟩ [1, 1, 1]
    [1, 1, 1, outC] false = .ok (pointGeometry outC) := rfl

/-- Inference accepts any bias with an element for each channel. -/
theorem biased_infer {outC : Nat} {bias : Shape} (h : bias.counted = .ok outC) :
    Operator.infer biased [⟨[1, 1, 1], .float32⟩, ⟨[1, 1, 1, outC], .float32⟩, ⟨bias, .float32⟩]
      (fun _ => none) = .ok ⟨[1, 1, outC], .float32⟩ := by
  refine Outcome.bind_eq_ok_iff.mpr ⟨_, biased_params, Outcome.bind_eq_ok_iff.mpr
    ⟨_, biased_geometry outC, ?_⟩⟩
  refine Outcome.bind_eq_ok_iff.mpr ⟨_, h, ?_⟩
  exact if_neg (not_not.mpr rfl)

/-- The layout of one element. -/
def point : Layout := ⟨[1, 1, 1], 1, 1, 4, 1, 1, 1, 1, 1, 1, 1, 1⟩

/-- The layout of a kernel for six channels. -/
def sixKernel : Layout := ⟨[1, 1, 1, 6], 6, 6, 8, 1, 2, 1, 1, 1, 2, 2, 1⟩

/-- The layout of a bias of six channels in a row. -/
def rowBias : Layout := ⟨[6], 6, 6, 8, 1, 2, 1, 1, 1, 2, 2, 1⟩

/-- A bias in a row is found: the last of its channels is in the second lane of its second group. -/
theorem rowBias_found : biased.op.isConvolution ∧
    Operator.infer biased [⟨[1, 1, 1], .float32⟩, ⟨[1, 1, 1, 6], .float32⟩, ⟨[6], .float32⟩]
      (fun _ => none) = .ok ⟨[1, 1, 6], .float32⟩ ∧
    Layout.compute "input" ⟨[1, 1, 1], .float32⟩ ⟨64, 64, 64⟩ ⟨true, []⟩ = .ok point ∧
    Layout.compute "kernel" ⟨[1, 1, 1, 6], .float32⟩ ⟨64, 64, 64⟩ ⟨true, []⟩ = .ok sixKernel ∧
    Layout.compute "bias" ⟨[6], .float32⟩ ⟨64, 64, 64⟩ ⟨true, []⟩ = .ok rowBias ∧
    rowBias.spatial ≤ 2 ^ 31 ∧ rowBias.channels ≤ 2 ^ 31 ∧
    rowBias.slices * rowBias.layersPerSlice ≤ 2 ^ 31 ∧ rowBias.Flat ∧
    ∃ words shader, rowBias.pack (List.replicate 6 .one) = .ok words ∧
      Wgsl.shader .fusedConv (.convolution (pointGeometry 6) .linear false true)
        [point, sixKernel, rowBias] rowBias = .ok shader ∧
      ∀ outside, StartsAsHost shader outside ⟨⟨point, #[]⟩, ⟨sixKernel, #[]⟩, some ⟨rowBias, words⟩⟩
        ⟨[6], (List.replicate 6 .one).toArray⟩ 5 := by
  have hinfer := biased_infer (show Shape.counted [6] = .ok 6 from rfl)
  have hi : Layout.compute "input" ⟨[1, 1, 1], .float32⟩ ⟨64, 64, 64⟩ ⟨true, []⟩ = .ok point := by cbv
  have hk : Layout.compute "kernel" ⟨[1, 1, 1, 6], .float32⟩ ⟨64, 64, 64⟩ ⟨true, []⟩ = .ok sixKernel := by
    cbv
  have hb : Layout.compute "bias" ⟨[6], .float32⟩ ⟨64, 64, 64⟩ ⟨true, []⟩ = .ok rowBias := by cbv
  have hflat : rowBias.Flat := .inl rfl
  obtain ⟨words, hwords⟩ := (Layout.compute_eq_ok hb).exact.exists_pack
    (Layout.hasRoom_of_compute hb (by decide)) (List.length_replicate (n := 6) (a := Binary32.one))
  refine ⟨rfl, hinfer, hi, hk, hb, by decide, by decide, by decide, hflat, words, ?_⟩
  obtain ⟨p, g, shader, hp, hg, -, hshader, hiff⟩ := bias_found_iff (n := biased) rfl hinfer hi hk hb
    (by decide) (by decide) (by decide) rowBias none
  obtain rfl := Except.ok.inj (biased_params.symm.trans hp)
  obtain rfl := Except.ok.inj ((biased_geometry 6).symm.trans hg)
  refine ⟨shader, hwords, hshader, fun outside => ?_⟩
  exact hiff.mpr (fun _ => hflat) #[] #[] _ words hwords outside 5 (by decide)

/-- The layout of a kernel for four channels. -/
def fourKernel : Layout := ⟨[1, 1, 1, 4], 4, 4, 4, 1, 1, 1, 1, 1, 1, 1, 1⟩

/-- The layout of a bias of four channels in two rows. -/
def squareBias : Layout := ⟨[2, 2], 4, 2, 4, 2, 1, 2, 1, 1, 1, 1, 1⟩

/-- One, two, three and four. -/
def counted : List Binary32 := [⟨0x3f800000⟩, ⟨0x40000000⟩, ⟨0x40400000⟩, ⟨0x40800000⟩]

/-- A bias in two rows is not found: its third element is in the second texel, and zero is loaded. -/
theorem squareBias_not_found : biased.op.isConvolution ∧
    Operator.infer biased [⟨[1, 1, 1], .float32⟩, ⟨[1, 1, 1, 4], .float32⟩, ⟨[2, 2], .float32⟩]
      (fun _ => none) = .ok ⟨[1, 1, 4], .float32⟩ ∧
    Layout.compute "bias" ⟨[2, 2], .float32⟩ ⟨64, 64, 64⟩ ⟨true, []⟩ = .ok squareBias ∧
    2 < (pointGeometry 4).outC ∧
    ∃ words shader, squareBias.pack counted = .ok words ∧
      Wgsl.shader .fusedConv (.convolution (pointGeometry 4) .linear false true)
        [point, fourKernel, squareBias] fourKernel = .ok shader ∧
      ∀ outside, ¬ StartsAsHost shader outside ⟨⟨point, #[]⟩, ⟨fourKernel, #[]⟩, some ⟨squareBias, words⟩⟩
        ⟨[2, 2], counted.toArray⟩ 2 := by
  have hb : Layout.compute "bias" ⟨[2, 2], .float32⟩ ⟨64, 64, 64⟩ ⟨true, []⟩ = .ok squareBias := by cbv
  obtain ⟨words, hwords⟩ := (Layout.compute_eq_ok hb).exact.exists_pack
    (Layout.hasRoom_of_compute hb (by decide)) (show counted.length = 4 from rfl)
  obtain ⟨hexact, hloadable⟩ := loadable_of_compute hb (by decide) (by decide)
  have hstored : Stored squareBias counted words := ⟨hexact, hloadable, by decide, hwords⟩
  let t : Operands := ⟨⟨point, #[]⟩, ⟨fourKernel, #[]⟩, some ⟨squareBias, words⟩⟩
  have hshader : Wgsl.shader .fusedConv (.convolution (pointGeometry 4) .linear false t.bias.isSome)
      t.layouts fourKernel = .ok (convolutionShader .fusedConv (pointGeometry 4) .linear false t fourKernel) :=
    shader_convolution
  refine ⟨rfl, biased_infer rfl, hb, by decide, words, _, hwords, hshader, fun outside hstart => ?_⟩
  have hloaded := (startsAsHost_iff rfl (by decide)).mp hstart
  rw [hstored.loaded_zero (by decide) (by decide)] at hloaded
  exact absurd hloaded (by decide)

end Wgsl

end TexelFlow
