import TexelFlow.Proofs.Operator.Infer
import TexelFlow.Proofs.Shader.Convolved

/-!
# Convolutions on a device multiply what the host multiplies

The host walks flat arrays with unsigned numbers and leaves out kernel elements that miss the image; a
shader walks groups of four channels, tests signed coordinates and loads from textures. Both add up the
same products in the same order, as long as no coordinate leaves the signed words: from the shapes of a
node and its textures come the bounds of every number that the shader computes with, and with them the
loads, tests and loops of the modules before are put together.

A bias is taken as it is loaded. What is loaded for it is a question of its own, and so is what the
activation of a device makes of what is not a number.

## Main statements

* `Coordinates` — the numbers that have to fit.
* `spans_of_compute`, `stored_input`, `stored_kernel` — the layouts of image and kernel go together and are
  loaded right.
* `shader_multiplies` — the shader of a convolution multiplies the pairs of the host.

## §1 — coordinates that fit
## §2 — the same factors
-/

namespace TexelFlow.Wgsl

open TexelFlow.Convolution (Geometry)

/-! ## §1 — coordinates that fit -/

/-- Coordinates of a convolution stay below two to the thirty-first: the places that its kernel reaches,
positions and channels of its tensors, and the layers that it reads. -/
structure Coordinates (g : Geometry) (input kernel : Layout) : Prop where
  /-- Rows that the kernel reaches. -/
  rows : (g.outH - 1) * g.strideH + g.kernelH ≤ 2 ^ 31
  /-- Columns that it reaches. -/
  columns : (g.outW - 1) * g.strideW + g.kernelW ≤ 2 ^ 31
  /-- The height of the image. -/
  inH : g.inH < 2 ^ 31
  /-- Its width. -/
  inW : g.inW < 2 ^ 31
  /-- Positions of the image. -/
  pixels : g.inH * g.inW ≤ 2 ^ 31
  /-- Positions of the kernel. -/
  taps : g.kernelH * g.kernelW * g.inC ≤ 2 ^ 31
  /-- Positions of the result. -/
  places : g.outH * g.outW ≤ 2 ^ 31
  /-- Channels of the result. -/
  outC : g.outC ≤ 2 ^ 31
  /-- Channels of the kernel. -/
  kernelChannels : kernel.channels ≤ 2 ^ 31
  /-- Layers of the image. -/
  inputLayers : input.slices * input.layersPerSlice ≤ 2 ^ 31
  /-- Layers of the kernel. -/
  kernelLayers : kernel.slices * kernel.layersPerSlice ≤ 2 ^ 31

/-- How the layouts of image and kernel go together. -/
structure Spans (g : Geometry) (depthwise : Bool) (input kernel : Layout) : Prop where
  /-- The image has a position for each row and column. -/
  pixels : input.spatial = g.inH * g.inW
  /-- Its channels are those of the geometry. -/
  inC : input.channels = g.inC
  /-- The kernel has a position for each of its rows, columns and input channels. -/
  taps : kernel.spatial = g.kernelH * g.kernelW * g.inC
  /-- The channels of the result. -/
  outC : g.outC = if depthwise then g.inC * kernel.channels else kernel.channels
  /-- The channels of the result for one channel of the image. -/
  multiplier : g.multiplier = if depthwise then kernel.channels else 1

/-- The extents of a kernel. -/
theorem kernel_shape {node name : String} {p : Convolution.Params} {i : Shape} {k : Descriptor}
    {depthwise : Bool} {g : Geometry} {limits : Layout.Limits} {options : Layout.Options} {kernel : Layout}
    (hg : Geometry.resolve node p i k.shape depthwise = .ok g)
    (hk : Layout.compute name k limits options = .ok kernel) :
    k.shape = [g.kernelH, g.kernelW, g.inC] ++ [kernel.channels] ∧
      g.outC = (if depthwise then g.inC * kernel.channels else kernel.channels) ∧
      g.multiplier = if depthwise then kernel.channels else 1 := by
  obtain ⟨-, kernelOut, hkernel, houtC, hmultiplier⟩ := Geometry.resolve_eq_ok hg
  have hchannels : kernel.channels = kernelOut := by
    rw [(Layout.compute_eq_ok hk).channels, hkernel]
    rfl
  subst hchannels
  exact ⟨hkernel, Convolution.outputChannels_eq houtC, hmultiplier⟩

section Coordinates

variable {node : String} {p : Convolution.Params} {i k : Descriptor} {depthwise : Bool} {g : Geometry}
  {limits : Layout.Limits} {options : Layout.Options} {inputName kernelName : String}
  {input kernel : Layout}
  (hg : Geometry.resolve node p i.shape k.shape depthwise = .ok g)
  (hi : Layout.compute inputName i limits options = .ok input)
  (hk : Layout.compute kernelName k limits options = .ok kernel) (hc : Coordinates g input kernel)
include hg hi hk hc

/-- Layouts of image and kernel go together. -/
theorem spans_of_compute : Spans g depthwise input kernel ∧ g.inC ≤ 2 ^ 31 := by
  obtain ⟨himage, -⟩ := Geometry.resolve_eq_ok hg
  obtain ⟨batch, hbatch, hshape⟩ := Image.ofShape_eq_ok himage
  obtain ⟨hkernel, houtC, hmultiplier⟩ := kernel_shape hg hk
  have hinput := Layout.compute_eq_ok hi
  have hkernels := Layout.compute_eq_ok hk
  have hpixels : input.spatial = g.inH * g.inW ∧ input.channels = g.inC := by
    rw [hinput.spatial, hinput.channels, hshape]
    obtain rfl | rfl := hbatch
    · exact ⟨by simp [Layout.spatialOf], rfl⟩
    · exact ⟨by simp [Layout.spatialOf], rfl⟩
  have htaps : kernel.spatial = g.kernelH * g.kernelW * g.inC := by
    rw [hkernels.spatial, hkernel, Layout.spatialOf_concat]
    simp [Nat.mul_assoc]
  -- a kernel with positions has an element for each channel of the image
  have hinC : g.inC ≤ 2 ^ 31 := by
    have hpos := hkernels.spatial_pos
    rw [htaps] at hpos
    exact (Nat.le_mul_of_pos_left _ (Nat.pos_of_mul_pos_right hpos)).trans hc.taps
  exact ⟨⟨hpixels.1, hpixels.2, htaps, houtC, hmultiplier⟩, hinC⟩

/-- The image is loaded right. -/
theorem stored_input {xs : List Binary32} {words : Array Binary32} (hpack : input.pack xs = .ok words) :
    Stored input xs words := by
  obtain ⟨hspans, hinC⟩ := spans_of_compute hg hi hk hc
  have hspatial : input.spatial ≤ 2 ^ 31 := hspans.pixels ▸ hc.pixels
  obtain ⟨hexact, hloadable⟩ := loadable_of_compute hi hspatial hc.inputLayers
  exact ⟨hexact, hloadable, hspatial, hpack⟩

/-- So is the kernel. -/
theorem stored_kernel {ws : List Binary32} {words : Array Binary32} (hpack : kernel.pack ws = .ok words) :
    Stored kernel ws words := by
  obtain ⟨hspans, hinC⟩ := spans_of_compute hg hi hk hc
  have hspatial : kernel.spatial ≤ 2 ^ 31 := hspans.taps ▸ hc.taps
  obtain ⟨hexact, hloadable⟩ := loadable_of_compute hk hspatial hc.kernelLayers
  exact ⟨hexact, hloadable, hspatial, hpack⟩

/-- The pairs of the host are inside of image and kernel. -/
theorem pairs_lt_length {xs ws : List Binary32} {inputWords kernelWords : Array Binary32}
    (hxs : input.pack xs = .ok inputWords) (hws : kernel.pack ws = .ok kernelWords) {oy ox co : Nat}
    (hco : co < g.outC) {pair : Nat × Nat} (hp : pair ∈ Convolution.pairs g depthwise oy ox co) :
    pair.1 < xs.length ∧ pair.2 < ws.length := by
  obtain ⟨hspans, hinC⟩ := spans_of_compute hg hi hk hc
  obtain ⟨himage, -⟩ := Geometry.resolve_eq_ok hg
  have hinput := (stored_input hg hi hk hc hxs).exact
  have hkernels := (stored_kernel hg hi hk hc hws).exact
  have hprod := (Layout.compute_eq_ok hk).prod_eq
  have hprod' := (Layout.compute_eq_ok hi).prod_eq
  rw [hinput.length_of_pack hxs, hkernels.length_of_pack hws, hinput.count, hkernels.count, hprod, hprod']
  exact Convolution.pairs_lt hg hco hp

end Coordinates

section Fit

variable {depthwise : Bool} {g : Geometry} {input kernel : Layout} {xs ws : List Binary32}
  {inputWords kernelWords : Array Binary32} {co : Nat}

theorem fitting_of_spans (hspans : Spans g depthwise input kernel) (hc : Coordinates g input kernel)
    (hinput : input.Exact) (hgroups : input.channelGroups = Size.divCeil input.channels Layout.lanes)
    (hinC : g.inC ≤ 2 ^ 31) (hco : co < g.outC) : Fitting g input.channelGroups (co / 4) := by
  have hlast := Size.divCeil_mul_lt (show 0 < Layout.lanes by decide) hinput.channels_pos
  rw [← hgroups, hspans.inC] at hlast
  unfold Layout.lanes at hlast
  constructor
  case pixels => exact hc.pixels
  case rows => exact hc.taps
  case groups => exact hspans.inC ▸ hinput.channels_le
  case inputGroups => omega
  case outC => exact hc.outC
  case group => omega

theorem loads_of_reads {fns : Functions} {outside : Outside} (hspans : Spans g depthwise input kernel)
    (hc : Coordinates g input kernel) (hinC : g.inC ≤ 2 ^ 31) (hco : co < g.outC)
    (hinput : Stored input xs inputWords) (hkernel : Stored kernel ws kernelWords)
    (hreads : Reads fns outside "input" 1 ⟨input, inputWords⟩)
    (hreads' : Reads fns outside "kernel" 2 ⟨kernel, kernelWords⟩) :
    Loads fns g depthwise input.channelGroups (co / 4) (padded input xs) (padded kernel ws) := by
  have hchannels := hc.kernelChannels
  constructor
  case input =>
    intro s hs gi hgi
    exact hinput.call_group hreads (hspans.pixels ▸ hs) hgi
  case inputChannel =>
    intro s hs c hc
    exact hinput.call_channel hreads (hspans.pixels ▸ hs) (hspans.inC ▸ hc) (by omega)
  case kernel =>
    intro hdepthwise s hs
    have houtC := hspans.outC
    rw [hdepthwise, if_neg Bool.false_ne_true] at houtC
    refine hkernel.call_group hreads' (hspans.taps ▸ hs) ?_
    have hle := hkernel.exact.channels_le
    unfold Layout.lanes at hle
    omega
  case kernelChannel =>
    intro hdepthwise s hs c hc
    have hmultiplier := hspans.multiplier
    rw [hdepthwise, if_pos rfl] at hmultiplier
    exact hkernel.call_channel hreads' (hspans.taps ▸ hs) (hmultiplier ▸ hc) (by omega)

theorem around_of_coordinates {oy ox : Nat} {node : String} {p : Convolution.Params} {i k : Shape}
    (hg : Geometry.resolve node p i k depthwise = .ok g) (hc : Coordinates g input kernel)
    (hoy : oy < g.outH) (hox : ox < g.outW) : Around g oy ox := by
  obtain ⟨htop, hleft⟩ := Geometry.pads_le hg
  have hrows := hc.rows
  have hcolumns := hc.columns
  have hrow : oy * g.strideH ≤ (g.outH - 1) * g.strideH := Nat.mul_le_mul_right _ (by omega)
  have hcolumn : ox * g.strideW ≤ (g.outW - 1) * g.strideW := Nat.mul_le_mul_right _ (by omega)
  constructor
  case rows => omega
  case columns => omega
  case inH => exact hc.inH
  case inW => exact hc.inW
  case padTop => omega
  case padLeft => omega

end Fit

/-! ## §2 — the same factors -/

/-- **What a shader does for one element of a convolution.** Its tests let the kernel elements pass that
the host lists, it multiplies the pairs of the host in their order, and the lane of the channel holds the
sum that the host has, from the same first summand on. -/
structure Multiplies (shader : Shader) (outside : Outside) (g : Geometry) (a : Activation)
    (depthwise : Bool) (t : Operands) (xs ws : List Binary32) (oy ox co : Nat) : Prop where
  /-- Rows are tested as on the host. -/
  rows : ∀ ky < g.kernelH, ∀ env : Env,
    (∀ name ∈ ["STRIDE_H", "PAD_TOP", "IN_H"], env.find? name = shader.globals.find? name) →
    env.find? "oy" = some (.ofNat oy) → env.find? "ky" = some (.ofNat ky) →
    Lands (shader.functions (sampling t.textures outside)) env
      (axisTest "iy" "IN_H" "oy" "STRIDE_H" "ky" "PAD_TOP") "iy"
      (Convolution.taps oy g.strideH g.padTop g.kernelH g.inH) ky
  /-- So are columns. -/
  columns : ∀ kx < g.kernelW, ∀ env : Env,
    (∀ name ∈ ["STRIDE_W", "PAD_LEFT", "IN_W"], env.find? name = shader.globals.find? name) →
    env.find? "ox" = some (.ofNat ox) → env.find? "kx" = some (.ofNat kx) →
    Lands (shader.functions (sampling t.textures outside)) env
      (axisTest "ix" "IN_W" "ox" "STRIDE_W" "kx" "PAD_LEFT") "ix"
      (Convolution.taps ox g.strideW g.padLeft g.kernelW g.inW) kx
  /-- The elements that are fetched for the lane, in their order, are the pairs of the host. -/
  pairs : ((shader.increases (sampling t.textures outside) "compute"
      [.ofNat (oy * g.outW + ox), .ofNat (co / 4)]).filterMap
        (fetched depthwise (shader.functions (sampling t.textures outside)) (co % 4))).map
      (Convolution.elements t.input.layout.channels t.kernel.layout.channels) =
    Convolution.pairs g depthwise oy ox co
  /-- The lane holds the sum of the host, after the activation of the device. -/
  sum : ∃ first total lanes,
    StartsWith (shader.functions (sampling t.textures outside)) t.bias.isSome (co / 4) first ∧
    Convolution.accumulate ⟨t.input.layout.shape, xs.toArray⟩ ⟨t.kernel.layout.shape, ws.toArray⟩
      (first (co % 4)) (Convolution.pairs g depthwise oy ox co) = .ok total ∧
    (shader.functions (sampling t.textures outside)).call "compute"
      [.ofNat (oy * g.outW + ox), .ofNat (co / 4)] = some (.lanes lanes) ∧
    lanes (co % 4) = onDevice a total

section Multiplies

variable {op : Operator} {g : Geometry} {a : Activation} {depthwise : Bool} {t : Operands} {output : Layout}
  {outside : Outside} {xs ws : List Binary32} {oy ox co : Nat}

section Tests

variable {globals env : Env} {fns : Functions} {inputGroups : Nat}

/-- Rows are tested as on the host. -/
theorem lands_rows (hd : Declared globals g inputGroups) (ha : Around g oy ox) {ky : Nat}
    (hky : ky < g.kernelH)
    (hsame : ∀ name ∈ ["STRIDE_H", "PAD_TOP", "IN_H"], env.find? name = globals.find? name)
    (ho : env.find? "oy" = some (.ofNat oy)) (hk : env.find? "ky" = some (.ofNat ky)) :
    Lands fns env (axisTest "iy" "IN_H" "oy" "STRIDE_H" "ky" "PAD_TOP") "iy"
      (Convolution.taps oy g.strideH g.padTop g.kernelH g.inH) ky := by
  have hrows := ha.rows
  exact lands_axisTest (by decide) ho ((hsame _ (by simp)).trans hd.strideH) hk
    ((hsame _ (by simp)).trans hd.padTop) ((hsame _ (by simp)).trans hd.inH) hky (by omega) ha.padTop
    ha.inH

/-- So are columns. -/
theorem lands_columns (hd : Declared globals g inputGroups) (ha : Around g oy ox) {kx : Nat}
    (hkx : kx < g.kernelW)
    (hsame : ∀ name ∈ ["STRIDE_W", "PAD_LEFT", "IN_W"], env.find? name = globals.find? name)
    (ho : env.find? "ox" = some (.ofNat ox)) (hk : env.find? "kx" = some (.ofNat kx)) :
    Lands fns env (axisTest "ix" "IN_W" "ox" "STRIDE_W" "kx" "PAD_LEFT") "ix"
      (Convolution.taps ox g.strideW g.padLeft g.kernelW g.inW) kx := by
  have hcolumns := ha.columns
  exact lands_axisTest (by decide) ho ((hsame _ (by simp)).trans hd.strideW) hk
    ((hsame _ (by simp)).trans hd.padLeft) ((hsame _ (by simp)).trans hd.inW) hkx (by omega) ha.padLeft
    ha.inW

end Tests

variable (op g a depthwise t output outside)

/-- The sums of a convolution start with something. -/
theorem exists_startsWith (group : Nat) : ∃ first,
    StartsWith (convolutionKnown op g a depthwise t output outside) t.bias.isSome group first ∧
    StartsWith ((convolutionShader op g a depthwise t output).functions (sampling t.textures outside))
      t.bias.isSome group first := by
  unfold StartsWith
  cases hbias : t.bias with
  | none => exact ⟨fun _ => .zero, rfl, rfl⟩
  | some b =>
    have hcall : (convolutionKnown op g a depthwise t output outside).call "load_bias"
        [.ofNat 0, .ofNat group] = some (.lanes (b.loaded outside 3 0 group)) :=
      (reads_bias hbias).group 0 group
    exact ⟨_, hcall, call_of_convolutionKnown hcall⟩

variable {op g a depthwise t output outside}

/-- **The shader of a convolution** multiplies the pairs of the host where its tensors are loaded right. -/
theorem multiplies_of_stored (hspans : Spans g depthwise t.input.layout t.kernel.layout)
    (hinput : Stored t.input.layout xs t.input.words) (hkernel : Stored t.kernel.layout ws t.kernel.words)
    (hc : Coordinates g t.input.layout t.kernel.layout) (ha : Around g oy ox)
    (hf : Fitting g t.input.layout.channelGroups (co / 4)) (houtput : output.channels = g.outC)
    (hinC : g.inC ≤ 2 ^ 31) (hsizes : ∀ p ∈ Convolution.pairs g depthwise oy ox co,
      p.1 < xs.length ∧ p.2 < ws.length) (hoy : oy < g.outH) (hox : ox < g.outW) (hco : co < g.outC) :
    Multiplies (convolutionShader op g a depthwise t output) outside g a depthwise t xs ws oy ox co := by
  obtain ⟨first, hfirst, hfirst'⟩ := exists_startsWith op g a depthwise t output outside (co / 4)
  have houtC : depthwise → g.outC = g.inC * g.multiplier := by
    intro hdepthwise
    rw [hspans.outC, hspans.multiplier, if_pos hdepthwise, if_pos hdepthwise]
  -- the body rests on what stands in front of it; it is looked at among all functions as well
  have hknown : Ready (convolutionKnown op g a depthwise t output outside)
      (convolutionShader op g a depthwise t output).globals g depthwise t.bias.isSome
      t.input.layout.channelGroups (co / 4) oy ox (padded t.input.layout xs) (padded t.kernel.layout ws)
      first :=
    { declared := declared houtput
      loads := loads_of_reads hspans hc hinC hco hinput hkernel reads_input reads_kernel
      fitting := hf
      around := ha
      outC := houtC
      max := (builtin_of_given rfl).1
      clamp := (builtin_of_given rfl).1
      start := hfirst }
  have hall : Ready ((convolutionShader op g a depthwise t output).functions (sampling t.textures outside))
      (convolutionShader op g a depthwise t output).globals g depthwise t.bias.isSome
      t.input.layout.channelGroups (co / 4) oy ox (padded t.input.layout xs) (padded t.kernel.layout ws)
      first :=
    { hknown with
      loads := by
        rw [functions_convolutionShader]
        exact loads_of_reads hspans hc hinC hco hinput hkernel (reads_input.foldl_define _)
          (reads_kernel.foldl_define _)
      max := (builtin_of_given rfl).2
      clamp := (builtin_of_given rfl).2
      start := hfirst' }
  have hplaces := hc.places
  have hplace : oy * g.outW + ox < g.outH * g.outW := Size.mul_add_lt hoy hox
  have hwidth : g.outW < 2 ^ 32 := by
    have hle := Nat.le_mul_of_pos_left g.outW (Nat.zero_lt_of_lt hoy)
    omega
  have hvalue := (meaningOf_convolution hknown a hox (by omega) hwidth).1
  have hlog := (meaningOf_convolution hall a hox (by omega) hwidth).2 (co % 4) (Nat.mod_lt co (by decide))
  rw [Size.div_mul_add_mod, laneProducts_eq hco] at hlog
  constructor
  case rows => exact fun ky hky env hsame ho hk => lands_rows hknown.declared ha hky hsame ho hk
  case columns => exact fun kx hkx env hsame ho hk => lands_columns hknown.declared ha hkx hsame ho hk
  case pairs =>
    rw [increases_convolution]
    refine (congrArg _ hlog).trans ?_
    rw [hspans.inC]
    exact Convolution.map_elements_factors hspans.multiplier hspans.outC
  case sum =>
    refine ⟨first, _, _, hfirst', Convolution.accumulate_pairs hspans.inC hspans.multiplier hspans.outC hco
      hsizes _, Option.bind_eq_some_iff.mpr ⟨_, functions_compute_convolution, hvalue⟩, ?_⟩
    unfold addAll
    dsimp only
    rw [Size.div_mul_add_mod, laneProducts_eq hco]

end Multiplies

/-- The pass of a convolution. -/
theorem resolve_convolution {n : Node} {p : Convolution.Params} {g : Geometry} {i k : Descriptor}
    {limits : Layout.Limits} {options : Layout.Options} {inputName kernelName : String} {t : Operands}
    (hop : n.op.isConvolution) (hp : Convolution.Params.ofNode n = .ok p)
    (hg : Geometry.resolve n.name p i.shape k.shape n.op.isDepthwise = .ok g)
    (hi : Layout.compute inputName i limits options = .ok t.input.layout)
    (hk : Layout.compute kernelName k limits options = .ok t.kernel.layout) (size : Option Tensor) :
    Pass.resolve n t.layouts size = .ok (.convolution g p.activation n.op.isDepthwise t.bias.isSome) := by
  have hresolve : Pass.resolve n t.layouts size = Pass.resolveConvolution n t.layouts := by
    unfold Pass.resolve
    cases hn : n.op <;> simp_all [Operator.isConvolution]
  have hmore : decide (2 < t.layouts.length) = t.bias.isSome := by
    unfold Operands.layouts Operands.textures
    cases t.bias with
    | none => rfl
    | some b => rfl
  rw [← Layout.compute_shape hi, ← Layout.compute_shape hk] at hg
  rw [hresolve, ← hmore]
  unfold Pass.resolveConvolution
  refine Outcome.bind_eq_ok_iff.mpr ⟨p, hp, ?_⟩
  refine Outcome.bind_eq_ok_iff.mpr ⟨t.input.layout, rfl, ?_⟩
  refine Outcome.bind_eq_ok_iff.mpr ⟨t.kernel.layout, rfl, ?_⟩
  exact Outcome.bind_eq_ok_iff.mpr ⟨g, hg, rfl⟩

/-- The channels of the result of a convolution. -/
theorem channels_of_outputShape {g : Geometry} {shape : Shape} {name : String} {o : Descriptor}
    {limits : Layout.Limits} {options : Layout.Options} {output : Layout}
    (ho : Layout.compute name o limits options = .ok output) (hshape : o.shape = g.outputShape shape) :
    output.channels = g.outC := by
  have hout : g.outputShape shape = (shape.take (shape.length - 3) ++ [g.outH, g.outW]) ++ [g.outC] := by
    rw [List.append_assoc]
    rfl
  rw [(Layout.compute_eq_ok ho).channels, hshape, hout, Layout.channelsOf_concat]

section Node

variable {n : Node} {constant : Nat → Option Tensor} {i k o : Descriptor} {bias : Option Descriptor}
  {limits : Layout.Limits} {options : Layout.Options} {inputName kernelName outputName : String}
  {t : Operands} {output : Layout}

/-- **The shader of a convolution multiplies the pairs of the host.** Every convolution that inference
accepts has one, and where coordinates fit, it does so at every element of the result, whatever the
tensors hold, whatever its sums start with, and whatever lies outside of the textures. -/
theorem shader_multiplies (hop : n.op.isConvolution)
    (hinfer : Operator.infer n (i :: k :: bias.toList) constant = .ok o)
    (hi : Layout.compute inputName i limits options = .ok t.input.layout)
    (hk : Layout.compute kernelName k limits options = .ok t.kernel.layout)
    (ho : Layout.compute outputName o limits options = .ok output)
    (hbias : t.bias.isSome = bias.isSome) (size : Option Tensor) :
    ∃ p g shader, Convolution.Params.ofNode n = .ok p ∧
      Geometry.resolve n.name p i.shape k.shape n.op.isDepthwise = .ok g ∧
      Pass.resolve n t.layouts size =
        .ok (.convolution g p.activation n.op.isDepthwise bias.isSome) ∧
      Wgsl.shader n.op (.convolution g p.activation n.op.isDepthwise bias.isSome) t.layouts output =
        .ok shader ∧
      (Coordinates g t.input.layout t.kernel.layout → ∀ xs ws,
        t.input.layout.pack xs = .ok t.input.words → t.kernel.layout.pack ws = .ok t.kernel.words →
        ∀ outside, ∀ oy < g.outH, ∀ ox < g.outW, ∀ co < g.outC,
          Multiplies shader outside g p.activation n.op.isDepthwise t xs ws oy ox co) := by
  obtain ⟨p, g, hp, hg, -, hshape⟩ := Operator.exists_geometry_of_infer hop hinfer
  rw [← hbias]
  refine ⟨p, g, _, hp, hg, resolve_convolution hop hp hg hi hk size, shader_convolution, ?_⟩
  intro hc xs ws hxs hws outside oy hoy ox hox co hco
  obtain ⟨hspans, hinC⟩ := spans_of_compute hg hi hk hc
  have hinput := stored_input hg hi hk hc hxs
  have hkernel := stored_kernel hg hi hk hc hws
  have hfitting := fitting_of_spans hspans hc hinput.exact (Layout.compute_eq_ok hi).groups hinC hco
  have houtput := channels_of_outputShape ho hshape
  have haround := around_of_coordinates hg hc hoy hox
  refine multiplies_of_stored hspans hinput hkernel hc haround hfitting houtput hinC ?_ hoy hox hco
  exact fun pair hpair => pairs_lt_length hg hi hk hc hxs hws hco hpair

end Node

/-- A convolution in steps of two that treats channels by themselves and reaches over the border. -/
def strided : Node where
  name := "strided"
  op := .depthwise
  inputs := []
  attributes := .ofList [("strides", .number ⟨0x4000000000000000⟩), ("padding", .string "same")]
  weights := []

/-- Its geometry for three rows and two columns of two channels. -/
def stridedGeometry : Geometry where
  inH := 3
  inW := 2
  inC := 2
  kernelH := 3
  kernelW := 1
  outH := 2
  outW := 1
  outC := 6
  strideH := 2
  strideW := 2
  padTop := 1
  padLeft := 0
  multiplier := 3

/-- The layout of the image. -/
def stridedImage : Layout := ⟨[3, 2, 2], 12, 2, 4, 6, 1, 3, 2, 1, 1, 1, 1⟩

/-- The layout of the kernel. -/
def stridedKernel : Layout := ⟨[3, 1, 2, 3], 18, 3, 4, 6, 1, 3, 2, 1, 1, 1, 1⟩

/-- The layout of the result. -/
def stridedResult : Layout := ⟨[2, 1, 6], 12, 6, 8, 2, 2, 2, 1, 1, 2, 2, 1⟩

/-- The last channel of the first row is made of two products: the upper row of the kernel is outside. -/
theorem strided_multiplies : strided.op.isConvolution ∧
    Operator.infer strided [⟨[3, 2, 2], .float32⟩, ⟨[3, 1, 2, 3], .float32⟩] (fun _ => none) =
      .ok ⟨[2, 1, 6], .float32⟩ ∧
    Layout.compute "image" ⟨[3, 2, 2], .float32⟩ ⟨64, 64, 64⟩ ⟨true, []⟩ = .ok stridedImage ∧
    Layout.compute "kernel" ⟨[3, 1, 2, 3], .float32⟩ ⟨64, 64, 64⟩ ⟨true, []⟩ = .ok stridedKernel ∧
    Layout.compute "result" ⟨[2, 1, 6], .float32⟩ ⟨64, 64, 64⟩ ⟨true, []⟩ = .ok stridedResult ∧
    Coordinates stridedGeometry stridedImage stridedKernel ∧
    Convolution.pairs stridedGeometry true 0 0 5 = [(1, 11), (5, 17)] ∧
    ∃ words words' shader, stridedImage.pack (List.replicate 12 .one) = .ok words ∧
      stridedKernel.pack (List.replicate 18 .six) = .ok words' ∧
      Wgsl.shader .depthwise (.convolution stridedGeometry .linear true false)
        [stridedImage, stridedKernel] stridedResult = .ok shader ∧
      ∀ outside, Multiplies shader outside stridedGeometry .linear true
        ⟨⟨stridedImage, words⟩, ⟨stridedKernel, words'⟩, none⟩ (List.replicate 12 .one)
        (List.replicate 18 .six) 0 0 5 := by
  have hi : Layout.compute "image" ⟨[3, 2, 2], .float32⟩ ⟨64, 64, 64⟩ ⟨true, []⟩ = .ok stridedImage := by
    cbv
  have hk : Layout.compute "kernel" ⟨[3, 1, 2, 3], .float32⟩ ⟨64, 64, 64⟩ ⟨true, []⟩ =
      .ok stridedKernel := by cbv
  have ho : Layout.compute "result" ⟨[2, 1, 6], .float32⟩ ⟨64, 64, 64⟩ ⟨true, []⟩ = .ok stridedResult := by
    cbv
  have hcoordinates : Coordinates stridedGeometry stridedImage stridedKernel := by
    constructor <;> decide
  have hp : Convolution.Params.ofNode strided = .ok ⟨2, 2, .same, .linear⟩ := by
    have hstrides : Convolution.readStrides strided = .ok (2, 2) := rfl
    have hpadding : Convolution.readPadding strided = .ok .same := by
      show Padding.parse "strided" "same" = .ok .same
      unfold Padding.parse
      rw [show "same".map Char.toLower = "same" by decide +kernel]
      rfl
    have hactivation : Convolution.readActivation strided = .ok .linear := rfl
    unfold Convolution.Params.ofNode
    rw [hstrides, hpadding, hactivation]
    rfl
  have hg : Geometry.resolve "strided" ⟨2, 2, .same, .linear⟩ [3, 2, 2] [3, 1, 2, 3] true =
      .ok stridedGeometry := rfl
  have hinfer : Operator.infer strided (⟨[3, 2, 2], .float32⟩ :: ⟨[3, 1, 2, 3], .float32⟩ ::
      (none : Option Descriptor).toList) (fun _ => none) = .ok ⟨[2, 1, 6], .float32⟩ := by
    exact Outcome.bind_eq_ok_iff.mpr ⟨_, hp, Outcome.bind_eq_ok_iff.mpr ⟨_, hg, rfl⟩⟩
  obtain ⟨words, hwords⟩ := (Layout.compute_eq_ok hi).exact.exists_pack
    (Layout.hasRoom_of_compute hi (by decide)) (List.length_replicate (n := 12) (a := Binary32.one))
  obtain ⟨words', hwords'⟩ := (Layout.compute_eq_ok hk).exact.exists_pack
    (Layout.hasRoom_of_compute hk (by decide)) (List.length_replicate (n := 18) (a := Binary32.six))
  refine ⟨rfl, hinfer, hi, hk, ho, hcoordinates, by decide, words, words', ?_⟩
  obtain ⟨p, g, shader, hp', hg', -, hshader, hmultiplies⟩ := shader_multiplies (n := strided)
    (t := ⟨⟨stridedImage, words⟩, ⟨stridedKernel, words'⟩, none⟩) rfl hinfer hi hk ho rfl none
  obtain rfl := Except.ok.inj (hp.symm.trans hp')
  obtain rfl := Except.ok.inj (hg.symm.trans hg')
  refine ⟨shader, hwords, hwords', hshader, fun outside => ?_⟩
  exact hmultiplies hcoordinates _ _ hwords hwords' outside 0 (by decide) 0 (by decide) 5 (by decide)

end TexelFlow.Wgsl
