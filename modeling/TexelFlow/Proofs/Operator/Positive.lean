import TexelFlow.Proofs.Binary.Cast
import TexelFlow.Proofs.Operator.Infer
import TexelFlow.Proofs.Size

/-!
# Extents above zero

No operation makes an empty tensor of tensors that are not empty: a broadcast extent is one of the two it
joins, a convolution has an output wherever a step starts, and a resize refuses sizes below one. One way
remains: a size that is no number is not below one and is cut to zero.

## Main statements

* `Shape.broadcast_positive` — broadcast extents.
* `Convolution.axis_pos` — extents and strides along an axis of a convolution.
* `Resize.Params.resolve_pos_iff` — when a resolved resize has rows and columns.
* `Operator.keepsPositive_iff` — when inference keeps extents above zero.

## §1 — shapes
## §2 — convolutions
## §3 — resizes
## §4 — inference
-/

namespace TexelFlow

/-! ## §1 — shapes -/

namespace Shape

/-- No extent is zero. -/
def Positive (shape : Shape) : Prop := ∀ n ∈ shape, 0 < n

variable {a b shape : Shape}

theorem positive_append_iff : Positive (a ++ b) ↔ Positive a ∧ Positive b := List.forall_mem_append

theorem Positive.padded (h : a.Positive) (rank : Nat) : (a.padded rank).Positive := by
  refine positive_append_iff.mpr ⟨fun n hn => ?_, h⟩
  rw [(List.mem_replicate.mp hn).2]
  exact Nat.one_pos

/-- Joined extents come from one of both sides. -/
theorem joinFrom_positive {axis : Nat} (ha : a.Positive) (hb : b.Positive)
    (h : joinFrom axis a b = .ok shape) : shape.Positive := by
  fun_induction joinFrom axis a b generalizing shape with
  | case1 axis x a y b hjoin => cases h
  | case2 axis x a y b n hjoin ih =>
    obtain ⟨hx, ha⟩ := List.forall_mem_cons.mp ha
    obtain ⟨hy, hb⟩ := List.forall_mem_cons.mp hb
    have hn : 0 < n := by
      unfold joinExtent at hjoin
      grind
    cases hrest : joinFrom (axis + 1) a b with
    | error fault =>
      rw [hrest] at h
      cases h
    | ok rest =>
      rw [hrest] at h
      obtain rfl := Except.ok.inj h
      exact List.forall_mem_cons.mpr ⟨hn, ih ha hb hrest⟩
  | case3 axis a b hends =>
    cases h
    exact fun n hn => absurd hn List.not_mem_nil

/-- **Broadcast extents** of operands that are not empty are not zero. -/
theorem broadcast_positive (ha : a.Positive) (hb : b.Positive) (h : a.broadcast b = .ok shape) :
    shape.Positive := by
  unfold broadcast at h
  dsimp only at h
  split at h
  · rename_i joined hjoined
    obtain rfl := Except.ok.inj h
    exact joinFrom_positive (ha.padded _) (hb.padded _) hjoined
  · cases h

end Shape

/-- The extents of an image in a shape, and of any other one in its place. -/
theorem Image.positive_inPlaceOf_iff {node : String} {shape : Shape} {image : Image}
    (h : ofShape node shape = .ok image) (image' : Image) :
    (image'.inPlaceOf shape).Positive ↔ 0 < image'.height ∧ 0 < image'.width ∧ 0 < image'.channels := by
  unfold inPlaceOf Shape.Positive
  obtain ⟨batch, rfl | rfl, rfl⟩ := ofShape_eq_ok h
  · simp
  · simp

theorem Image.positive_iff {node : String} {shape : Shape} {image : Image}
    (h : ofShape node shape = .ok image) :
    shape.Positive ↔ 0 < image.height ∧ 0 < image.width ∧ 0 < image.channels := by
  unfold Shape.Positive
  obtain ⟨batch, rfl | rfl, rfl⟩ := ofShape_eq_ok h
  · simp
  · simp

/-! ## §2 — convolutions -/

namespace Convolution

section Axis

variable {node : String} {input kernel stride out pad : Nat} {padding : Padding}
  (h : axis node input kernel stride padding = .ok (out, pad))
include h

/-- Steps along an axis of a convolution are not empty. -/
theorem stride_pos_of_axis : 0 < stride := by
  unfold axis at h
  split at h
  · cases h
  · omega

/-- **Along an axis** of a convolution there is an output. -/
theorem axis_pos : 0 < out := by
  have hstride := stride_pos_of_axis h
  unfold axis at h
  split at h
  · cases h
  · cases padding with
    | same =>
      obtain ⟨steps, -, h⟩ := Outcome.bind_eq_ok_iff.mp h
      obtain ⟨reach, -, h⟩ := Outcome.bind_eq_ok_iff.mp h
      obtain ⟨rfl, -⟩ := Prod.mk.inj (Outcome.pure_eq_ok_iff.mp h)
      exact Size.divCeil_pos hstride (by omega)
    | valid =>
      dsimp only at h
      split at h
      · cases h
      · obtain ⟨starts, hstarts, h⟩ := Outcome.bind_eq_ok_iff.mp h
        obtain ⟨-, rfl⟩ := Size.add_eq_ok_iff.mp hstarts
        obtain ⟨rfl, -⟩ := Prod.mk.inj (Outcome.pure_eq_ok_iff.mp h)
        exact Size.divCeil_pos hstride (by omega)

end Axis

/-- Steps of a resolved geometry are not empty. -/
theorem Geometry.strides_pos {node : String} {p : Params} {input kernel : Shape} {depthwise : Bool}
    {g : Geometry} (h : resolve node p input kernel depthwise = .ok g) : 1 ≤ g.strideH ∧ 1 ≤ g.strideW :=
  ⟨stride_pos_of_axis (axes_of_resolve h).1, stride_pos_of_axis (axes_of_resolve h).2⟩

/-- Channels of which none is empty make channels of the output. -/
theorem outputChannels_pos {depthwise : Bool} {channels kernelOut outC : Nat} (hchannels : 0 < channels)
    (hkernel : 0 < kernelOut) (h : outputChannels depthwise channels kernelOut = .ok outC) : 0 < outC := by
  rw [outputChannels_eq h]
  split
  · exact Nat.mul_pos hchannels hkernel
  · exact hkernel

/-- **A geometry** of shapes that are not empty makes an image that is not. -/
theorem Geometry.positive_outputShape {node : String} {p : Params} {input kernel : Shape} {depthwise : Bool}
    {g : Geometry} (hinput : input.Positive) (hkernel : kernel.Positive)
    (h : resolve node p input kernel depthwise = .ok g) : (g.outputShape input).Positive := by
  obtain ⟨himage, kernelOut, rfl, houtC, -⟩ := resolve_eq_ok h
  obtain ⟨hrows, hcolumns⟩ := axes_of_resolve h
  have hchannels : 0 < g.inC := ((Image.positive_iff himage).mp hinput).2.2
  have hkernelOut : 0 < kernelOut := hkernel _ (by simp)
  unfold Geometry.outputShape
  rw [Image.positive_inPlaceOf_iff himage]
  exact ⟨axis_pos hrows, axis_pos hcolumns, outputChannels_pos hchannels hkernelOut houtC⟩

end Convolution

/-! ## §3 — resizes -/

namespace Resize

/-- All sizes that a resize is given are numbers. -/
def SizedByNumbers (n : Node) (input : Shape) (size : Option Tensor) : Prop :=
  ∀ image sizes, Image.ofShape n.name input = .ok image → targetSize n image size = .ok sizes →
    ∀ s ∈ sizes, s.isNaN = false

variable {n : Node} {input : Shape} {size : Option Tensor} {p : Params}

/-- A resolved resize has its rows and columns from two sizes that are not below one. -/
theorem Params.target_of_resolve (h : resolve n input size = .ok p) :
    ∃ image height width, Image.ofShape n.name input = .ok image ∧
      targetSize n image size = .ok [height, width] ∧ height.lt .one = false ∧ width.lt .one = false ∧
      p.outH = height.toSize ∧ p.outW = width.toSize := by
  unfold resolve at h
  obtain ⟨image, himage, h⟩ := Outcome.bind_eq_ok_iff.mp h
  obtain ⟨sizes, hsizes, h⟩ := Outcome.bind_eq_ok_iff.mp h
  split at h
  · rename_i height width
    split at h
    · cases h
    · rename_i hbelow
      obtain ⟨hheight, hwidth⟩ : height.lt .one = false ∧ width.lt .one = false := by simpa using hbelow
      cases h
      exact ⟨image, height, width, himage, hsizes, hheight, hwidth, rfl, rfl⟩
  · cases h

theorem Params.outH_lt (h : resolve n input size = .ok p) : p.outH < Size.modulus := by
  obtain ⟨image, height, width, -, -, -, -, houtH, -⟩ := target_of_resolve h
  rw [houtH]
  exact height.toSize_lt

/-- **A resolved resize** has rows and columns exactly where its sizes are numbers. -/
theorem Params.resolve_pos_iff (h : resolve n input size = .ok p) :
    1 ≤ p.outH ∧ 1 ≤ p.outW ↔ SizedByNumbers n input size := by
  obtain ⟨image, height, width, himage, hsizes, hheight, hwidth, houtH, houtW⟩ := target_of_resolve h
  rw [houtH, houtW, Binary64.toSize_pos_iff hheight, Binary64.toSize_pos_iff hwidth]
  constructor
  · rintro ⟨hheight, hwidth⟩ image' sizes himage' hsizes'
    obtain rfl := Except.ok.inj (himage.symm.trans himage')
    obtain rfl := Except.ok.inj (hsizes.symm.trans hsizes')
    simp [hheight, hwidth]
  · intro hnumbers
    exact ⟨hnumbers image _ himage hsizes _ (by simp), hnumbers image _ himage hsizes _ (by simp)⟩

/-- The extents of a resized image that is not empty. -/
theorem Params.positive_outputShape_iff {node : String} {image : Image}
    (himage : Image.ofShape node input = .ok image) (hinput : input.Positive) (p : Params) :
    (p.outputShape input).Positive ↔ 1 ≤ p.outH ∧ 1 ≤ p.outW := by
  have hchannels := ((Image.positive_iff himage).mp hinput).2.2
  unfold outputShape Shape.Positive
  obtain ⟨batch, rfl | rfl, rfl⟩ := Image.ofShape_eq_ok himage
  · simp [hchannels, Nat.succ_le_iff]
  · simp [hchannels, Nat.succ_le_iff]

end Resize

/-! ## §4 — inference -/

namespace Operator

/-- The constant tensor that gives a resize its size, where it has a second input. -/
def sizeOperand (inputs : List Descriptor) (constant : Nat → Option Tensor) : Option Tensor :=
  inputs[1]?.bind fun _ => constant 1

/-- **An inferred descriptor keeps extents above zero.** -/
structure KeepsPositive (n : Node) (inputs : List Descriptor) (constant : Nat → Option Tensor)
    (d : Descriptor) : Prop where
  /-- The inferred shape has no extent of zero. -/
  shape : d.shape.Positive
  /-- A resolved convolution has steps. -/
  strides : n.op.isConvolution →
    ∀ input kernel p g, inputs[0]? = some input → inputs[1]? = some kernel →
    Convolution.Params.ofNode n = .ok p →
    Convolution.Geometry.resolve n.name p input.shape kernel.shape n.op.isDepthwise = .ok g →
      1 ≤ g.strideH ∧ 1 ≤ g.strideW
  /-- A resolved resize has rows and columns. -/
  target : n.op = .resize → ∀ input p, inputs[0]? = some input →
    Resize.Params.resolve n input.shape (sizeOperand inputs constant) = .ok p → 1 ≤ p.outH ∧ 1 ≤ p.outW

/-- What inference needs to keep extents above zero: the sizes of a resize are numbers. -/
def Measured (n : Node) (inputs : List Descriptor) (constant : Nat → Option Tensor) : Prop :=
  n.op = .resize → ∀ input, inputs[0]? = some input →
    Resize.SizedByNumbers n input.shape (sizeOperand inputs constant)

variable {n : Node} {inputs : List Descriptor} {constant : Nat → Option Tensor} {d : Descriptor}

/-- What is no resize has only its shape to keep, and needs nothing: the steps of a convolution are never
empty. -/
theorem keepsPositive_iff_of_shape (hresize : n.op ≠ .resize) (hshape : d.shape.Positive) :
    KeepsPositive n inputs constant d ↔ Measured n inputs constant :=
  iff_of_true
    ⟨hshape, fun _ _ _ _ _ _ _ _ hg => Convolution.Geometry.strides_pos hg, fun hop => absurd hop hresize⟩
    fun hop => absurd hop hresize

/-- **Inference keeps extents above zero** exactly where the sizes of a resize are numbers. -/
theorem keepsPositive_iff (hpositive : ∀ x ∈ inputs, x.shape.Positive)
    (h : infer n inputs constant = .ok d) :
    KeepsPositive n inputs constant d ↔ Measured n inputs constant := by
  cases infers_of_infer h with
  | @pair a b shape hop hshape =>
    have hresize : n.op ≠ .resize := by rcases hop with hop | hop <;> simp [hop]
    have hbroadcast := Shape.broadcast_positive (hpositive a (by simp)) (hpositive b (by simp)) hshape
    exact keepsPositive_iff_of_shape hresize hbroadcast
  | alone hop =>
    have hresize : n.op ≠ .resize := by rcases hop with hop | hop <;> simp [hop]
    exact keepsPositive_iff_of_shape hresize (hpositive d (by simp))
  | @convolution input kernel bias p g hop hp hg hbias =>
    have hresize : n.op ≠ .resize := by
      intro he
      rw [he] at hop
      cases hop
    have hshape :=
      Convolution.Geometry.positive_outputShape (hpositive input (by simp)) (hpositive kernel (by simp)) hg
    exact keepsPositive_iff_of_shape hresize hshape
  | @resize input second p hop hp =>
    have hsize : (second.bind fun _ => constant 1) = sizeOperand (input :: second.toList) constant := by
      cases second <;> rfl
    rw [hsize] at hp
    obtain ⟨image, himage⟩ := Resize.Params.resolve_eq_ok hp
    have hshape := Resize.Params.positive_outputShape_iff himage (hpositive input (by simp)) p
    have htarget := Resize.Params.resolve_pos_iff hp
    constructor
    · intro hkeeps _ input' hinput
      obtain rfl := Option.some.inj hinput
      exact htarget.mp (hshape.mp hkeeps.shape)
    · intro hmeasured
      have hpos := htarget.mpr (hmeasured hop input rfl)
      refine ⟨hshape.mpr hpos, fun _ _ _ _ _ _ _ _ hg => Convolution.Geometry.strides_pos hg,
        fun _ input' p' hinput hp' => ?_⟩
      obtain rfl := Option.some.inj hinput
      obtain rfl := Except.ok.inj (hp.symm.trans hp')
      exact hpos

/-- A resize that takes its size from its second input. -/
def resizeNode : Node := ⟨"r", .resize, [.first "x", .first "s"], .empty, []⟩

/-- A constant size. -/
def sizeOf (height width : Binary32) : Nat → Option Tensor :=
  fun _ => some ⟨[2], .float32 [height, width], rfl⟩

/-- The descriptors of one element and of a size. -/
def resizeInputs : List Descriptor := [⟨[1, 1, 1], .float32⟩, ⟨[2], .float32⟩]

/-- One element is resized to two rows of three columns. -/
theorem sized_keepsPositive :
    (∀ x ∈ resizeInputs, x.shape.Positive) ∧
    infer resizeNode resizeInputs (sizeOf ⟨0x40000000⟩ ⟨0x40400000⟩) = .ok ⟨[2, 3, 1], .float32⟩ ∧
    KeepsPositive resizeNode resizeInputs (sizeOf ⟨0x40000000⟩ ⟨0x40400000⟩)
      ⟨[2, 3, 1], .float32⟩ := by
  have hpositive : ∀ x ∈ resizeInputs, x.shape.Positive := by
    unfold Shape.Positive
    decide
  have hinfer : infer resizeNode resizeInputs (sizeOf ⟨0x40000000⟩ ⟨0x40400000⟩) =
      .ok ⟨[2, 3, 1], .float32⟩ := by decide +kernel
  refine ⟨hpositive, hinfer, (keepsPositive_iff hpositive hinfer).mpr ?_⟩
  rintro - input hinput image sizes - hsizes
  obtain rfl := Except.ok.inj hsizes
  decide +kernel

/-- A size that is no number makes no row and no column of it. -/
theorem unsized_not_keepsPositive :
    (∀ x ∈ resizeInputs, x.shape.Positive) ∧
    infer resizeNode resizeInputs (sizeOf ⟨0x7fc00000⟩ ⟨0x7fc00000⟩) = .ok ⟨[0, 0, 1], .float32⟩ ∧
    ¬ KeepsPositive resizeNode resizeInputs (sizeOf ⟨0x7fc00000⟩ ⟨0x7fc00000⟩)
      ⟨[0, 0, 1], .float32⟩ := by
  refine ⟨by unfold Shape.Positive; decide, by decide +kernel, fun hkeeps => ?_⟩
  exact absurd (hkeeps.shape 0 (by decide)) (by decide)

end Operator

end TexelFlow
