import TexelFlow.Operator.Infer
import TexelFlow.Proofs.Checked
import TexelFlow.Proofs.Size

/-!
# What inference accepts

Inference looks at the operation of a node and at the number of its inputs, and hands the rest to the
rules of broadcasting, of convolutions and of resizes. `Infers` lists what it accepts, one case for each
family of operations, with the fact each family rests on; later arguments go by these cases and do not
look into inference again.

## Main statements

* `Shape.broadcast_eq_ok` — both operands fit the shape they are broadcast to.
* `Convolution.Geometry.resolve_eq_ok` — the geometry of a convolution is that of its input and kernel.
* `Convolution.Geometry.axes_of_resolve` — what it is along each axis.
* `Convolution.Geometry.pads_le` — how far a kernel reaches over the border.
* `Operator.infers_of_infer` — what inference accepts.

## §1 — broadcasting
## §2 — images
## §3 — inference
-/

namespace TexelFlow

namespace Shape

/-! ## §1 — broadcasting -/

/-- A shape fits another one when, aligned at their last axes, each of its extents is that of the other
or one. -/
def Fits (a shape : Shape) : Prop :=
  a.length ≤ shape.length ∧
    List.Forall₂ (fun d e => d = e ∨ d = 1) a (shape.drop (shape.length - a.length))

variable {a b shape : Shape}

/-- Joining takes one axis after the other. -/
theorem joinFrom_cons_eq_ok_iff {x y axis : Nat} : joinFrom axis (x :: a) (y :: b) = .ok shape ↔
    ∃ e rest, joinExtent x y = some e ∧ joinFrom (axis + 1) a b = .ok rest ∧ shape = e :: rest := by
  rw [joinFrom]
  cases he : joinExtent x y with
  | none => exact iff_of_false nofun (by rintro ⟨e, rest, he, -⟩; cases he)
  | some e =>
    cases hrest : joinFrom (axis + 1) a b with
    | error fault => exact iff_of_false nofun (by rintro ⟨e, rest, -, hrest, -⟩; cases hrest)
    | ok rest =>
      constructor
      · intro h
        exact ⟨e, rest, rfl, rfl, (Except.ok.inj h).symm⟩
      · rintro ⟨_, _, he, hrest, rfl⟩
        rw [Option.some.inj he, Except.ok.inj hrest]
        rfl

/-- Joined extents are those of both sides, ones apart. -/
theorem joinFrom_eq_ok {axis : Nat} (hlength : a.length = b.length)
    (h : joinFrom axis a b = .ok shape) :
    List.Forall₂ (fun d e => d = e ∨ d = 1) a shape ∧
      List.Forall₂ (fun d e => d = e ∨ d = 1) b shape := by
  induction a generalizing axis b shape with
  | nil =>
    obtain rfl := List.length_eq_zero_iff.mp hlength.symm
    cases h
    exact ⟨.nil, .nil⟩
  | cons x a ih =>
    match b, hlength with
    | y :: b, hlength =>
      obtain ⟨e, rest, he, hrest, rfl⟩ := joinFrom_cons_eq_ok_iff.mp h
      obtain ⟨ha, hb⟩ := ih (Nat.succ.inj hlength) hrest
      unfold joinExtent at he
      refine ⟨.cons ?_ ha, .cons ?_ hb⟩ <;> grind

theorem length_padded {rank : Nat} (h : a.length ≤ rank) : (a.padded rank).length = rank := by
  unfold padded
  rw [List.length_append, List.length_replicate]
  omega

theorem drop_padded {rank : Nat} : (a.padded rank).drop (rank - a.length) = a := by
  unfold padded
  have hlength : rank - a.length = (List.replicate (rank - a.length) 1).length :=
    List.length_replicate.symm
  conv_lhs => rw [hlength]
  rw [List.length_replicate]
  exact List.drop_left' List.length_replicate

/-- A padded shape that goes along with another one fits it. -/
theorem fits_of_padded {rank : Nat} (hrank : a.length ≤ rank)
    (h : List.Forall₂ (fun d e => d = e ∨ d = 1) (a.padded rank) shape) : a.Fits shape := by
  have hlength : shape.length = rank := by rw [← h.length_eq, length_padded hrank]
  refine ⟨by omega, ?_⟩
  have hdrop := List.forall₂_drop (rank - a.length) h
  rw [drop_padded] at hdrop
  rwa [hlength]

/-- **Both operands fit** the shape they are broadcast to. -/
theorem broadcast_eq_ok (h : a.broadcast b = .ok shape) : a.Fits shape ∧ b.Fits shape := by
  unfold broadcast at h
  dsimp only at h
  split at h
  · rename_i joined hjoined
    obtain rfl := Except.ok.inj h
    have ha : a.length ≤ max a.length b.length := Nat.le_max_left _ _
    have hb : b.length ≤ max a.length b.length := Nat.le_max_right _ _
    have hlength : (a.padded (max a.length b.length)).length =
        (b.padded (max a.length b.length)).length := by rw [length_padded ha, length_padded hb]
    obtain ⟨hleft, hright⟩ := joinFrom_eq_ok hlength hjoined
    exact ⟨fits_of_padded ha hleft, fits_of_padded hb hright⟩
  · cases h

/-- An operand that fits has no more elements. -/
theorem Fits.prod_le (h : a.Fits shape) (hpos : 0 < shape.prod) :
    0 < a.prod ∧ a.prod ≤ shape.prod := by
  obtain ⟨-, haligned⟩ := h
  have hsplit : (shape.take (shape.length - a.length)).prod * (shape.drop (shape.length - a.length)).prod =
      shape.prod := List.prod_take_mul_prod_drop ..
  generalize shape.drop (shape.length - a.length) = dims at haligned hsplit
  rw [← hsplit] at hpos ⊢
  have hle : dims.prod ≤ _ * dims.prod := Nat.le_mul_of_pos_left _ (Nat.pos_of_mul_pos_right hpos)
  have hdims : 0 < dims.prod := Nat.pos_of_mul_pos_left hpos
  have hjoined : 0 < a.prod ∧ a.prod ≤ dims.prod := by
    clear hsplit hle hpos
    induction haligned with
    | nil => exact ⟨Nat.one_pos, Nat.le_refl 1⟩
    | @cons d e a dims hde _ ih =>
      rw [List.prod_cons] at hdims
      have he : 0 < e := Nat.pos_of_mul_pos_right hdims
      obtain ⟨hpos, hle⟩ := ih (Nat.pos_of_mul_pos_left hdims)
      rw [List.prod_cons, List.prod_cons]
      exact ⟨Nat.mul_pos (by omega) hpos, Nat.mul_le_mul (by omega) hle⟩
  omega

end Shape

/-! ## §2 — images -/

namespace Image

variable {node : String} {shape : Shape} {image : Image}

/-- An image is the last three extents of a shape, behind a batch of one or none. -/
theorem ofShape_eq_ok (h : ofShape node shape = .ok image) :
    ∃ batch : Shape, (batch = [] ∨ batch = [1]) ∧
      shape = batch ++ [image.height, image.width, image.channels] := by
  unfold ofShape at h
  split at h
  · obtain rfl := Except.ok.inj h
    exact ⟨[], .inl rfl, rfl⟩
  · split at h
    · rename_i hbatch
      obtain rfl := Except.ok.inj h
      exact ⟨[1], .inr rfl, by rw [hbatch]; rfl⟩
    · cases h
  · cases h

/-- A shape made for an image is read as that image. -/
theorem ofShape_inPlaceOf (h : ofShape node shape = .ok image) (image' : Image) :
    ofShape node (image'.inPlaceOf shape) = .ok image' := by
  obtain ⟨batch, rfl | rfl, rfl⟩ := ofShape_eq_ok h
  · rfl
  · rfl

/-- The rows of an image that stands in a counted shape fit a word. -/
theorem height_lt (h : ofShape node shape = .ok image) (hcounted : shape.Counted) :
    image.height < Size.modulus := by
  obtain ⟨batch, rfl | rfl, rfl⟩ := ofShape_eq_ok h
  · simpa using hcounted [image.height] (by simp)
  · simpa using hcounted [1, image.height] (by simp)

theorem prod_of_ofShape (h : ofShape node shape = .ok image) :
    shape.prod = image.height * image.width * image.channels := by
  obtain ⟨batch, rfl | rfl, rfl⟩ := ofShape_eq_ok h
  · simp [Nat.mul_assoc]
  · simp [Nat.mul_assoc]

theorem prod_inPlaceOf (h : ofShape node shape = .ok image) (image' : Image) :
    (image'.inPlaceOf shape).prod = image'.height * image'.width * image'.channels := by
  unfold inPlaceOf
  obtain ⟨batch, rfl | rfl, rfl⟩ := ofShape_eq_ok h
  · simp [Nat.mul_assoc]
  · simp [Nat.mul_assoc]

end Image

/-- The elements of a resized image. -/
theorem Resize.Params.prod_outputShape {node : String} {shape : Shape} {image : Image}
    (h : Image.ofShape node shape = .ok image) (p : Resize.Params) :
    (p.outputShape shape).prod = p.outH * p.outW * image.channels := by
  unfold outputShape
  obtain ⟨batch, rfl | rfl, rfl⟩ := Image.ofShape_eq_ok h
  · simp [Nat.mul_assoc]
  · simp [Nat.mul_assoc]

/-- A resize reads an image. -/
theorem Resize.Params.resolve_eq_ok {n : Node} {input : Shape} {size : Option Tensor}
    {p : Resize.Params} (h : resolve n input size = .ok p) :
    ∃ image, Image.ofShape n.name input = .ok image := by
  unfold resolve at h
  obtain ⟨image, himage, -⟩ := Outcome.bind_eq_ok_iff.mp h
  exact ⟨image, himage⟩

/-- Channels of the output are those of the kernel, for each channel of the input where channels are treated by
themselves. -/
theorem Convolution.outputChannels_eq {depthwise : Bool} {channels kernelOut outC : Nat}
    (h : outputChannels depthwise channels kernelOut = .ok outC) :
    outC = if depthwise then channels * kernelOut else kernelOut := by
  unfold outputChannels at h
  cases depthwise with
  | false => exact (Except.ok.inj h).symm
  | true => exact (Size.mul_eq_ok_iff.mp h).2.symm

/-- **The geometry of a convolution** is that of its input and kernel. -/
theorem Convolution.Geometry.resolve_eq_ok {node : String} {p : Convolution.Params}
    {input kernel : Shape} {depthwise : Bool} {g : Convolution.Geometry}
    (h : resolve node p input kernel depthwise = .ok g) :
    Image.ofShape node input = .ok ⟨g.inH, g.inW, g.inC⟩ ∧
      ∃ kernelOut, kernel = [g.kernelH, g.kernelW, g.inC, kernelOut] ∧
        outputChannels depthwise g.inC kernelOut = .ok g.outC ∧
        g.multiplier = if depthwise then kernelOut else 1 := by
  unfold resolve at h
  obtain ⟨image, himage, h⟩ := Outcome.bind_eq_ok_iff.mp h
  split at h
  · obtain ⟨hchannels, h⟩ := Outcome.check_eq_ok_iff.mp h
    obtain ⟨⟨outH, padTop⟩, -, h⟩ := Outcome.bind_eq_ok_iff.mp h
    obtain ⟨⟨outW, padLeft⟩, -, h⟩ := Outcome.bind_eq_ok_iff.mp h
    obtain ⟨outC, hout, h⟩ := Outcome.bind_eq_ok_iff.mp h
    obtain rfl := Outcome.pure_eq_ok_iff.mp h
    refine ⟨himage, _, ?_, hout, rfl⟩
    rw [Classical.not_not.mp hchannels]
  · exact absurd h (by simp)

theorem Padding.parse_same (node : String) : parse node "same" = .ok .same := by
  unfold parse
  rw [show "same".map Char.toLower = "same" by decide +kernel]
  rfl

theorem Padding.parse_valid (node : String) : parse node "valid" = .ok .valid := by
  unfold parse
  rw [show "valid".map Char.toLower = "valid" by decide +kernel]
  rfl

/-- A kernel reaches over the near border by no more than half of what it reaches at all. -/
theorem Convolution.pad_le_of_axis {node : String} {input kernel stride out pad : Nat} {padding : Padding}
    (h : axis node input kernel stride padding = .ok (out, pad)) :
    2 * pad ≤ (out - 1) * stride + kernel := by
  unfold axis at h
  split at h
  · cases h
  · cases padding with
    | same =>
      obtain ⟨steps, hsteps, h⟩ := Outcome.bind_eq_ok_iff.mp h
      obtain ⟨reach, hreach, h⟩ := Outcome.bind_eq_ok_iff.mp h
      obtain ⟨-, rfl⟩ := Size.mul_eq_ok_iff.mp hsteps
      obtain ⟨-, rfl⟩ := Size.add_eq_ok_iff.mp hreach
      obtain ⟨rfl, rfl⟩ := Prod.mk.inj (Outcome.pure_eq_ok_iff.mp h)
      unfold Size.subStop
      omega
    | valid =>
      dsimp only at h
      split at h
      · cases h
      · obtain ⟨_, -, h⟩ := Outcome.bind_eq_ok_iff.mp h
        obtain ⟨-, rfl⟩ := Prod.mk.inj (Outcome.pure_eq_ok_iff.mp h)
        exact Nat.zero_le _

/-- Along an axis that a word holds there are no more outputs than a word holds. -/
theorem Convolution.out_lt_of_axis {node : String} {input kernel stride out pad : Nat} {padding : Padding}
    (hinput : input < Size.modulus) (h : axis node input kernel stride padding = .ok (out, pad)) :
    out < Size.modulus := by
  unfold axis at h
  split at h
  · cases h
  · rename_i hpos
    have hstride : 0 < stride := by omega
    cases padding with
    | same =>
      obtain ⟨steps, -, h⟩ := Outcome.bind_eq_ok_iff.mp h
      obtain ⟨reach, -, h⟩ := Outcome.bind_eq_ok_iff.mp h
      obtain ⟨rfl, -⟩ := Prod.mk.inj (Outcome.pure_eq_ok_iff.mp h)
      exact (Size.divCeil_le hstride).trans_lt hinput
    | valid =>
      dsimp only at h
      split at h
      · cases h
      · obtain ⟨starts, hstarts, h⟩ := Outcome.bind_eq_ok_iff.mp h
        obtain ⟨hlt, rfl⟩ := Size.add_eq_ok_iff.mp hstarts
        obtain ⟨rfl, -⟩ := Prod.mk.inj (Outcome.pure_eq_ok_iff.mp h)
        exact (Size.divCeil_le hstride).trans_lt hlt

/-- **The axes of a geometry**: extents, borders and strides along each of them. -/
theorem Convolution.Geometry.axes_of_resolve {node : String} {p : Convolution.Params} {input kernel : Shape}
    {depthwise : Bool} {g : Convolution.Geometry} (h : resolve node p input kernel depthwise = .ok g) :
    axis node g.inH g.kernelH g.strideH p.padding = .ok (g.outH, g.padTop) ∧
      axis node g.inW g.kernelW g.strideW p.padding = .ok (g.outW, g.padLeft) := by
  unfold resolve at h
  obtain ⟨image, -, h⟩ := Outcome.bind_eq_ok_iff.mp h
  split at h
  · obtain ⟨-, h⟩ := Outcome.check_eq_ok_iff.mp h
    obtain ⟨⟨outH, padTop⟩, hrows, h⟩ := Outcome.bind_eq_ok_iff.mp h
    obtain ⟨⟨outW, padLeft⟩, hcolumns, h⟩ := Outcome.bind_eq_ok_iff.mp h
    obtain ⟨outC, -, h⟩ := Outcome.bind_eq_ok_iff.mp h
    obtain rfl := Outcome.pure_eq_ok_iff.mp h
    exact ⟨hrows, hcolumns⟩
  · exact absurd h (by simp)

/-- The borders of both axes of a geometry. -/
theorem Convolution.Geometry.pads_le {node : String} {p : Convolution.Params} {input kernel : Shape}
    {depthwise : Bool} {g : Convolution.Geometry} (h : resolve node p input kernel depthwise = .ok g) :
    2 * g.padTop ≤ (g.outH - 1) * g.strideH + g.kernelH ∧
      2 * g.padLeft ≤ (g.outW - 1) * g.strideW + g.kernelW :=
  ⟨pad_le_of_axis (axes_of_resolve h).1, pad_le_of_axis (axes_of_resolve h).2⟩

/-! ## §3 — inference -/

namespace Operator

/-- **What inference accepts**: the descriptors of the inputs of a node and that of its result.
`constant` gives the constant tensor behind an input. -/
inductive Infers (n : Node) (constant : Nat → Option Tensor) : List Descriptor → Descriptor → Prop
  /-- A pairwise operation broadcasts its two operands. -/
  | pair {a b : Descriptor} {shape : Shape} (hop : n.op = .add ∨ n.op = .mul)
      (h : a.shape.broadcast b.shape = .ok shape) : Infers n constant [a, b] ⟨shape, a.dtype⟩
  /-- An element-wise operation keeps its operand's shape. -/
  | alone {a : Descriptor} (hop : n.op = .relu ∨ n.op = .identity) : Infers n constant [a] a
  /-- A convolution has a geometry, and a bias one element for each output channel. -/
  | convolution {input kernel : Descriptor} {bias : Option Descriptor} {p : Convolution.Params}
      {g : Convolution.Geometry} (hop : n.op.isConvolution) (hp : Convolution.Params.ofNode n = .ok p)
      (hg : Convolution.Geometry.resolve n.name p input.shape kernel.shape n.op.isDepthwise = .ok g)
      (hbias : ∀ b ∈ bias, b.shape.counted = .ok g.outC) :
      Infers n constant (input :: kernel :: bias.toList) ⟨g.outputShape input.shape, input.dtype⟩
  /-- A resize may have a second input that gives its size. -/
  | resize {input : Descriptor} (second : Option Descriptor) {p : Resize.Params}
      (hop : n.op = .resize)
      (hp : Resize.Params.resolve n input.shape (second.bind fun _ => constant 1) = .ok p) :
      Infers n constant (input :: second.toList) ⟨p.outputShape input.shape, input.dtype⟩

variable {n : Node} {constant : Nat → Option Tensor} {inputs : List Descriptor} {d : Descriptor}

theorem pairShape_eq_ok {node : String} {a b shape : Shape} (h : pairShape node a b = .ok shape) :
    a.broadcast b = .ok shape := by
  unfold pairShape at h
  cases hjoin : a.broadcast b with
  | error fault =>
    rw [hjoin] at h
    cases h
  | ok joined =>
    rw [hjoin] at h
    rw [Except.ok.inj h]

theorem infers_of_inferConvolution {input kernel : Descriptor} (bias : Option Descriptor)
    (hop : n.op.isConvolution) (h : inferConvolution n input kernel bias = .ok d) :
    Infers n constant (input :: kernel :: bias.toList) d := by
  unfold inferConvolution at h
  obtain ⟨p, hp, h⟩ := Outcome.bind_eq_ok_iff.mp h
  obtain ⟨g, hg, h⟩ := Outcome.bind_eq_ok_iff.mp h
  cases bias with
  | none =>
    obtain rfl := Outcome.pure_eq_ok_iff.mp h
    exact .convolution hop hp hg fun b hb => absurd hb (by simp)
  | some b =>
    obtain ⟨count, hcount, h⟩ := Outcome.bind_eq_ok_iff.mp h
    split at h
    · exact absurd h (by simp)
    · rename_i hsame
      obtain rfl := Outcome.pure_eq_ok_iff.mp h
      refine .convolution hop hp hg fun b' hb' => ?_
      obtain rfl := Option.some.inj hb'
      rw [hcount, Classical.not_not.mp hsame]

/-- **Inference accepts nothing else.** -/
theorem infers_of_infer (h : infer n inputs constant = .ok d) : Infers n constant inputs d := by
  unfold infer at h
  dsimp only at h
  split at h
  case h_1 hop | h_2 hop =>
    split at h
    · obtain ⟨shape, hshape, h⟩ := Outcome.bind_eq_ok_iff.mp h
      obtain rfl := Outcome.pure_eq_ok_iff.mp h
      exact .pair (by simp [hop]) (pairShape_eq_ok hshape)
    · cases h
  case h_3 hop | h_4 hop =>
    split at h
    · cases h
      exact .alone (by simp [hop])
    · cases h
  case h_5 hop | h_6 hop | h_7 hop | h_8 hop =>
    have hconvolution : n.op.isConvolution := by
      rw [hop]
      rfl
    split at h
    · split at h
      · cases h
      · exact infers_of_inferConvolution none hconvolution h
    · exact infers_of_inferConvolution (some _) hconvolution h
    · cases h
  case h_9 hop =>
    split at h
    · obtain ⟨p, hp, h⟩ := Outcome.bind_eq_ok_iff.mp h
      obtain rfl := Outcome.pure_eq_ok_iff.mp h
      exact .resize none hop hp
    · obtain ⟨p, hp, h⟩ := Outcome.bind_eq_ok_iff.mp h
      obtain rfl := Outcome.pure_eq_ok_iff.mp h
      exact .resize (some _) hop hp
    · cases h
  all_goals cases h

/-- A convolution that is accepted has a geometry, and its result the shape that the geometry gives. -/
theorem exists_geometry_of_infer {i k o : Descriptor} {bias : Option Descriptor}
    (hop : n.op.isConvolution) (h : infer n (i :: k :: bias.toList) constant = .ok o) :
    ∃ p g, Convolution.Params.ofNode n = .ok p ∧
      Convolution.Geometry.resolve n.name p i.shape k.shape n.op.isDepthwise = .ok g ∧
      (∀ b ∈ bias, b.shape.counted = .ok g.outC) ∧ o.shape = g.outputShape i.shape := by
  have hinfers := infers_of_infer h
  generalize hinputs : i :: k :: bias.toList = inputs at hinfers
  cases hinfers with
  | pair hop' => obtain hop' | hop' := hop' <;> simp [hop', isConvolution] at hop
  | alone hop' => obtain hop' | hop' := hop' <;> simp [hop', isConvolution] at hop
  | resize second hop' => simp [hop', isConvolution] at hop
  | @convolution _ _ bias' p g _ hp hg hbias =>
    obtain ⟨rfl, rfl, htail⟩ : _ ∧ _ ∧ _ := by simpa using hinputs
    have hsame : bias = bias' := by
      cases bias <;> cases bias' <;> simp_all
    exact ⟨p, g, hp, hg, hsame ▸ hbias, rfl⟩

end Operator

end TexelFlow
