import TexelFlow.Decimal.Shortest
import TexelFlow.Graph.Basic
import TexelFlow.Operator.Activation
import TexelFlow.Operator.Image

/-!
# Convolutions

A convolution slides a kernel over an image in steps of its strides. Its parameters come from the
attributes of a node; its geometry is what they give for the shapes of an image and a kernel. With
`same` padding there is an output for every step that starts inside the image, and the kernel may
reach over the border by equal parts on both sides, the odd element behind; with `valid` padding the
kernel stays inside.

## §1 — parameters
## §2 — geometry
-/

namespace TexelFlow

/-! ## §1 — parameters -/

/-- What happens at the border of an image. -/
inductive Padding where
  /-- The kernel may reach over the border. -/
  | same
  /-- The kernel stays inside. -/
  | valid
  deriving DecidableEq, Repr

namespace Padding

/-- Name in messages. -/
def title : Padding → String
  | .same => "Same"
  | .valid => "Valid"

/-- The padding that an attribute of a node names, in any case of its letters. -/
def parse (node text : String) : Outcome Padding :=
  match text.map Char.toLower with
  | "same" => .ok .same
  | "valid" => .ok .valid
  | other => .error (.graph (.unsupportedPadding node other))

end Padding

namespace Convolution

/-- Parameters of a convolution. -/
structure Params where
  /-- Step between two rows of the output. -/
  strideH : Nat
  /-- Step between two columns of the output. -/
  strideW : Nat
  /-- What happens at the border. -/
  padding : Padding
  /-- What is applied to every element. -/
  activation : Activation
  deriving DecidableEq, Repr

/-- Reals in messages always show a fraction. -/
def realStyle : Decimal.Style := ⟨-4, 16, false⟩

/-- Height and width of strides given for one, two or all four axes. -/
def stridePair? : List Binary64 → Option (Binary64 × Binary64)
  | [s] => some (s, s)
  | [h, w] => some (h, w)
  | [_, h, w, _] => some (h, w)
  | _ => none

/-- Read the strides of a node. -/
def readStrides (n : Node) : Outcome (Nat × Nat) := do
  let refuse (fault : AttributeFault) : Outcome (Nat × Nat) :=
    .error (.graph (.invalidAttribute n.name "strides" fault))
  match (← n.required "strides").numbers? with
  | none => refuse .stridesNotNumbers
  | some strides =>
    match stridePair? strides with
    | none => refuse .stridesCount
    | some (h, w) =>
      if h.lt .one || w.lt .one then refuse .stridesNotPositive
      else return (h.toSize, w.toSize)

/-- Read the padding of a node. -/
def readPadding (n : Node) : Outcome Padding := do
  match (← n.required "padding").string? with
  | none => .error (.graph (.invalidAttribute n.name "padding" .paddingNotText))
  | some text => Padding.parse n.name text

/-- Read the activation of a node; there is none where no text names one. -/
def readActivation (n : Node) : Outcome Activation :=
  match (n.attr "activation").bind Attribute.string? with
  | some text => Activation.parse n.name text
  | none => .ok .linear

/-- Dilations of a node that are not all one. -/
def dilations? (n : Node) : Option (List Binary64) :=
  ((n.attr "dilations").bind Attribute.numbers?).filter fun ds => ds.any fun d => !d.eq .one

/-- **Read** the parameters of a convolution node. -/
def Params.ofNode (n : Node) : Outcome Params := do
  let (strideH, strideW) ← readStrides n
  let padding ← readPadding n
  let activation ← readActivation n
  match dilations? n with
  | some ds =>
    throw (.unsupportedOp n.name
      (n.op.name ++ " with dilations " ++ Text.list (ds.map realStyle.text64)))
  | none => return { strideH, strideW, padding, activation }

/-! ## §2 — geometry -/

/-- Geometry of a convolution. -/
structure Geometry where
  /-- Rows of the input. -/
  inH : Nat
  /-- Columns of the input. -/
  inW : Nat
  /-- Channels of the input. -/
  inC : Nat
  /-- Rows of the kernel. -/
  kernelH : Nat
  /-- Columns of the kernel. -/
  kernelW : Nat
  /-- Rows of the output. -/
  outH : Nat
  /-- Columns of the output. -/
  outW : Nat
  /-- Channels of the output. -/
  outC : Nat
  /-- Step between two rows of the output. -/
  strideH : Nat
  /-- Step between two columns of the output. -/
  strideW : Nat
  /-- Rows by which the kernel reaches over the upper border. -/
  padTop : Nat
  /-- Columns by which the kernel reaches over the left border. -/
  padLeft : Nat
  /-- Output channels for each input channel where channels are treated by themselves; one otherwise. -/
  multiplier : Nat
  deriving DecidableEq, Repr

/-- Output extent along one axis, and by how much the kernel reaches over the near border. -/
def axis (node : String) (input kernel stride : Nat) (padding : Padding) : Outcome (Nat × Nat) :=
  if input = 0 ∨ stride = 0 then .error (.shape (.emptyExtent node))
  else
    match padding with
    | .same => do
      let out := Size.divCeil input stride
      let reach ← Size.add (← Size.mul (out - 1) stride) kernel
      return (out, Size.subStop reach input / 2)
    | .valid =>
      if input < kernel then .error (.shape (.kernelExtent node kernel input))
      else do return (Size.divCeil (← Size.add (input - kernel) 1) stride, 0)

/-- Channels of the output: those of the kernel, for each channel of the input where channels are treated by
themselves. -/
def outputChannels (depthwise : Bool) (channels kernelOut : Nat) : Outcome Nat :=
  if depthwise then Size.mul channels kernelOut else .ok kernelOut

/-- **Resolve** the geometry of a convolution. A kernel has the shape rows, columns, input channels,
and output channels, or multipliers where channels are treated by themselves. -/
def Geometry.resolve (node : String) (p : Params) (input kernel : Shape) (depthwise : Bool) :
    Outcome Geometry := do
  let image ← Image.ofShape node input
  match kernel with
  | [kernelH, kernelW, kernelIn, kernelOut] =>
    if kernelIn ≠ image.channels then
      throw (.shape (.kernelChannels node kernelIn image.channels))
    let (outH, padTop) ← axis node image.height kernelH p.strideH p.padding
    let (outW, padLeft) ← axis node image.width kernelW p.strideW p.padding
    let outC ← outputChannels depthwise image.channels kernelOut
    return {
      inH := image.height, inW := image.width, inC := image.channels
      kernelH, kernelW, outH, outW, outC
      strideH := p.strideH, strideW := p.strideW, padTop, padLeft
      multiplier := if depthwise then kernelOut else 1 }
  | _ => throw (.shape (.notKernel node kernel))

/-- Shape of the output, of the rank of the input. -/
def Geometry.outputShape (g : Geometry) (input : Shape) : Shape :=
  Image.inPlaceOf ⟨g.outH, g.outW, g.outC⟩ input

end Convolution

end TexelFlow
