import TexelFlow.Operator.Convolution
import TexelFlow.Operator.Resize
import TexelFlow.Texture.Layout

/-!
# Passes

What the program of a node computes, once the parameters of the node are resolved against the layouts
of its textures. A pass says which textures it reads and in which role.
-/

namespace TexelFlow

/-- What a program computes. -/
inductive Pass where
  /-- A pairwise operation. -/
  | pairwise
  /-- The replacement of negative elements. -/
  | relu
  /-- A convolution. -/
  | convolution (geometry : Convolution.Geometry) (activation : Activation) (depthwise hasBias : Bool)
  /-- A resize of an image of some height and width. -/
  | resize (params : Resize.Params) (inH inW : Nat)
  deriving DecidableEq

namespace Pass

/-- The layout of an input. -/
def input (inputs : List Layout) (i : Nat) : Outcome Layout :=
  match inputs[i]? with
  | some l => .ok l
  | none => .error (.breach .indexOutOfRange)

/-- The pass of a convolution node. -/
def resolveConvolution (n : Node) (inputs : List Layout) : Outcome Pass := do
  let p ← Convolution.Params.ofNode n
  let image ← input inputs 0
  let kernel ← input inputs 1
  let g ← Convolution.Geometry.resolve n.name p image.shape kernel.shape n.op.isDepthwise
  return .convolution g p.activation n.op.isDepthwise (2 < inputs.length)

/-- The pass of a resize node. -/
def resolveResize (n : Node) (inputs : List Layout) (size : Option Tensor) : Outcome Pass := do
  let layout ← input inputs 0
  let p ← Resize.Params.resolve n layout.shape size
  let image ← Image.ofShape n.name layout.shape
  return .resize p image.height image.width

/-- **Resolve** the pass of a node; `size` is the constant size of a resize. -/
def resolve (n : Node) (inputs : List Layout) (size : Option Tensor) : Outcome Pass :=
  match n.op with
  | .add => .ok .pairwise
  | .mul => .ok .pairwise
  | .relu => .ok .relu
  | .conv => resolveConvolution n inputs
  | .fusedConv => resolveConvolution n inputs
  | .depthwise => resolveConvolution n inputs
  | .fusedDepthwise => resolveConvolution n inputs
  | .resize => resolveResize n inputs size
  | op => .error (.unsupportedOp n.name op.name)

/-- The roles of the textures a pass reads, in the order of their slots. -/
def roles : Pass → List String
  | .pairwise => ["lhs", "rhs"]
  | .relu => ["input"]
  | .convolution _ _ _ true => ["input", "kernel", "bias"]
  | .convolution _ _ _ false => ["input", "kernel"]
  | .resize _ _ _ => ["input"]

end Pass

end TexelFlow
