import TexelFlow.Operator.Broadcast
import TexelFlow.Operator.Convolution
import TexelFlow.Operator.Resize

/-!
# Shapes of results

The shape and type of what a node computes follow from those of its inputs and, for a resize, from a
constant tensor that gives the size. Results have the type of the first input.
-/

namespace TexelFlow.Operator

/-- The shape of a pairwise operation, as a fault of its node. -/
def pairShape (node : String) (a b : Shape) : Outcome Shape :=
  (a.broadcast b).mapError fun fault => .shape (.atNode node fault)

/-- The descriptor of a convolution. A bias has one element for each output channel. -/
def inferConvolution (n : Node) (input kernel : Descriptor) (bias : Option Descriptor) :
    Outcome Descriptor := do
  let p ← Convolution.Params.ofNode n
  let g ← Convolution.Geometry.resolve n.name p input.shape kernel.shape n.op.isDepthwise
  match bias with
  | some b =>
    let count ← b.shape.counted
    if count ≠ g.outC then throw (.shape (.bias n.name count g.outC))
    else return ⟨g.outputShape input.shape, input.dtype⟩
  | none => return ⟨g.outputShape input.shape, input.dtype⟩

/-- **Infer** the descriptor of what a node computes. `constant` gives the constant tensor behind an
input, where there is one. -/
def infer (n : Node) (inputs : List Descriptor) (constant : Nat → Option Tensor) :
    Outcome Descriptor :=
  let refuse (least most : Nat) : Outcome Descriptor :=
    .error (.graph (.inputCount n.name n.op.name least most inputs.length))
  let pair : Outcome Descriptor :=
    match inputs with
    | [a, b] => do return ⟨← pairShape n.name a.shape b.shape, a.dtype⟩
    | _ => refuse 2 2
  let alone : Outcome Descriptor :=
    match inputs with
    | [a] => .ok a
    | _ => refuse 1 1
  let least := if n.op.isFused then 3 else 2
  let convolution : Outcome Descriptor :=
    match inputs with
    | [input, kernel] => if n.op.isFused then refuse least 3 else inferConvolution n input kernel none
    | [input, kernel, bias] => inferConvolution n input kernel (some bias)
    | _ => refuse least 3
  let resized (input : Descriptor) (size : Option Tensor) : Outcome Descriptor := do
    let p ← Resize.Params.resolve n input.shape size
    return ⟨p.outputShape input.shape, input.dtype⟩
  match n.op with
  | .add => pair
  | .mul => pair
  | .relu => alone
  | .identity => alone
  | .conv => convolution
  | .fusedConv => convolution
  | .depthwise => convolution
  | .fusedDepthwise => convolution
  | .resize =>
    match inputs with
    | [input] => resized input none
    | [input, _] => resized input (constant 1)
    | _ => refuse 1 2
  | .placeholder => .error (.graph (.dataNotInferred n.name n.op.name))
  | .const => .error (.graph (.dataNotInferred n.name n.op.name))
  | .unsupported kind => .error (.unsupportedOp n.name kind)

end TexelFlow.Operator
