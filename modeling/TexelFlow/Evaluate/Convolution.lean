import TexelFlow.Evaluate.Basic
import TexelFlow.Operator.Convolution

/-!
# Convolution

An element of the result is a sum of products. Its products pair elements of the input with elements
of the kernel: along each axis, the kernel elements that meet the image. The pairs of one element are
listed first and then added up in their order, from the bias on.
-/

namespace TexelFlow.Convolution

/-- Where a kernel meets an image along one axis, for one element of the result: positions in the
kernel and in the image. -/
def taps (output stride pad kernel input : Nat) : List (Nat × Nat) :=
  (List.range kernel).filterMap fun k =>
    let reach := output * stride + k
    if reach < pad then none
    else if input ≤ reach - pad then none
    else some (k, reach - pad)

/-- The elements of input and kernel that are multiplied where the kernel element `ky, kx` meets the
image at `iy, ix`, for the output channel `co`. -/
def pairsAt (g : Geometry) (depthwise : Bool) (co ky iy kx ix : Nat) : List (Nat × Nat) :=
  let pixel := (iy * g.inW + ix) * g.inC
  let tap := ky * g.kernelW + kx
  if depthwise then [(pixel + co / g.multiplier, tap * g.outC + co)]
  else (List.range g.inC).map fun ci => (pixel + ci, (tap * g.inC + ci) * g.outC + co)

/-- The elements of input and kernel that are multiplied for one element of the result, in the order
in which the products are added. -/
def pairs (g : Geometry) (depthwise : Bool) (oy ox co : Nat) : List (Nat × Nat) :=
  (taps oy g.strideH g.padTop g.kernelH g.inH).flatMap fun (ky, iy) =>
    (taps ox g.strideW g.padLeft g.kernelW g.inW).flatMap fun (kx, ix) =>
      pairsAt g depthwise co ky iy kx ix

/-- Add products up, from a first summand on. -/
def accumulate (input kernel : Values) (first : Binary32) (products : List (Nat × Nat)) :
    Outcome Binary32 :=
  products.foldlM (fun acc (i, k) => do return acc + (← input.read i) * (← kernel.read k)) first

/-- The first summand of an output channel. -/
def start (bias : Option Values) (co : Nat) : Outcome Binary32 :=
  match bias with
  | some b => b.read co
  | none => .ok .zero

/-- One element of the result. -/
def element (p : Params) (g : Geometry) (depthwise : Bool) (input kernel : Values)
    (bias : Option Values) (oy ox co : Nat) : Outcome Binary32 := do
  return p.activation.apply
    (← accumulate input kernel (← start bias co) (pairs g depthwise oy ox co))

/-- **Apply** a convolution. -/
def apply (n : Node) (input kernel : Values) (bias : Option Values) : Outcome Values := do
  let p ← Params.ofNode n
  let depthwise := n.op.isDepthwise
  let g ← Geometry.resolve n.name p input.shape kernel.shape depthwise
  Size.reserve (← Size.mul (← Size.mul g.outH g.outW) g.outC) elementRoom
  let rows ← (List.range g.outH).mapM fun oy =>
    (List.range g.outW).mapM fun ox =>
      (List.range g.outC).mapM fun co => element p g depthwise input kernel bias oy ox co
  return ⟨g.outputShape input.shape, rows.flatten.flatten.toArray⟩

end TexelFlow.Convolution
