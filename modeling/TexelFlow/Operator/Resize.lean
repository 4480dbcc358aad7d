import TexelFlow.Graph.Basic
import TexelFlow.Operator.Image

/-!
# Bilinear resize

A resize reads each output element at a place between the elements of its input. The target size
comes from an attribute, else from a tensor, else from factors over the size of the input. Where the
output elements stand along an axis is one of three rules: at multiples of the ratio, with both
corners aligned, or with the centres of the elements aligned.

## §1 — parameters
## §2 — places
-/

namespace TexelFlow.Resize

/-! ## §1 — parameters -/

/-- Parameters of a resize. -/
structure Params where
  /-- Rows of the output. -/
  outH : Nat
  /-- Columns of the output. -/
  outW : Nat
  /-- Whether the corner elements of input and output stand at the same places. -/
  alignCorners : Bool
  /-- Whether elements are taken at their centres. -/
  halfPixelCenters : Bool
  deriving DecidableEq, Repr

/-- Height and width from factors over an image. -/
def scaled (n : Node) (image : Image) (factors : List Binary64) : Outcome (List Binary64) :=
  let height (s : Binary64) : Binary64 := (Binary64.ofNat image.height).mul s
  let width (s : Binary64) : Binary64 := (Binary64.ofNat image.width).mul s
  match factors with
  | [h, w] => .ok [height h, width w]
  | [s] => .ok [height s, width s]
  | _ => .error (.graph (.invalidAttribute n.name "scale" .scaleCount))

/-- The target size of a node: the attribute, else the tensor, else factors. -/
def targetSize (n : Node) (image : Image) (size : Option Tensor) : Outcome (List Binary64) :=
  match (n.attr "size").bind Attribute.numbers? with
  | some dims => .ok dims
  | none =>
    match size with
    | some t => .ok ((t.widened.getD []).map Binary32.toBinary64)
    | none =>
      match (n.attr "scale").bind Attribute.numbers? with
      | some factors => scaled n image factors
      | none => .error (.graph (.resizeWithoutSize n.name))

/-- A flag of a node that is off unless it is set. -/
def flag (n : Node) (key : String) : Bool := ((n.attr key).bind Attribute.bool?).getD false

/-- **Resolve** the parameters of a resize node. -/
def Params.resolve (n : Node) (input : Shape) (size : Option Tensor) : Outcome Params := do
  let image ← Image.ofShape n.name input
  let refuse (fault : AttributeFault) : Outcome Params :=
    .error (.graph (.invalidAttribute n.name "size" fault))
  match ← targetSize n image size with
  | [h, w] =>
    if h.lt .one || w.lt .one then refuse .sizeNotPositive
    else
      return { outH := h.toSize, outW := w.toSize
               alignCorners := flag n "align_corners"
               halfPixelCenters := flag n "half_pixel_centers" }
  | _ => refuse .sizeCount

/-- Shape of the output: batch and channels stay. -/
def Params.outputShape (p : Params) (input : Shape) : Shape :=
  (input.set (input.length - 3) p.outH).set (input.length - 2) p.outW

/-! ## §2 — places -/

/-- Distance between the places of two neighbouring output elements. -/
def Params.step (p : Params) (input output : Nat) : Binary32 :=
  if p.alignCorners && 1 < output then
    (Binary32.ofNat input - .one) / (Binary32.ofNat output - .one)
  else Binary32.ofNat input / Binary32.ofNat output

/-- Place of an output element between the input elements. -/
def Params.place (p : Params) (step : Binary32) (output : Nat) : Binary32 :=
  if p.halfPixelCenters then (Binary32.ofNat output + .half) * step - .half
  else Binary32.ofNat output * step

end TexelFlow.Resize
