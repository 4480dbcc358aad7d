import TexelFlow.Error
import TexelFlow.Tensor.Basic

/-!
# Values on the host

What a node gives is a shape and its elements in row-major order. Reading an element asks whether it
is there.
-/

namespace TexelFlow

/-- The elements of a tensor, widened to those of a texture. -/
structure Values where
  /-- Extents, outermost first. -/
  shape : Shape
  /-- Elements in row-major order. -/
  elements : Array Binary32
  deriving DecidableEq

namespace Values

/-- The element at a position. -/
def read (v : Values) (position : Nat) : Outcome Binary32 :=
  if h : position < v.elements.size then .ok v.elements[position]
  else .error (.breach .indexOutOfRange)

/-- The values of a tensor. -/
def ofTensor (name : String) (t : Tensor) : Outcome Values :=
  match t.widened with
  | some elements => .ok ⟨t.shape, elements.toArray⟩
  | none => .error (.input (.notNumeric name))

/-- The tensor of values, if they fill their shape. -/
def toTensor (v : Values) : Outcome Tensor :=
  match h : v.shape.counted with
  | .error e => .error e
  | .ok expected =>
    if hlength : v.elements.toList.length = expected then
      .ok ⟨v.shape, .float32 v.elements.toList, h.trans (congrArg Except.ok hlength.symm)⟩
    else .error (.breach .unfilledShape)

end Values

end TexelFlow
