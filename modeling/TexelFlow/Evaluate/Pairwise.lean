import TexelFlow.Evaluate.Basic
import TexelFlow.Operator.Broadcast

/-!
# Pairwise operations

Two operands are broadcast against each other. An element of the result stands at coordinates; each
operand is read at the same coordinates, less the leading axes it does not have and with zero along
the axes where it has one element only.
-/

namespace TexelFlow.Pairwise

/-- The coordinates of a row-major position, by the strides of a shape. -/
def coordinates : List Nat → Nat → List Nat
  | [], _ => []
  | stride :: rest, position => position / stride :: coordinates rest (position % stride)

/-- The position that coordinates have in an operand of the same rank. -/
def alignedPosition : List Nat → Shape → Nat
  | c :: coords, d :: dims => (if d = 1 then 0 else c * Shape.count dims) + alignedPosition coords dims
  | _, _ => 0

/-- The position that coordinates have in an operand. -/
def operandPosition (coords : List Nat) (shape : Shape) : Nat :=
  alignedPosition (coords.drop (coords.length - shape.length)) shape

/-- The element of the result at a position. -/
def element (op : Binary32 → Binary32 → Binary32) (shape : Shape) (a b : Values) (position : Nat) :
    Outcome Binary32 := do
  let coords := coordinates shape.strides position
  return op (← a.read (operandPosition coords a.shape)) (← b.read (operandPosition coords b.shape))

/-- **Apply** an operation to two operands. -/
def apply (op : Binary32 → Binary32 → Binary32) (a b : Values) : Outcome Values := do
  let shape ← (a.shape.broadcast b.shape).mapError Error.shape
  let _ ← [shape, a.shape, b.shape].mapM Shape.strided
  let count ← shape.counted
  Size.reserve count elementRoom
  let elements ← (List.range count).mapM (element op shape a b)
  return ⟨shape, elements.toArray⟩

end TexelFlow.Pairwise
