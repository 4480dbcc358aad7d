import TexelFlow.Error

/-!
# Broadcasting

Two shapes are aligned at their last axes; the shorter one is filled up with extents of one in front.
Extents go together when they are equal or one of them is one, and then give the other one.
-/

namespace TexelFlow.Shape

/-- A shape with extents of one in front, up to a rank. -/
def padded (rank : Nat) (shape : Shape) : Shape := List.replicate (rank - shape.length) 1 ++ shape

/-- What two extents give together. -/
def joinExtent (a b : Nat) : Option Nat :=
  if a = b then some a else if a = 1 then some b else if b = 1 then some a else none

/-- What aligned extents give together from an axis on; a fault names the axis and both extents. -/
def joinFrom (axis : Nat) : List Nat → List Nat → Except (Nat × Nat × Nat) Shape
  | a :: as, b :: bs =>
    match joinExtent a b with
    | none => .error (axis, a, b)
    | some d => (joinFrom (axis + 1) as bs).map (d :: ·)
  | _, _ => .ok []

/-- **Broadcast** two shapes against each other. -/
def broadcast (a b : Shape) : Except ShapeFault Shape :=
  let rank := max a.length b.length
  match joinFrom 0 (a.padded rank) (b.padded rank) with
  | .ok shape => .ok shape
  | .error (axis, left, right) => .error (.broadcast a b axis left right)

end TexelFlow.Shape
