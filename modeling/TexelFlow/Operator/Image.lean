import TexelFlow.Error

/-!
# Images

An image has a height, a width and channels. It may stand in a batch of one.
-/

namespace TexelFlow

/-- The extents of an image. -/
structure Image where
  /-- Number of rows. -/
  height : Nat
  /-- Number of columns. -/
  width : Nat
  /-- Number of channels. -/
  channels : Nat
  deriving DecidableEq, Repr

namespace Image

/-- The image a node reads from a shape. -/
def ofShape (node : String) (shape : Shape) : Outcome Image :=
  match shape with
  | [h, w, c] => .ok ⟨h, w, c⟩
  | [n, h, w, c] => if n = 1 then .ok ⟨h, w, c⟩ else .error (.shape (.batch node n))
  | _ => .error (.shape (.notImage node shape))

/-- A shape with other extents in the place of its image; a batch stays in front. -/
def inPlaceOf (image : Image) (shape : Shape) : Shape :=
  shape.take (shape.length - 3) ++ [image.height, image.width, image.channels]

end Image

end TexelFlow
