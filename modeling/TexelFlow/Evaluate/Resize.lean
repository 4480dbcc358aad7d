import TexelFlow.Evaluate.Basic
import TexelFlow.Operator.Resize

/-!
# Bilinear resize

An element of the result is mixed from four elements of the input: those on both sides of its place
along both axes, kept inside the image.
-/

namespace TexelFlow.Resize

/-- The input elements on both sides of a place along one axis, and how far the place is from the
first. -/
structure Sides where
  /-- The element below. -/
  low : Nat
  /-- The element above. -/
  high : Nat
  /-- Distance from the element below. -/
  fraction : Binary32

/-- The sides of a place on an axis of some extent. -/
def sides (place : Binary32) (extent : Nat) : Outcome Sides := do
  let last ← Size.sub extent 1
  return { low := min (place.floor.max .zero).toSize last
           high := min (place.ceil.max .zero).toSize last
           fraction := place - place.floor }

/-- The point between two elements at a fraction of their distance. -/
def mix (a b fraction : Binary32) : Binary32 := a + (b - a) * fraction

/-- One element of the result. -/
def element (input : Values) (image : Image) (y x : Sides) (channel : Nat) : Outcome Binary32 := do
  let texel (row column : Nat) : Outcome Binary32 :=
    input.read ((row * image.width + column) * image.channels + channel)
  let upper := mix (← texel y.low x.low) (← texel y.low x.high) x.fraction
  let lower := mix (← texel y.high x.low) (← texel y.high x.high) x.fraction
  return mix upper lower y.fraction

/-- **Apply** a resize. -/
def apply (n : Node) (input : Values) (size : Option Tensor) : Outcome Values := do
  let p ← Params.resolve n input.shape size
  let image ← Image.ofShape n.name input.shape
  Size.reserve (← Size.mul (← Size.mul p.outH p.outW) image.channels) elementRoom
  let rows ← (List.range p.outH).mapM fun oy => do
    let y ← sides (p.place (p.step image.height p.outH) oy) image.height
    (List.range p.outW).mapM fun ox => do
      let x ← sides (p.place (p.step image.width p.outW) ox) image.width
      (List.range image.channels).mapM fun c => element input image y x c
  return ⟨p.outputShape input.shape, rows.flatten.flatten.toArray⟩

end TexelFlow.Resize
