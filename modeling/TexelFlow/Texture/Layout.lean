import TexelFlow.Texture.Options

/-!
# Texture layouts

A tensor is stored in a texture of several layers whose texels have four lanes. Its last axis, the
channels, is cut into groups of four, one group a layer; all other axes together give the spatial
positions, which fill the texels of a layer row by row. Where one layer cannot hold all positions they
are cut into slices, each with its own run of layers:

    layer = slice · layersPerSlice + channel / 4
    texel = position within the slice
    lane  = channel mod 4

An output is written some layers at a time, so the layers of a slice are rounded up to the number of
render targets.

## §1 — layouts
## §2 — packing
## §3 — draws
-/

namespace TexelFlow

/-! ## §1 — layouts -/

/-- Where the elements of a tensor stand in a texture. -/
structure Layout where
  /-- Extents of the tensor. -/
  shape : Shape
  /-- Number of its elements. -/
  elementCount : Nat
  /-- Number of its channels. -/
  channels : Nat
  /-- Number of its channels as it is counted for render targets. -/
  paddedChannels : Nat
  /-- Number of its spatial positions. -/
  spatial : Nat
  /-- Number of its groups of four channels. -/
  channelGroups : Nat
  /-- Texels in a row of a layer. -/
  width : Nat
  /-- Rows of a layer. -/
  height : Nat
  /-- Number of slices. -/
  slices : Nat
  /-- Layers of one slice. -/
  layersPerSlice : Nat
  /-- Layers of the texture. -/
  layers : Nat
  /-- Layers written by one draw. -/
  renderTargets : Nat
  deriving DecidableEq, Repr

namespace Layout

/-- Number of lanes of a texel. -/
def lanes : Nat := 4

/-- The channels of a shape: its last extent; a scalar has one. -/
def channelsOf (shape : Shape) : Nat := shape.getLast?.getD 1

/-- The channels as they are counted for render targets. -/
def countChannels (options : Options) (channels : Nat) : Outcome Nat :=
  if options.padChannels then Size.mul (Size.divCeil channels lanes) lanes else .ok channels

/-- Restrict an extent to a range from one on. -/
def extent (wanted most : Nat) : Outcome Nat :=
  match Size.clamp wanted 1 most with
  | some n => .ok n
  | none => .error (.breach .emptyRange)

/-- **Compute** the layout of a tensor. -/
def compute (name : String) (d : Descriptor) (limits : Limits) (options : Options) :
    Outcome Layout := do
  if d.dtype = .string then throw (.limit (.strings name))
  let channels := channelsOf d.shape
  let spatial ← Shape.counted d.shape.dropLast
  if channels = 0 ∨ spatial = 0 then throw (.limit (.empty name d.shape))
  let channelGroups := Size.divCeil channels lanes
  let paddedChannels ← countChannels options channels
  let width ← extent (Size.ceilSqrt spatial) limits.maxWidth
  let height ← extent (Size.divCeil spatial width) limits.maxHeight
  let slices := Size.divCeil spatial (← Size.mul width height)
  let requested := options.targetsFor (← Size.mul spatial paddedChannels)
  let renderTargets := max (min requested channelGroups) 1
  let layersPerSlice ← Size.mul (Size.divCeil channelGroups renderTargets) renderTargets
  let layers ← Size.mul slices layersPerSlice
  if limits.maxLayers < layers then
    throw (.limit (.layers name d.shape layers slices layersPerSlice limits.maxLayers))
  let elementCount ← d.shape.counted
  return { shape := d.shape, elementCount, channels, paddedChannels, spatial, channelGroups,
           width, height, slices, layersPerSlice, layers, renderTargets }

/-- Texels of one layer. -/
def texelsPerLayer (l : Layout) : Nat := l.width * l.height

/-- Words of the texture, unused lanes included, if they can be counted. -/
def capacity (l : Layout) : Outcome Nat := do
  Size.mul (← Size.mul (← Size.mul l.width l.height) lanes) l.layers

/-- Number of elements as it is counted for render targets. -/
def paddedCount (l : Layout) : Nat := l.spatial * l.paddedChannels

/-- The layer of a channel group in a slice. -/
def layer (l : Layout) (slice group : Nat) : Nat := slice * l.layersPerSlice + group

/-! ## §2 — packing -/

/-- Place of an element, given by position and channel, among the words of the texture. -/
def offset (l : Layout) (position channel : Nat) : Nat :=
  let area := l.texelsPerLayer
  (l.layer (position / area) (channel / lanes) * area + position % area) * lanes + channel % lanes

/-- Place of an element, given by its row-major index. -/
def offsetOf (l : Layout) (i : Nat) : Nat := l.offset (i / l.channels) (i % l.channels)

/-- Write one word. -/
def write (words : Array Binary32) (place : Nat) (value : Binary32) : Outcome (Array Binary32) :=
  if h : place < words.size then .ok (words.set place value h)
  else .error (.breach .indexOutOfRange)

/-- Read one word. -/
def read (words : Array Binary32) (place : Nat) : Outcome Binary32 :=
  if h : place < words.size then .ok words[place] else .error (.breach .indexOutOfRange)

/-- Write values at the places of consecutive elements. -/
def writeFrom (l : Layout) (i : Nat) (words : Array Binary32) :
    List Binary32 → Outcome (Array Binary32)
  | [] => .ok words
  | value :: rest => do l.writeFrom (i + 1) (← write words (l.offsetOf i) value) rest

/-- **Pack** the elements of a tensor into the words of its texture; all other words are zero. Room is asked
for all words before the first is written. -/
def pack (l : Layout) (values : List Binary32) : Outcome (Array Binary32) := do
  if values.length ≠ l.elementCount then
    throw (.input (.packCount values.length l.shape l.elementCount))
  let capacity ← l.capacity
  Size.reserve capacity elementRoom
  l.writeFrom 0 (Array.replicate capacity .zero) values

/-- **Unpack** the elements of a tensor from the words of its texture. -/
def unpack (l : Layout) (words : Array Binary32) : Outcome (List Binary32) := do
  let capacity ← l.capacity
  if words.size < capacity then throw (.device (.shortRead words.size l.shape capacity))
  (List.range l.elementCount).mapM fun i => read words (l.offsetOf i)

/-! ## §3 — draws -/

/-- One pass that writes consecutive layers of a slice. -/
structure Draw where
  /-- The slice. -/
  slice : Nat
  /-- The first channel group that is written. -/
  group : Nat
  deriving DecidableEq, Repr

/-- The draws that write every layer. -/
def draws (l : Layout) : List Draw :=
  (List.range l.slices).flatMap fun slice =>
    (List.range (Size.divCeil l.layersPerSlice l.renderTargets)).map fun k =>
      ⟨slice, k * l.renderTargets⟩

end Layout

end TexelFlow
