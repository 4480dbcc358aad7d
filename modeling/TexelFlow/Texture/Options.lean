import TexelFlow.Error
import TexelFlow.Json.Reader
import TexelFlow.Schedule.Basic

/-!
# Limits and options

A device limits the extent of a texture, the number of its layers, and how many render targets one
draw can write. Options choose a canvas within these limits, what becomes of the leading axis, and how
many render targets an output of some size is written with.

## §1 — limits
## §2 — options
## §3 — reading
-/

namespace TexelFlow

/-! ## §1 — limits -/

/-- What a device allows. -/
structure DeviceLimits where
  /-- Largest width and height of a texture. -/
  maxDimension : Nat
  /-- Most layers of a texture. -/
  maxLayers : Nat
  /-- Most render targets of a draw. -/
  maxTargets : Nat
  deriving DecidableEq, Repr

namespace DeviceLimits

/-- Limits that every device keeps. -/
def standard : DeviceLimits := ⟨8192, 256, 2⟩

/-- Bytes of one texel: four binary32 words. -/
def texelBytes : Nat := 16

/-- The limits of a device that counts its attachments and the bytes of one sample of them all. -/
def ofDevice (dimension layers attachments bytesPerSample : Nat) : DeviceLimits :=
  ⟨dimension, layers, max 1 (min attachments (bytesPerSample / texelBytes))⟩

end DeviceLimits

namespace Layout

/-- What bounds the textures of a layout. -/
structure Limits where
  /-- Largest width. -/
  maxWidth : Nat
  /-- Largest height. -/
  maxHeight : Nat
  /-- Most layers. -/
  maxLayers : Nat
  deriving DecidableEq, Repr

/-- From how many elements on an output is written with how many render targets. -/
structure Breakpoint where
  /-- Number of elements, padded channels counted, from which it applies. -/
  threshold : Nat
  /-- Number of render targets. -/
  targets : Nat
  deriving DecidableEq, Repr

/-- Choices of a layout. -/
structure Options where
  /-- Whether channels are counted up to a multiple of four. -/
  padChannels : Bool
  /-- Numbers of render targets by size; of those that apply the last one counts. -/
  breakpoints : List Breakpoint
  deriving DecidableEq, Repr

/-- The number of render targets of an output of so many elements. -/
def Options.targetsFor (o : Options) (count : Nat) : Nat :=
  match o.breakpoints.reverse.find? fun b => b.threshold ≤ count with
  | some b => b.targets
  | none => 1

/-- What is wrong with a breakpoint on a device. -/
def Breakpoint.fault? (limits : DeviceLimits) (b : Breakpoint) : Option LimitFault :=
  if b.targets = 0 then some (.noTargets b.threshold)
  else if limits.maxTargets < b.targets then
    some (.tooManyTargets b.threshold b.targets limits.maxTargets)
  else none

end Layout

/-! ## §2 — options -/

/-- Options of an engine. -/
structure EngineOptions where
  /-- Width of the canvas. -/
  canvasWidth : Nat := 2048
  /-- Height of the canvas. -/
  canvasHeight : Nat := 2048
  /-- Largest extent of a texture that is used. -/
  viewportMaxSize : Nat := 4096
  /-- Whether tensors have a leading batch axis. -/
  hasBatch : Bool := true
  /-- Whether channels are counted up to a multiple of four. -/
  padChannels : Bool := true
  /-- Numbers of render targets by size. -/
  breakpoints : List Layout.Breakpoint := []
  deriving DecidableEq, Repr

namespace EngineOptions

/-- What is wrong with options on a device. -/
def fault? (o : EngineOptions) (limits : DeviceLimits) : Option LimitFault :=
  if o.canvasWidth = 0 ∨ o.canvasHeight = 0 ∨ o.viewportMaxSize = 0 then
    some (.canvas o.canvasWidth o.canvasHeight o.viewportMaxSize)
  else o.breakpoints.findSome? (Layout.Breakpoint.fault? limits)

/-- Check options against a device. -/
def validate (o : EngineOptions) (limits : DeviceLimits) : Outcome Unit :=
  match o.fault? limits with
  | some fault => .error (.limit fault)
  | none => .ok ()

/-- The choices of layouts. -/
def layoutOptions (o : EngineOptions) : Layout.Options := ⟨o.padChannels, o.breakpoints⟩

/-- What bounds the textures on a device. -/
def layoutLimits (o : EngineOptions) (limits : DeviceLimits) : Layout.Limits :=
  let largest := min o.viewportMaxSize limits.maxDimension
  ⟨min o.canvasWidth largest, min o.canvasHeight largest, limits.maxLayers⟩

/-- What becomes of the leading axis. -/
def batch (o : EngineOptions) : Batch := if o.hasBatch then .kept else .stripped

/-! ## §3 — reading -/

open Json (Reader)

/-- A breakpoint being read. -/
structure BreakpointFields where
  /-- Number of elements. -/
  threshold : Option Nat := none
  /-- Number of render targets. -/
  targets : Option Nat := none

/-- Read a breakpoint. -/
def breakpointReader : Reader Layout.Breakpoint :=
  Reader.record
    [.of "output_texture_element_count" false Reader.natural (·.threshold)
       fun s v => { s with threshold := some v },
     .of "number_of_render_targets" false Reader.natural (·.targets)
       fun s v => { s with targets := some v }]
    ({} : BreakpointFields)
    fun s => do return ⟨← Reader.need s.threshold, ← Reader.need s.targets⟩

/-- Read the transformations: whether channels are padded. -/
def transformationsReader : Reader Bool :=
  Reader.record
    [.of "pad_channels" true Reader.bool id fun _ v => some v]
    (none : Option Bool)
    fun s => return s.getD true

/-- Options being read. -/
structure Fields where
  /-- Width of the canvas. -/
  canvasWidth : Option Nat := none
  /-- Height of the canvas. -/
  canvasHeight : Option Nat := none
  /-- Largest extent of a texture. -/
  viewportMaxSize : Option Nat := none
  /-- Whether tensors have a batch axis. -/
  hasBatch : Option Bool := none
  /-- Whether channels are padded. -/
  padChannels : Option Bool := none
  /-- Numbers of render targets by size. -/
  breakpoints : Option (List Layout.Breakpoint) := none

/-- Read options; what is missing stays as it is by default. -/
def reader : Reader EngineOptions :=
  Reader.record
    [.of "canvas_width" true Reader.natural (·.canvasWidth)
       fun s v => { s with canvasWidth := some v },
     .of "canvas_height" true Reader.natural (·.canvasHeight)
       fun s v => { s with canvasHeight := some v },
     .of "viewport_max_size" true Reader.natural (·.viewportMaxSize)
       fun s v => { s with viewportMaxSize := some v },
     .of "has_batch_dimension" true Reader.bool (·.hasBatch)
       fun s v => { s with hasBatch := some v },
     .of "transformations" true transformationsReader (·.padChannels)
       fun s v => { s with padChannels := some v },
     .of "render_target_breakpoints" true (Reader.list breakpointReader) (·.breakpoints)
       fun s v => { s with breakpoints := some v }]
    ({} : Fields)
    fun s =>
      let usual : EngineOptions := {}
      return { canvasWidth := s.canvasWidth.getD usual.canvasWidth
               canvasHeight := s.canvasHeight.getD usual.canvasHeight
               viewportMaxSize := s.viewportMaxSize.getD usual.viewportMaxSize
               hasBatch := s.hasBatch.getD usual.hasBatch
               padChannels := s.padChannels.getD usual.padChannels
               breakpoints := s.breakpoints.getD usual.breakpoints }

/-- Read options from their text. -/
def parse (text : String) : Outcome EngineOptions :=
  match Json.read reader text with
  | .ok o => .ok o
  | .error fault => .error (.graph (.invalidOptions fault))

end EngineOptions

end TexelFlow
