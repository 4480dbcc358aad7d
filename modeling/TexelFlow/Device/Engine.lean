import TexelFlow.Device.HostTensor
import TexelFlow.Device.Lifecycle
import TexelFlow.Shader.Compile

/-!
# Engines

An engine runs compiled graphs on a device. Compiling uploads the weights; preparing allocates all
textures, builds a pipeline for each shader text and a buffer through which outputs are read back; a
run uploads its inputs, draws, and reads the outputs. The device takes part by accepting or refusing
each of these steps and by giving the words of a texture; each call may meet another device, so every
history of failures is covered. A failure of the device fails the engine until it compiles again.

## §1 — devices
## §2 — engines
## §3 — compiling and preparing
## §4 — running
-/

namespace TexelFlow

/-! ## §1 — devices -/

/-- What an engine asks a device to do. -/
inductive DeviceStep where
  /-- Upload the weights. -/
  | uploadWeights
  /-- Prepare a run, with a readback buffer of some bytes. -/
  | prepare (readbackBytes : Nat)
  /-- Upload the inputs and draw. -/
  | draw
  /-- Read an output. -/
  | read (output : String)
  deriving DecidableEq, Repr

/-- Name of a step in messages. -/
def DeviceStep.name : DeviceStep → String
  | .uploadWeights => "upload the weights"
  | .prepare _ => "prepare a run"
  | .draw => "draw"
  | .read _ => "read an output"

/-- A device as an engine meets it. -/
structure Device where
  /-- What it allows. -/
  limits : DeviceLimits
  /-- Most render targets with which a pipeline can be built. What a device allows may be more. -/
  pipelineTargets : Nat
  /-- Which steps it accepts. -/
  accepts : DeviceStep → Bool
  /-- The words of the texture of a node once everything is drawn. -/
  texture : String → Layout → Array Binary32

namespace Device

/-- Ask a device to do something. -/
def ask (d : Device) (step : DeviceStep) : Outcome Unit :=
  if d.accepts step then .ok () else .error (.device (.refused step.name))

/-- Largest buffer that a device without hardware allocates. -/
def idleBufferBytes : Nat := 2147483647

/-- A device without hardware: it computes nothing and accepts everything but too large a buffer. -/
def idle : Device where
  limits := ⟨2147483647, 2147483647, 134217727⟩
  pipelineTargets := 8
  accepts
    | .prepare bytes => bytes ≤ idleBufferBytes
    | _ => true
  texture _ layout := Array.replicate (layout.texelsPerLayer * Layout.lanes * layout.layers) .zero

end Device

/-! ## §2 — engines -/

/-- What preparing gives. -/
structure Prepared where
  /-- Number of pipelines. -/
  pipelines : Nat
  /-- Size of the readback buffer. -/
  readbackBytes : Nat
  deriving DecidableEq, Repr

/-- An engine. -/
structure Engine where
  /-- Its options. -/
  options : EngineOptions
  /-- What its device allows. -/
  limits : DeviceLimits
  /-- Where it stands. -/
  phase : Phase
  /-- The compiled graph. -/
  compiled : Option Compiled
  /-- What is prepared for runs. -/
  prepared : Option Prepared

namespace Engine

/-- An engine on a device, if the device can honour the options. -/
def new (d : Device) (o : EngineOptions) : Outcome Engine := do
  o.validate d.limits
  return { options := o, limits := d.limits, phase := .uninitialized, compiled := none, prepared := none }

/-- Whether an error comes from the device. -/
def isDeviceFailure : Error → Bool
  | .device _ => true
  | _ => false

/-- An engine after one of its operations gave an error. -/
def afterError (e : Engine) (error : Error) : Engine :=
  let failed := isDeviceFailure error
  { e with
    prepared := if failed then none else e.prepared
    phase := e.phase.afterError failed }

/-- Number of pipelines. -/
def pipelines (e : Engine) : Nat :=
  match e.prepared with
  | some p => p.pipelines
  | none => 0

/-! ## §3 — compiling and preparing -/

/-- The words of a weight's texture. -/
def weightWords (w : String × Tensor × Layout) : Outcome (Array Binary32) :=
  match w.2.1.widened with
  | some values => w.2.2.pack values
  | none => .error (.tensor (.weightNotNumeric w.1 w.2.1.dtype))

/-- Upload the weights of a compiled graph. -/
def uploadWeights (d : Device) (c : Compiled) : Outcome Unit := do
  let _ ← c.weights.mapM weightWords
  d.ask .uploadWeights

/-- **Compile** a description for the engine's device. Whatever was compiled before is gone, also where
this one fails. -/
def compile [Wgsl.Validator] (e : Engine) (d : Device) (description : Model.Description) (weights : Tensors)
    (r : CompileRequest) : Outcome Unit × Engine :=
  match e.phase.after .compile with
  | .error error => (.error error, e)
  | .ok next =>
    let e := { e with phase := .uninitialized, compiled := none, prepared := none }
    match Compiled.ofDescription description weights e.options e.limits r with
    | .error error => (.error error, e)
    | .ok c =>
      match uploadWeights d c with
      | .error error => (.error error, e.afterError error)
      | .ok () => (.ok (), { e with phase := next, compiled := some c })

/-- Rows of a buffer start at multiples of this. -/
def rowAlignment : Nat := 256

/-- Bytes of one row of a texture in a buffer. -/
def rowBytes (width : Nat) : Outcome Nat := do
  Size.mul (Size.divCeil (← Size.mul width DeviceLimits.texelBytes) rowAlignment) rowAlignment

/-- Bytes of a texture in a buffer. -/
def readbackBytes (l : Layout) : Outcome Nat := do
  Size.mul (← Size.mul (← rowBytes l.width) l.height) l.layers

/-- Least size of a buffer. -/
def leastBuffer : Nat := 4

/-- What a compiled graph needs for its runs: a pipeline for each shader text, and a buffer for the
largest output. -/
def plan (c : Compiled) : Outcome Prepared := do
  let outputs := c.schedule.outputs.filterMap fun o => c.layouts.find? o.node
  return { pipelines := (c.programs.map Program.source).eraseDups.length
           readbackBytes := (← outputs.mapM readbackBytes).foldl max 0 }

/-- Whether a pipeline can be built for every program. -/
def hasPipelines (d : Device) (c : Compiled) : Bool :=
  c.programs.all fun p => p.renderTargets ≤ d.pipelineTargets

/-- Build what runs need: first the pipelines, then the buffer. -/
def build (e : Engine) (d : Device) : Outcome Prepared := do
  match e.compiled with
  | none => throw (.order .noGraph)
  | some c =>
    if !hasPipelines d c then throw (.breach .targets)
    let p ← plan c
    d.ask (.prepare (max p.readbackBytes leastBuffer))
    return p

/-- **Prepare** the engine for runs. Once it is ready this changes nothing. -/
def prepare (e : Engine) (d : Device) : Outcome Unit × Engine :=
  match e.phase.after .prepare with
  | .error error => (.error error, e)
  | .ok next =>
    match e.prepared with
    | some _ => (.ok (), { e with phase := next })
    | none =>
      match e.build d with
      | .error error => (.error error, e.afterError error)
      | .ok p => (.ok (), { e with phase := next, prepared := some p })

/-! ## §4 — running -/

/-- The inputs as the compiled graph takes them. -/
def bind (e : Engine) (given : Tensors) : Outcome Tensors :=
  match e.compiled with
  | some c =>
    if e.phase.isCompiled then c.schedule.bind given
    else .error (.order (.cannotBind e.phase.name))
  | none => .error (.order (.cannotBind e.phase.name))

/-- The words of an input's texture. -/
def inputWords (c : Compiled) (input : String × Tensor) : Outcome (Array Binary32) :=
  match input.2.widened with
  | none => .error (.tensor (.inputNotNumeric input.1))
  | some values =>
    match c.layouts.find? input.1 with
    | some l => l.pack values
    | none => .error (.graph (.noLayout input.1))

/-- Read one output. -/
def readOutput (d : Device) (c : Compiled) (o : OutputSpec) : Outcome (String × HostTensor) := do
  match c.schedule.descriptors.find? o.node, c.layouts.find? o.node with
  | some descriptor, some l =>
    d.ask (.read o.node)
    let values ← l.unpack (d.texture o.node l)
    return (o.name, ← HostTensor.ofReadback values descriptor)
  | _, _ => throw (.device (.noDescriptor o.name))

/-- Upload bound inputs, draw, and read the outputs. -/
def execute (e : Engine) (d : Device) (bound : Tensors) : Outcome (Named HostTensor) := do
  match e.compiled, e.prepared with
  | some c, some _ =>
    let _ ← bound.entries.mapM (inputWords c)
    d.ask .draw
    return .ofList (← c.schedule.outputs.mapM (readOutput d c))
  | _, _ => throw (.order (.cannotExecute e.phase.name))

/-- Run a prepared engine. -/
def runPrepared (e : Engine) (d : Device) (inputs : List (String × HostTensor)) :
    Outcome (Named HostTensor) × Engine :=
  match e.phase.after .begin with
  | .error error => (.error error, e)
  | .ok inProgress =>
    match HostTensor.toTensors inputs >>= e.bind with
    | .error error => (.error error, e)
    | .ok bound =>
      let e := { e with phase := inProgress }
      match e.execute d bound with
      | .error error => (.error error, e.afterError error)
      | .ok outputs =>
        match e.phase.after .finish with
        | .error error => (.error error, e)
        | .ok next => (.ok outputs, { e with phase := next })

/-- **Run** the compiled graph on inputs. An engine that is compiled and not prepared is prepared
first. -/
def run (e : Engine) (d : Device) (inputs : List (String × HostTensor)) :
    Outcome (Named HostTensor) × Engine :=
  if e.phase = .compiled then
    match e.prepare d with
    | (.error error, e) => (.error error, e)
    | (.ok (), e) => e.runPrepared d inputs
  else e.runPrepared d inputs

end Engine

end TexelFlow
