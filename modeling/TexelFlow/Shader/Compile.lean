import TexelFlow.Graph.Build
import TexelFlow.Schedule.Make
import TexelFlow.Shader.Program

/-!
# Compiled graphs

A graph is compiled for a device: it is scheduled, every tensor that has to be in a texture gets a
layout, and every operation gets a program. In textures are the inputs, what operations write and
read, and the outputs; a resize reads its size when it is compiled, so the size is in none.

## §1 — tensors in textures
## §2 — programs
## §3 — compiling
-/

namespace TexelFlow

/-! ## §1 — tensors in textures -/

/-- The inputs of a node that are bound as textures. -/
def Node.boundInputs (n : Node) : List String :=
  if n.op = .resize then n.inputNames.take 1 else n.inputNames

namespace Schedule

/-- The nodes whose tensors are in textures, some of them several times. -/
def textureNodes (s : Schedule) : List String :=
  s.inputs.map (·.node) ++ s.operations.flatMap (fun n => n.name :: n.boundInputs)
    ++ s.outputs.map (·.node)

/-- The layout of a node's texture. -/
def layoutOf (s : Schedule) (limits : Layout.Limits) (options : Layout.Options) (name : String) :
    Outcome Layout :=
  match s.descriptors.find? name with
  | some d => Layout.compute name d limits options
  | none => .error (.graph (.noDescriptor name))

/-- The layouts of nodes beside those already known. -/
def layoutsFrom (s : Schedule) (limits : Layout.Limits) (options : Layout.Options)
    (known : Named Layout) : List String → Outcome (Named Layout)
  | [] => .ok known
  | name :: rest =>
    if known.contains name then s.layoutsFrom limits options known rest
    else do
      let l ← s.layoutOf limits options name
      s.layoutsFrom limits options (known.insert name l) rest

/-- The layouts of all textures. -/
def layouts (s : Schedule) (limits : Layout.Limits) (options : Layout.Options) :
    Outcome (Named Layout) := s.layoutsFrom limits options .empty s.textureNodes

/-! ## §2 — programs -/

/-- The layout of a texture. -/
def textureLayout (layouts : Named Layout) (name : String) : Outcome Layout :=
  match layouts.find? name with
  | some l => .ok l
  | none => .error (.graph (.noLayout name))

/-- Where the texture of a node comes from. -/
def textureSource (s : Schedule) (name : String) : TextureSource :=
  if s.constants.contains name then .weight name else .node name

/-- The textures a node reads. -/
def textureInputs (s : Schedule) (layouts : Named Layout) (n : Node) : Outcome (List TextureInput) :=
  n.boundInputs.mapM fun name => do
    return ⟨s.textureSource name, ← textureLayout layouts name⟩

/-- The constant size of a resize. -/
def constantSize (s : Schedule) (n : Node) : Option Tensor :=
  if n.op = .resize then n.inputNames[1]?.bind s.constants.find? else none

/-- The program of a node. -/
def programOf [Wgsl.Validator] (s : Schedule) (layouts : Named Layout) (cache : ShaderCache) (n : Node) :
    Outcome (Program × ShaderCache) := do
  let inputs ← s.textureInputs layouts n
  let output ← textureLayout layouts n.name
  let (program, cache) := Program.compile cache n inputs (s.constantSize n) output
  return (← program, cache)

/-- The programs of nodes in their order. -/
def programsFrom [Wgsl.Validator] (s : Schedule) (layouts : Named Layout) (cache : ShaderCache) :
    List Node → Outcome (List Program)
  | [] => .ok []
  | n :: rest => do
    let (program, cache) ← s.programOf layouts cache n
    return program :: (← s.programsFrom layouts cache rest)

end Schedule

/-! ## §3 — compiling -/

/-- A graph compiled for a device. -/
structure Compiled where
  /-- Its schedule. -/
  schedule : Schedule
  /-- The programs of its operations, in their order. -/
  programs : List Program
  /-- The layouts of all textures. -/
  layouts : Named Layout
  /-- The options it was compiled with. -/
  options : EngineOptions

/-- What is to be compiled. -/
structure CompileRequest where
  /-- The wanted outputs; the declared ones where the list is empty. -/
  outputs : List String
  /-- Shapes of inputs, by external name or by node. -/
  shapes : Named Shape

namespace Compiled

variable [Wgsl.Validator]

/-- **Compile** a graph. -/
def ofGraph (g : Graph) (o : EngineOptions) (limits : DeviceLimits) (r : CompileRequest) :
    Outcome Compiled := do
  o.validate limits
  let schedule ← g.schedule { outputs := r.outputs, batch := o.batch, shapes := r.shapes, inputs := none }
  let layouts ← schedule.layouts (o.layoutLimits limits) o.layoutOptions
  let programs ← schedule.programsFrom layouts .empty schedule.operations
  return { schedule, programs, layouts, options := o }

/-- Compile a description with its weights. -/
def ofDescription (d : Model.Description) (weights : Tensors) (o : EngineOptions)
    (limits : DeviceLimits) (r : CompileRequest) : Outcome Compiled := do
  ofGraph (← Graph.ofDescription d weights) o limits r

/-- The constants that are in textures. -/
def weights (c : Compiled) : List (String × Tensor × Layout) :=
  c.schedule.constants.entries.filterMap fun (name, t) =>
    (c.layouts.find? name).map fun l => (name, t, l)

/-- The program of a node. -/
def program? (c : Compiled) (node : String) : Option Program := c.programs.find? (·.node = node)

/-- Number of different shaders. -/
def uniqueShaders (c : Compiled) : Nat := (c.programs.map (·.shaderId)).eraseDups.length

end Compiled

end TexelFlow
