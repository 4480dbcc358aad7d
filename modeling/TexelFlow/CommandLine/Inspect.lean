import TexelFlow.CommandLine.Failure
import TexelFlow.Shader.Compile

/-!
# Views of a compiled graph

What a compiled graph holds, line by line: its inputs, outputs and weights with the textures they are
in, and its programs with what is bound to them. A second view is the text of one shader.
-/

namespace TexelFlow.CommandLine

/-- A shape and its texture in one line. -/
def layoutText (l : Layout) : String :=
  let parts := s!"{l.slices} slice(s), {l.channelGroups} channel group(s), {l.renderTargets} target(s)"
  s!"{Text.numbers l.shape} -> {l.width}x{l.height}x{l.layers} ({parts})"

/-- The line of an input. -/
def inputLine (c : Compiled) (i : InputSpec) : String :=
  let texture := match c.layouts.find? i.node with
    | some l => layoutText l
    | none => Text.numbers i.shape
  s!"  {i.name} ({i.dtype.name}, node '{i.node}'): {texture}"

/-- What is bound to a slot, in words. -/
def resourceText : Resource → String
  | .texture (.node name) => s!"node '{name}'"
  | .texture (.weight name) => s!"weight '{name}'"
  | .drawParams => "draw params"

/-- The lines of a program. -/
def programLines (p : Program) : List String :=
  s!"  {p.node} [{p.op.name}]: {layoutText p.output}"
    :: p.bindings.map (fun b => s!"      @binding({b.slot}) {b.name}: {resourceText b.resource}")
    ++ [s!"      {p.draws.length} draw(s) of {p.renderTargets} target(s)"]

/-- The lines about a compiled graph. -/
def compiledLines (c : Compiled) : List String :=
  "Inputs:" :: c.schedule.inputs.map (inputLine c)
    ++ "Outputs:" :: c.schedule.outputs.map (fun o => s!"  {o.name} <- {o.node}")
    ++ "Weights:" :: c.weights.map (fun (name, _, l) => s!"  {name}: {layoutText l}")
    ++ s!"Programs ({c.programs.length} nodes, {c.uniqueShaders} unique shaders):"
      :: c.programs.flatMap programLines

/-- Lines with a line break behind each. -/
def printed (lines : List String) : String := String.join (lines.map (· ++ "\n"))

/-- The text of the shader of a node. -/
def shaderText (c : Compiled) (node : String) : Attempt String :=
  match c.program? node with
  | some p => .ok p.source
  | none =>
    let known := Text.quotes (c.programs.map (·.node))
    .error (.words s!"No program for node '{node}', compiled nodes: {known}")

/-- **Show** a compiled graph, or the shader of one of its nodes. -/
def view (c : Compiled) : Option String → Attempt String
  | none => .ok (printed (compiledLines c))
  | some node => do return printed [← shaderText c node]

end TexelFlow.CommandLine
