import TexelFlow.Shader.Emit
import TexelFlow.Shader.Printer

/-!
# Programs

The program of a node is its pass, the shader of the pass, what is bound to the slots of the shader,
and the draws that write its output. Everything a shader depends on is its key: operation, pass and
layouts. Shaders are kept in a cache under their keys, so two programs of one key share one shader. What accepts
shaders is left open (`Wgsl.Validator`); one that is not accepted is not kept.

## §1 — shaders and their keys
## §2 — bindings
## §3 — programs
-/

namespace TexelFlow

/-! ## §1 — shaders and their keys -/

/-- Everything a shader depends on. -/
structure ShaderKey where
  /-- The operation. -/
  op : Operator
  /-- What is computed. -/
  pass : Pass
  /-- Layouts of the textures that are read. -/
  inputs : List Layout
  /-- Layout of the texture that is written. -/
  output : Layout
  deriving DecidableEq

/-- The shader of a key, if it is accepted. `node` is the node it is wanted for. -/
def ShaderKey.build [Wgsl.Validator] (key : ShaderKey) (node : String) : Outcome Wgsl.Shader := do
  let shader ← Wgsl.shader key.op key.pass key.inputs key.output
  if Wgsl.Validator.accepts shader then return shader else throw (.shader node)

/-- Shaders under their keys, the newest first. -/
structure ShaderCache where
  /-- The keys and their shaders. -/
  entries : List (ShaderKey × Wgsl.Shader)

namespace ShaderCache

/-- The cache without shaders. -/
def empty : ShaderCache := ⟨[]⟩

/-- Number of shaders. -/
def size (c : ShaderCache) : Nat := c.entries.length

/-- Look a key up: its number, counted from the oldest, and its shader. -/
def lookup (key : ShaderKey) : List (ShaderKey × Wgsl.Shader) → Option (Nat × Wgsl.Shader)
  | [] => none
  | (k, shader) :: older => if k = key then some (older.length, shader) else lookup key older

/-- The number and the shader of a key. -/
def find? (c : ShaderCache) (key : ShaderKey) : Option (Nat × Wgsl.Shader) := lookup key c.entries

/-- **Fetch** the shader of a key: the one that is kept, else a new one that is kept from now on. -/
def fetch [Wgsl.Validator] (c : ShaderCache) (key : ShaderKey) (node : String) :
    Outcome (Nat × Wgsl.Shader) × ShaderCache :=
  match c.find? key with
  | some found => (.ok found, c)
  | none =>
    match key.build node with
    | .ok shader => (.ok (c.size, shader), ⟨(key, shader) :: c.entries⟩)
    | .error e => (.error e, c)

end ShaderCache

/-! ## §2 — bindings -/

/-- Where a bound texture comes from. -/
inductive TextureSource where
  /-- An input of the run or the output of a node. -/
  | node (name : String)
  /-- A constant, uploaded once. -/
  | weight (name : String)
  deriving DecidableEq, Repr

/-- What is bound to a slot. -/
inductive Resource where
  /-- The parameters of the draw. -/
  | drawParams
  /-- A texture. -/
  | texture (source : TextureSource)
  deriving DecidableEq, Repr

/-- A slot of a shader and what is bound to it. -/
structure Binding where
  /-- Number of the slot. -/
  slot : Nat
  /-- Its name: the role of a texture. -/
  name : String
  /-- What is bound. -/
  resource : Resource
  deriving DecidableEq, Repr

/-- The bindings of textures, from a slot on. -/
def textureBindings (slot : Nat) : List String → List TextureSource → List Binding
  | role :: roles, source :: sources =>
    ⟨slot, role, .texture source⟩ :: textureBindings (slot + 1) roles sources
  | _, _ => []

/-- A texture that a program reads. -/
structure TextureInput where
  /-- Where it comes from. -/
  source : TextureSource
  /-- Its layout. -/
  layout : Layout
  deriving DecidableEq

/-! ## §3 — programs -/

/-- The program of a node. -/
structure Program where
  /-- The node. -/
  node : String
  /-- Its operation. -/
  op : Operator
  /-- What it computes. -/
  pass : Pass
  /-- Number of its shader in the cache it was compiled with. -/
  shaderId : Nat
  /-- Its shader. -/
  shader : Wgsl.Shader
  /-- What is bound to the slots of the shader. -/
  bindings : List Binding
  /-- Layers written by one draw. -/
  renderTargets : Nat
  /-- The draws that write the output. -/
  draws : List Layout.Draw
  /-- Layout of the output. -/
  output : Layout

namespace Program

/-- Text of the shader. -/
def source (p : Program) : String := p.shader.text

/-- The slots to which textures are bound. -/
def textures (p : Program) : List Binding :=
  p.bindings.filter fun b =>
    match b.resource with
    | .texture _ => true
    | .drawParams => false

/-- The key of a node's shader. -/
def key (n : Node) (inputs : List TextureInput) (size : Option Tensor) (output : Layout) :
    Outcome ShaderKey := do
  let layouts := inputs.map (·.layout)
  let pass ← Pass.resolve n layouts size
  if pass.roles.length ≠ inputs.length then
    throw (.graph (.textureCount n.name n.op.name inputs.length pass.roles.length))
  return ⟨n.op, pass, layouts, output⟩

/-- The program of a node with its shader. -/
def assemble (n : Node) (inputs : List TextureInput) (key : ShaderKey) (shader : Nat × Wgsl.Shader) :
    Program :=
  { node := n.name, op := n.op, pass := key.pass, shaderId := shader.1, shader := shader.2
    bindings := ⟨0, "params", .drawParams⟩ ::
      textureBindings 1 key.pass.roles (inputs.map (·.source))
    renderTargets := key.output.renderTargets
    draws := key.output.draws
    output := key.output }

/-- **Compile** the program of a node through a cache. `size` is the constant size of a resize. -/
def compile [Wgsl.Validator] (cache : ShaderCache) (n : Node) (inputs : List TextureInput) (size : Option Tensor)
    (output : Layout) : Outcome Program × ShaderCache :=
  match key n inputs size output with
  | .error e => (.error e, cache)
  | .ok key =>
    match cache.fetch key n.name with
    | (.error e, cache) => (.error e, cache)
    | (.ok shader, cache) => (.ok (assemble n inputs key shader), cache)

end Program

end TexelFlow
