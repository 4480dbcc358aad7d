import TexelFlow.Operator.Infer
import TexelFlow.Schedule.Basic
import TexelFlow.Schedule.Digraph

/-!
# From graphs to schedules

The nodes of a graph are ordered along the edges from inputs to readers. Of these the ancestors of the
wanted outputs are kept. An identity stands for what it reads: it is left out, its readers read what
it stands for, and an output that names it names that.

## §1 — edges
## §2 — identities
## §3 — outputs
## §4 — inputs
## §5 — descriptors
## §6 — the schedule
-/

namespace TexelFlow

open Model (Signature TensorSpec)

/-- What a schedule is made for. -/
structure Request where
  /-- The wanted outputs; the declared ones where the list is empty. -/
  outputs : List String
  /-- What becomes of the leading axis of the inputs. -/
  batch : Batch
  /-- Shapes of inputs, by external name or by node. -/
  shapes : Named Shape
  /-- The inputs themselves; their shapes then count. -/
  inputs : Option Tensors

namespace Graph

/-! ## §1 — edges -/

/-- The edges from what a node reads to the node, in the order of its inputs. -/
def edgesInto (g : Graph) (n : Node) : List (Fin g.nodes.length × Fin g.nodes.length) :=
  match g.place? n.name with
  | none => []
  | some target => n.inputNames.filterMap fun input => (g.place? input).map fun source => (source, target)

/-- The nodes and what they read. -/
def dependencies (g : Graph) : Digraph g.nodes.length := ⟨g.nodes.flatMap g.edgesInto⟩

/-! ## §2 — identities -/

/-- Follow identities by at most so many steps. -/
def follow (g : Graph) : Nat → String → String
  | 0, name => name
  | steps + 1, name =>
    match g.node? name with
    | none => name
    | some n =>
      if n.op = .identity then
        match n.inputs with
        | [] => name
        | r :: _ => g.follow steps r.node
      else name

/-- The node that a name stands for: itself, or what an identity reads. There are no more identities
in a row than there are nodes, unless they form a cycle. -/
def standsFor (g : Graph) (name : String) : String := g.follow g.nodes.length name

/-- A node that reads what its inputs stand for. -/
def repointed (g : Graph) (n : Node) : Node :=
  Node.withWeights g.constants
    { n with inputs := n.inputs.map fun r => { r with node := g.standsFor r.node } }

/-! ## §3 — outputs -/

/-- The names of the outputs: those wanted, else those of the signature, else the sinks. -/
def outputNames (g : Graph) (wanted : List String) : List String :=
  if wanted ≠ [] then wanted
  else
    let signed := (g.signature.map (·.outputs.names)).getD []
    if signed ≠ [] then signed else g.sinks.map (·.name)

/-- The node of an output: what its reference in the signature, or its own name, stands for. -/
def resolveOutput (g : Graph) (name : String) : Outcome OutputSpec := do
  let signed := g.signature.bind fun s => s.outputs.find? name
  let reference ← Reference.parse ((signed.map (·.name)).getD name)
  if (g.node? reference.node).isNone then throw (.input (.unknownOutput name reference.node))
  return ⟨name, g.standsFor reference.node⟩

/-- The outputs and their nodes. -/
def resolveOutputs (g : Graph) (wanted : List String) : Outcome (List OutputSpec) := do
  let names := g.outputNames wanted
  if names = [] then throw (.input .noOutputs)
  names.mapM g.resolveOutput

/-! ## §4 — inputs -/

/-- The type that the attribute of a placeholder names. -/
def readType (node : String) (a : Option Attribute) : Outcome DataType :=
  match a.bind Attribute.string? with
  | none => .ok .float32
  | some "float32" => .ok .float32
  | some "DT_FLOAT" => .ok .float32
  | some "int32" => .ok .int32
  | some "DT_INT32" => .ok .int32
  | some "bool" => .ok .bool
  | some "DT_BOOL" => .ok .bool
  | some "string" => .ok .string
  | some "DT_STRING" => .ok .string
  | some other => .error (.graph (.unsupportedInputType node other))

/-- The extents that the attribute of a placeholder declares. -/
def declaredShape (n : Node) : Option (List Int) :=
  ((n.attr "shape").bind Attribute.numbers?).map fun dims => dims.map Binary64.toInt64

/-- Whether a reference names a node. -/
def refersTo (reference node : String) : Bool :=
  match Reference.parse reference with
  | .ok r => r.node = node
  | .error _ => false

/-- The first entry of the signature that names a placeholder. -/
def signedInput? (g : Graph) (node : String) : Option (String × TensorSpec) :=
  g.signature.bind fun s => s.inputs.entries.find? fun e => refersTo e.2.name node

/-- The input of a placeholder, as far as the graph declares it. -/
def declareInput (g : Graph) (batch : Batch) (n : Node) : Outcome InputSpec := do
  let (name, dtype, declared) ←
    match g.signedInput? n.name with
    | some (external, spec) =>
      Except.ok (external, spec.dtype, spec.shape.or (declaredShape n))
    | none => do
      let dtype ← readType n.name (n.attr "dtype")
      pure (n.name, dtype, declaredShape n)
  let declared := match batch with
    | .kept => declared
    | .stripped => declared.map (·.drop 1)
  return ⟨name, n.name, dtype, declared, []⟩

/-- The extent of an axis where nothing but its declaration is known. -/
def concreteExtent (s : InputSpec) (batch : Batch) (axis : Nat) (extent : Int) : Outcome Nat :=
  if extent = -1 ∧ axis = 0 ∧ batch = .kept then .ok 1
  else if 0 ≤ extent then .ok extent.toNat
  else .error (.graph (.undeclaredExtent s.name axis))

/-- The extents from an axis on. -/
def concreteExtents (s : InputSpec) (batch : Batch) (axis : Nat) : List Int → Outcome Shape
  | [] => .ok []
  | extent :: rest => do
    return (← concreteExtent s batch axis extent) :: (← concreteExtents s batch (axis + 1) rest)

/-- The shape of an input where nothing but its declaration is known. -/
def concreteShape (s : InputSpec) (batch : Batch) : Outcome Shape :=
  match s.declared with
  | none => .error (.graph (.undeclaredShape s.name))
  | some declared => concreteExtents s batch 0 declared

/-- The shape that an input is scheduled for. -/
def inputShape (s : InputSpec) (r : Request) : Outcome Shape :=
  match r.inputs with
  | some given => do return (← s.prepare r.batch (← s.pick given)).shape
  | none =>
    match s.find? r.shapes with
    | some shape => do
      let shape ← s.strip r.batch shape
      s.checkDeclared shape
      return shape
    | none => concreteShape s r.batch

/-- The input of a placeholder. -/
def inputSpec (g : Graph) (r : Request) (n : Node) : Outcome InputSpec := do
  let s ← g.declareInput r.batch n
  return { s with shape := ← inputShape s r }

/-! ## §5 — descriptors -/

/-- The descriptor of a node, given those of the nodes before it. -/
def describeNode (inputs : List InputSpec) (constants : Tensors) (known : Named Descriptor)
    (n : Node) : Outcome Descriptor :=
  match n.op with
  | .placeholder =>
    match inputs.find? (·.node = n.name) with
    | some s => .ok ⟨s.shape, s.dtype⟩
    | none => .error (.graph (.noInputSpec n.name))
  | .const =>
    match constants.find? n.name with
    | some t => .ok t.descriptor
    | none => .error (.breach .missingName)
  | _ => do
    let operands ← n.inputNames.mapM fun name =>
      match known.find? name with
      | some d => Except.ok d
      | none => .error (.graph (.scheduledEarly n.name name))
    Operator.infer n operands fun i => n.inputNames[i]?.bind constants.find?

/-- The descriptors of nodes in their order, beside those already known. -/
def describeNodes (inputs : List InputSpec) (constants : Tensors) (known : Named Descriptor) :
    List Node → Outcome (Named Descriptor)
  | [] => .ok known
  | n :: rest => do
    let d ← describeNode inputs constants known n
    describeNodes inputs constants (known.insert n.name d) rest

/-! ## §6 — the schedule -/

/-- The vertices some output is reached from, in order and without identities. -/
def keptVertices (g : Graph) (order : List (Fin g.nodes.length)) (outputs : List OutputSpec) :
    List (Fin g.nodes.length) :=
  let needed := g.dependencies.ancestors (outputs.filterMap fun o => g.place? o.node)
  order.filter fun v => v ∈ needed ∧ (g.nodeAt v).op ≠ .identity

/-- The needed nodes in order, without identities. -/
def neededNodes (g : Graph) (order : List (Fin g.nodes.length)) (outputs : List OutputSpec) :
    List Node :=
  (g.keptVertices order outputs).map fun v => g.repointed (g.nodeAt v)

/-- The tensors of constant nodes. -/
def constantsOf (g : Graph) (nodes : List Node) : Tensors :=
  .ofList <| (nodes.filter (·.op = .const)).filterMap fun n =>
    (g.constants.find? n.name).map fun t => (n.name, t)

/-- The nodes in an order in which every node stands behind what it reads. -/
def ordered (g : Graph) : Outcome (List (Fin g.nodes.length)) :=
  match g.dependencies.order with
  | .ok order => .ok order
  | .error v => .error (.graph (.cycle (g.nodeAt v).name))

/-- **Schedule** a graph for a request. -/
def schedule (g : Graph) (r : Request) : Outcome Schedule := do
  let order ← g.ordered
  let outputs ← g.resolveOutputs r.outputs
  let nodes := g.neededNodes order outputs
  let inputs ← (nodes.filter (·.op = .placeholder)).mapM (g.inputSpec r)
  let constants := g.constantsOf nodes
  let descriptors ← describeNodes inputs constants .empty nodes
  let s : Schedule := { nodes, descriptors, inputs, outputs, constants, batch := r.batch }
  match r.inputs with
  | some given => do let _ ← s.bind given; return s
  | none => return s

end Graph

end TexelFlow
