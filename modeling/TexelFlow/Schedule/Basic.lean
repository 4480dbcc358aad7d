import TexelFlow.Graph.Basic

/-!
# Schedules

A schedule is what a graph becomes once it is known which outputs are wanted and which shapes the
inputs have: the nodes that are needed, each behind the nodes it reads, without identities, and the
descriptor of every node. It also says how tensors are bound to it.

## §1 — schedules
## §2 — inputs
## §3 — binding
-/

namespace TexelFlow

/-! ## §1 — schedules -/

/-- What becomes of the leading axis of the inputs. -/
inductive Batch where
  /-- Inputs have it and keep it. -/
  | kept
  /-- Inputs come with it, of extent one, and lose it; declared shapes lose theirs. -/
  | stripped
  deriving DecidableEq, Repr

/-- An input that a schedule expects. -/
structure InputSpec where
  /-- External name, or the name of the node where there is none. -/
  name : String
  /-- The placeholder it feeds. -/
  node : String
  /-- Type of its elements. -/
  dtype : DataType
  /-- Declared extents; minus one stands for any. -/
  declared : Option (List Int)
  /-- The shape the schedule is made for. -/
  shape : Shape
  deriving DecidableEq

/-- An output that is asked for. -/
structure OutputSpec where
  /-- The name it is asked for by. -/
  name : String
  /-- The node that computes it. -/
  node : String
  deriving DecidableEq, Repr

/-- Nodes in an order in which they can be computed. -/
structure Schedule where
  /-- The nodes, each behind the nodes it reads. -/
  nodes : List Node
  /-- What each node gives. -/
  descriptors : Named Descriptor
  /-- The inputs, in the order of their placeholders. -/
  inputs : List InputSpec
  /-- The outputs, in the order they are asked for. -/
  outputs : List OutputSpec
  /-- The tensors of the constant nodes. -/
  constants : Tensors
  /-- What becomes of the leading axis of the inputs. -/
  batch : Batch

/-- The nodes that compute something. -/
def Schedule.operations (s : Schedule) : List Node := s.nodes.filter fun n => !n.op.isData

/-! ## §2 — inputs -/

namespace InputSpec

/-- The entry of a map that belongs to an input: by its external name, else by its node. -/
def find? {α : Type} (s : InputSpec) (m : Named α) : Option α :=
  match m.find? s.name with
  | some a => some a
  | none => m.find? s.node

/-- The shape of an input without the leading axis, where it is stripped. -/
def strip (s : InputSpec) (batch : Batch) (shape : Shape) : Outcome Shape :=
  match batch, shape with
  | .kept, _ => .ok shape
  | .stripped, 1 :: rest => .ok rest
  | .stripped, _ => .error (.input (.noBatch s.name shape))

/-- An extent read as a signed word. -/
def signed (extent : Nat) : Int := if extent < Size.signedModulus then extent else extent - (Size.modulus : Int)

/-- The first axis whose extent is not the declared one. -/
def badAxis? (axis : Nat) : List Int → Shape → Option (Nat × Int × Nat)
  | want :: wants, got :: gots =>
    if want ≠ -1 ∧ want ≠ signed got then some (axis, want, got)
    else badAxis? (axis + 1) wants gots
  | _, _ => none

/-- Check a shape against the declared extents. -/
def checkDeclared (s : InputSpec) (shape : Shape) : Outcome Unit :=
  match s.declared with
  | none => .ok ()
  | some declared =>
    if declared.length ≠ shape.length then .error (.input (.rank s.name declared shape))
    else
      match badAxis? 0 declared shape with
      | some (axis, want, got) => .error (.input (.extent s.name axis want got))
      | none => .ok ()

/-- A tensor as the schedule takes it: stripped, of the right type, of a declared shape. -/
def prepare (s : InputSpec) (batch : Batch) (t : Tensor) : Outcome Tensor := do
  let shape ← s.strip batch t.shape
  let t ← t.reshape s.name shape
  if t.dtype ≠ s.dtype then throw (.input (.dtype s.name s.dtype t.dtype))
  s.checkDeclared t.shape
  return t

/-- The tensor of an input among those that are given. -/
def pick (s : InputSpec) (given : Tensors) : Outcome Tensor :=
  match s.find? given with
  | some t => .ok t
  | none => .error (.input (.missing s.name))

end InputSpec

/-! ## §3 — binding -/

namespace Schedule

/-- The given names that belong to no input. -/
def unknownNames (s : Schedule) (given : Tensors) : List String :=
  given.names.filter fun name => !s.inputs.any fun i => i.name = name || i.node = name

/-- The tensor that an input binds, under its node. -/
def bindOne (s : Schedule) (given : Tensors) (i : InputSpec) : Outcome (String × Tensor) := do
  let t ← i.prepare s.batch (← i.pick given)
  if t.shape ≠ i.shape then throw (.input (.compiledShape i.name i.shape t.shape))
  return (i.node, t)

/-- **Bind** tensors to the placeholders of a schedule. -/
def bind (s : Schedule) (given : Tensors) : Outcome Tensors := do
  let unknown := s.unknownNames given
  if unknown ≠ [] then throw (.input (.unknownNames unknown (s.inputs.map (·.name))))
  return .ofList (← s.inputs.mapM (s.bindOne given))

/-- The data of a node: what is bound to it, else its constant. -/
def data? (s : Schedule) (bound : Tensors) (name : String) : Option Tensor :=
  match bound.find? name with
  | some t => some t
  | none => s.constants.find? name

end Schedule

end TexelFlow
