import TexelFlow.Evaluate.Convolution
import TexelFlow.Evaluate.Pairwise
import TexelFlow.Evaluate.Resize
import TexelFlow.Schedule.Basic

/-!
# Evaluating a schedule on the host

The nodes are evaluated in their order. A node that holds data gives the tensor bound to it or its
constant; any other node applies its operation to what its inputs gave.
-/

namespace TexelFlow

namespace Node

/-- Replace negative elements by zero. -/
def rectify (v : Values) : Values :=
  ⟨v.shape, v.elements.map fun x => x.max .zero⟩

/-- The operand of a node at a place. -/
def operand (operands : List Values) (i : Nat) : Outcome Values :=
  match operands[i]? with
  | some v => .ok v
  | none => .error (.breach .indexOutOfRange)

/-- **Apply** the operation of a node to its operands. `data` gives the tensor of a data node, from
which a resize may take its size. -/
def apply (n : Node) (operands : List Values) (data : String → Option Tensor) : Outcome Values :=
  let pairwise (op : Binary32 → Binary32 → Binary32) : Outcome Values :=
    match operands with
    | [a, b] => Pairwise.apply op a b
    | _ => .error (.graph (.pairExpected n.name operands.length))
  let convolution : Outcome Values := do
    Convolution.apply n (← operand operands 0) (← operand operands 1) operands[2]?
  match n.op with
  | .add => pairwise (· + ·)
  | .mul => pairwise (· * ·)
  | .relu => do return rectify (← operand operands 0)
  | .conv => convolution
  | .fusedConv => convolution
  | .depthwise => convolution
  | .fusedDepthwise => convolution
  | .resize => do Resize.apply n (← operand operands 0) (n.inputNames[1]?.bind data)
  | op => .error (.unsupportedOp n.name op.name)

end Node

namespace Schedule

/-- What a node gives, from what the nodes before it gave. -/
def evaluateNode (s : Schedule) (bound : Tensors) (known : Named Values) (n : Node) :
    Outcome Values :=
  if n.op.isData then
    match s.data? bound n.name with
    | some t => Values.ofTensor n.name t
    | none => .error (.input (.unbound n.name))
  else do
    let operands ← n.inputNames.mapM fun name =>
      match known.find? name with
      | some v => Except.ok v
      | none => .error (.graph (.evaluatedEarly n.name name))
    n.apply operands (s.data? bound)

/-- What nodes give in their order, beside what is already known. -/
def evaluateNodes (s : Schedule) (bound : Tensors) (known : Named Values) :
    List Node → Outcome (Named Values)
  | [] => .ok known
  | n :: rest => do
    let v ← s.evaluateNode bound known n
    evaluateNodes s bound (known.insert n.name v) rest

/-- An output among what all nodes gave. -/
def takeOutput (known : Named Values) (o : OutputSpec) : Outcome (String × Tensor) :=
  match known.find? o.node with
  | some v => do return (o.name, ← v.toTensor)
  | none => .error (.graph (.outputNotEvaluated o.node))

/-- **Evaluate** a schedule on bound tensors: the outputs by name. -/
def evaluate (s : Schedule) (bound : Tensors) : Outcome Tensors := do
  let known ← s.evaluateNodes bound .empty s.nodes
  return .ofList (← s.outputs.mapM (takeOutput known))

end Schedule

end TexelFlow
