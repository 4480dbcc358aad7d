import TexelFlow.Model.Description
import TexelFlow.Graph.Operator
import TexelFlow.Graph.Reference

/-!
# Graphs

A graph is a list of nodes in the order they were built, the constant tensors, and the signature.
Names are distinct and not empty, every input names a node, every constant node has its tensor: this
is part of the type, and `Graph.make` is the check. Nothing is said yet about cycles or about what
operations need; that is asked later.

## Main statements

* `nameFault_eq_none_iff` — the first check passes exactly when names are distinct and not empty.
* `wiringFault_eq_none_iff` — the second check passes exactly when inputs and tensors are there.
-/

namespace TexelFlow

open Model (Signature)

/-- One operation of a graph. -/
structure Node where
  /-- Name of the node. -/
  name : String
  /-- What it does. -/
  op : Operator
  /-- The outputs it reads, in order. -/
  inputs : List Reference
  /-- Its attributes. -/
  attributes : Attributes
  /-- Those of its inputs that are constants, in order. -/
  weights : List String
  deriving DecidableEq

namespace Node

/-- A node with nothing but its name and operation. -/
def bare (name : String) (op : Operator) : Node := ⟨name, op, [], .empty, []⟩

/-- An attribute of a node. -/
def attr (n : Node) (key : String) : Option Attribute := n.attributes.find? key

/-- An attribute that a node must have. -/
def required (n : Node) (key : String) : Outcome Attribute :=
  match n.attr key with
  | some a => .ok a
  | none => .error (.graph (.missingAttribute n.name n.op.name key))

/-- Names of the nodes a node reads, in order. -/
def inputNames (n : Node) : List String := n.inputs.map (·.node)

/-- A node with its weights read off the constants. -/
def withWeights (constants : Tensors) (n : Node) : Node :=
  { n with weights := n.inputNames.filter constants.contains }

end Node

namespace Graph

/-- What is wrong with the names of nodes, given the names before them. -/
def nameFault (seen : List String) : List Node → Option GraphFault
  | [] => none
  | n :: rest =>
    if n.name = "" then some .emptyName
    else if n.name ∈ seen then some (.duplicateName n.name)
    else nameFault (n.name :: seen) rest

/-- What is wrong with the inputs of a node, or with the tensor of a constant node. -/
def wiringFault (names : List String) (constants : Tensors) (n : Node) : Option GraphFault :=
  match n.inputs.find? fun r => r.node ∉ names with
  | some r => some (.unknownInput n.name r.node)
  | none =>
    if n.op = .const ∧ constants.find? n.name = none then some (.constWithoutTensor n.name) else none

theorem nameFault_eq_none_iff {seen : List String} {nodes : List Node} :
    nameFault seen nodes = none ↔
      (∀ n ∈ nodes, n.name ≠ "" ∧ n.name ∉ seen) ∧ (nodes.map (·.name)).Nodup := by
  induction nodes generalizing seen with
  | nil => simp [nameFault]
  | cons n rest ih =>
    by_cases he : n.name = ""
    · simp [nameFault, he]
    · by_cases hs : n.name ∈ seen
      · simp [nameFault, he, hs]
      · rw [nameFault, if_neg he, if_neg hs, ih, List.map_cons, List.nodup_cons]
        constructor
        · rintro ⟨h, hd⟩
          refine ⟨fun m hm => ?_, fun hmem => ?_, hd⟩
          · rcases List.mem_cons.1 hm with rfl | hm
            · exact ⟨he, hs⟩
            · exact ⟨(h m hm).1, fun e => (h m hm).2 (List.mem_cons_of_mem _ e)⟩
          · obtain ⟨m, hm, e⟩ := List.mem_map.1 hmem
            exact (h m hm).2 (e ▸ List.mem_cons_self)
        · rintro ⟨h, hn, hd⟩
          refine ⟨fun m hm => ⟨(h m (List.mem_cons_of_mem _ hm)).1, fun e => ?_⟩, hd⟩
          rcases List.mem_cons.1 e with e | e
          · exact hn (List.mem_map.2 ⟨m, hm, e⟩)
          · exact (h m (List.mem_cons_of_mem _ hm)).2 e

theorem wiringFault_eq_none_iff {names : List String} {constants : Tensors} {n : Node} :
    wiringFault names constants n = none ↔
      (∀ r ∈ n.inputs, r.node ∈ names) ∧ (n.op = .const → (constants.find? n.name).isSome) := by
  unfold wiringFault
  split
  · rename_i r h
    have hr := List.find?_some h
    have hm := List.mem_of_find?_eq_some h
    simp only [decide_eq_true_eq] at hr
    constructor
    · intro e; cases e
    · intro e; exact absurd (e.1 r hm) hr
  · rename_i h
    have hall : ∀ r ∈ n.inputs, r.node ∈ names := by
      intro r hr
      have := List.find?_eq_none.1 h r hr
      simpa using this
    by_cases ho : n.op = .const
    · cases hc : constants.find? n.name with
      | none => simp [ho]
      | some t => simpa [ho] using hall
    · simp [ho]
      exact hall

end Graph

/-- A graph of operations. -/
structure Graph where
  /-- The nodes in the order they were built. -/
  nodes : List Node
  /-- The constant tensors. -/
  constants : Tensors
  /-- External names of inputs and outputs. -/
  signature : Option Signature
  /-- No node is without a name. -/
  named : ∀ n ∈ nodes, n.name ≠ ""
  /-- No two nodes share a name. -/
  distinct : (nodes.map (·.name)).Nodup
  /-- Every input names a node. -/
  wired : ∀ n ∈ nodes, ∀ r ∈ n.inputs, r.node ∈ nodes.map (·.name)
  /-- Every constant node has its tensor. -/
  given : ∀ n ∈ nodes, n.op = .const → (constants.find? n.name).isSome
  deriving DecidableEq

namespace Graph

/-- A graph of nodes, constants and a signature, if they go together. -/
def make (nodes : List Node) (constants : Tensors) (signature : Option Signature) : Outcome Graph :=
  match hn : nameFault [] nodes with
  | some fault => .error (.graph fault)
  | none =>
    match hw : nodes.findSome? (wiringFault (nodes.map (·.name)) constants) with
    | some fault => .error (.graph fault)
    | none =>
      have names := nameFault_eq_none_iff.1 hn
      have wiring := fun n hn => wiringFault_eq_none_iff.1 (List.findSome?_eq_none_iff.1 hw n hn)
      .ok { nodes, constants, signature
            named := fun n hn => (names.1 n hn).1
            distinct := names.2
            wired := fun n hn => (wiring n hn).1
            given := fun n hn => (wiring n hn).2 }

/-- The node of a name. -/
def node? (g : Graph) (name : String) : Option Node := g.nodes.find? (·.name = name)

/-- The place of a node in the order of building. -/
def place? (g : Graph) (name : String) : Option (Fin g.nodes.length) :=
  g.nodes.findFinIdx? (·.name = name)

/-- The node at a place. -/
def nodeAt (g : Graph) (v : Fin g.nodes.length) : Node := g.nodes[v]

/-- The placeholders in the order of building. -/
def placeholders (g : Graph) : List Node := g.nodes.filter (·.op = .placeholder)

/-- The operations nobody reads, in the order of building. -/
def sinks (g : Graph) : List Node :=
  let read := g.nodes.flatMap Node.inputNames
  g.nodes.filter fun n => n.name ∉ read ∧ !n.op.isData

end Graph

end TexelFlow
