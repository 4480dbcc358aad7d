import TexelFlow.Model.Attribute
import TexelFlow.Weight.Entry

/-!
# Model descriptions

A description holds a topology, a signature and the manifest of the weights. The topology is a list
of operation nodes that name their inputs, or a list of layers with a class, a configuration and the
names of their weights. The signature maps external names of inputs and outputs to nodes.

## §1 — the description
## §2 — reading
## §3 — consistency
## §4 — writing
-/

namespace TexelFlow.Model

open Json (Reader Fault)

/-! ## §1 — the description -/

/-- A node of an operation graph. -/
structure NodeEntry where
  /-- Name of the node. -/
  name : String
  /-- Name of its operation. -/
  op : String
  /-- References to the outputs it reads. -/
  input : List String
  /-- Its attributes. -/
  attr : Attributes
  deriving DecidableEq

/-- A layer of a layer stack. -/
structure LayerEntry where
  /-- Name of the layer. -/
  name : String
  /-- Name of its class. -/
  className : String
  /-- Its configuration, as it stands in the document. -/
  config : Named Json
  /-- Names of the layers it reads. -/
  inbound : List String
  /-- Names of its weights: kernel, then bias. -/
  weights : List String

/-- The two kinds of topology. -/
inductive Topology where
  /-- An operation graph. -/
  | graph (entries : List NodeEntry)
  /-- A layer stack. -/
  | layers (entries : List LayerEntry)

/-- The kind of a topology. -/
inductive Format where
  /-- An operation graph. -/
  | graph
  /-- A layer stack. -/
  | layers
  deriving DecidableEq, Repr

namespace Format

/-- Name in documents. -/
def name : Format → String
  | .graph => "graph-model"
  | .layers => "layers-model"

/-- Name in messages. -/
def title : Format → String
  | .graph => "GraphModel"
  | .layers => "LayersModel"

/-- All formats by name. -/
def byName : List (String × Format) := [("graph-model", .graph), ("layers-model", .layers)]

end Format

/-- The format of a topology. -/
def Topology.format : Topology → Format
  | .graph _ => .graph
  | .layers _ => .layers

/-- What a signature says of one tensor. -/
structure TensorSpec where
  /-- Reference to the node behind it. -/
  name : String
  /-- Type of its elements. -/
  dtype : DataType
  /-- Its extents; minus one stands for any. -/
  shape : Option (List Int)
  deriving DecidableEq

/-- External names of inputs and outputs. -/
structure Signature where
  /-- Inputs by external name. -/
  inputs : Named TensorSpec
  /-- Outputs by external name. -/
  outputs : Named TensorSpec
  deriving DecidableEq

/-- A model description. -/
structure Description where
  /-- The declared format. -/
  format : Option Format
  /-- The topology. -/
  topology : Topology
  /-- The signature. -/
  signature : Option Signature
  /-- The groups of weights, in the order of their bytes. -/
  groups : List Weight.Group

/-- All weights, in the order of their bytes. -/
def Description.entries (d : Description) : List Weight.Entry := d.groups.flatMap (·.weights)

/-! ## §2 — reading -/

/-- A node being read. -/
structure NodeEntry.Fields where
  /-- Name of the node. -/
  name : Option String := none
  /-- Name of its operation. -/
  op : Option String := none
  /-- References to its inputs. -/
  input : Option (List String) := none
  /-- Its attributes. -/
  attr : Option Attributes := none

/-- Read a node. -/
def NodeEntry.reader : Reader NodeEntry :=
  Reader.record
    [.of "name" false Reader.string (·.name) fun s v => { s with name := some v },
     .of "op" false Reader.string (·.op) fun s v => { s with op := some v },
     .of "input" true (Reader.list Reader.string) (·.input) fun s v => { s with input := some v },
     .of "attr" true (Reader.named Attribute.reader) (·.attr) fun s v => { s with attr := some v }]
    ({} : NodeEntry.Fields)
    fun s => do
      return ⟨← Reader.need s.name, ← Reader.need s.op, s.input.getD [], s.attr.getD .empty⟩

/-- A layer being read. -/
structure LayerEntry.Fields where
  /-- Name of the layer. -/
  name : Option String := none
  /-- Name of its class. -/
  className : Option String := none
  /-- Its configuration. -/
  config : Option (Named Json) := none
  /-- Names of the layers it reads. -/
  inbound : Option (List String) := none
  /-- Names of its weights. -/
  weights : Option (List String) := none

/-- Read a layer. -/
def LayerEntry.reader : Reader LayerEntry :=
  Reader.record
    [.of "name" false Reader.string (·.name) fun s v => { s with name := some v },
     .of "class_name" false Reader.string (·.className) fun s v => { s with className := some v },
     .of "config" true (Reader.named Json.Draft.value) (·.config)
       fun s v => { s with config := some v },
     .of "inbound_layers" true (Reader.list Reader.string) (·.inbound)
       fun s v => { s with inbound := some v },
     .of "weights" true (Reader.list Reader.string) (·.weights)
       fun s v => { s with weights := some v }]
    ({} : LayerEntry.Fields)
    fun s => do
      return ⟨← Reader.need s.name, ← Reader.need s.className, s.config.getD .empty,
        s.inbound.getD [], s.weights.getD []⟩

/-- Read the only field of a record. -/
def onlyField {α : Type} (name : String) (r : Reader (List α)) : Reader (List α) :=
  Reader.record
    [.of name false r id fun _ v => some v]
    (none : Option (List α))
    Reader.need

/-- Read a topology: any document at all, then an operation graph, then a layer stack. -/
def Topology.reader : Reader Topology := fun d => do
  let _ ← Json.Draft.value d
  match onlyField "node" (Reader.list NodeEntry.reader) d with
  | .ok entries => return .graph entries
  | .error _ =>
    match onlyField "layers" (Reader.list LayerEntry.reader) d with
    | .ok entries => return .layers entries
    | .error _ => .error .unfit

/-- A tensor specification being read. -/
structure TensorSpec.Fields where
  /-- Reference to the node. -/
  name : Option String := none
  /-- Type of its elements. -/
  dtype : Option DataType := none
  /-- Its extents. -/
  shape : Option (Option (List Int)) := none

/-- Read a tensor specification. -/
def TensorSpec.reader : Reader TensorSpec :=
  Reader.record
    [.of "name" false Reader.string (·.name) fun s v => { s with name := some v },
     .of "dtype" true (Reader.variant DataType.byName) (·.dtype) fun s v => { s with dtype := some v },
     .of "shape" true (Reader.optional (Reader.list Reader.integer)) (·.shape)
       fun s v => { s with shape := some v }]
    ({} : TensorSpec.Fields)
    fun s => do return ⟨← Reader.need s.name, s.dtype.getD .float32, s.shape.join⟩

/-- A signature being read. -/
structure Signature.Fields where
  /-- Inputs by external name. -/
  inputs : Option (Named TensorSpec) := none
  /-- Outputs by external name. -/
  outputs : Option (Named TensorSpec) := none

/-- Read a signature. -/
def Signature.reader : Reader Signature :=
  Reader.record
    [.of "inputs" true (Reader.named TensorSpec.reader) (·.inputs)
       fun s v => { s with inputs := some v },
     .of "outputs" true (Reader.named TensorSpec.reader) (·.outputs)
       fun s v => { s with outputs := some v }]
    ({} : Signature.Fields)
    fun s => return ⟨s.inputs.getD .empty, s.outputs.getD .empty⟩

/-- A description being read. -/
structure Description.Fields where
  /-- The declared format. -/
  format : Option (Option Format) := none
  /-- The topology. -/
  topology : Option Topology := none
  /-- The signature. -/
  signature : Option (Option Signature) := none
  /-- The groups of weights. -/
  groups : Option (List Weight.Group) := none

/-- Read a description. -/
def Description.reader : Reader Description :=
  Reader.record
    [.of "format" true (Reader.optional (Reader.variant Format.byName)) (·.format)
       fun s v => { s with format := some v },
     .of "modelTopology" false Topology.reader (·.topology) fun s v => { s with topology := some v },
     .of "signature" true (Reader.optional Signature.reader) (·.signature)
       fun s v => { s with signature := some v },
     .of "weightsManifest" true (Reader.list Weight.Group.reader) (·.groups)
       fun s v => { s with groups := some v }]
    ({} : Description.Fields)
    fun s => do
      return ⟨s.format.join, ← Reader.need s.topology, s.signature.join, s.groups.getD []⟩

/-! ## §3 — consistency -/

/-- The first name that stands twice in a list. -/
def firstRepeated (seen : List String) : List String → Option String
  | [] => none
  | name :: rest => if name ∈ seen then some name else firstRepeated (name :: seen) rest

namespace Description

/-- Check that a description does not contradict itself. -/
def validate (d : Description) : Outcome Unit := do
  if let some format := d.format then
    if format ≠ d.topology.format then
      throw (.model (.format format.title d.topology.format.title))
  match firstRepeated [] (d.entries.map (·.name)) with
  | some name => throw (.model (.duplicateWeight name))
  | none => return ()

/-- Read a description from its text and check it. -/
def parse (text : String) : Outcome Description := do
  match Json.read reader text with
  | .error fault => throw (.json fault)
  | .ok d => d.validate; return d

end Description

/-! ## §4 — writing -/

/-- A node in a document. -/
def NodeEntry.toJson (n : NodeEntry) : Json :=
  .object [("name", .string n.name), ("op", .string n.op), ("input", .array (n.input.map .string)),
    ("attr", .object (n.attr.map Attribute.toJson).entries)]

/-- A layer in a document. -/
def LayerEntry.toJson (l : LayerEntry) : Json :=
  .object [("name", .string l.name), ("class_name", .string l.className),
    ("config", .object l.config.entries), ("inbound_layers", .array (l.inbound.map .string)),
    ("weights", .array (l.weights.map .string))]

/-- A topology in a document. -/
def Topology.toJson : Topology → Json
  | .graph entries => .object [("node", .array (entries.map NodeEntry.toJson))]
  | .layers entries => .object [("layers", .array (entries.map LayerEntry.toJson))]

/-- A tensor specification in a document. -/
def TensorSpec.toJson (s : TensorSpec) : Json :=
  .object <| [("name", .string s.name), ("dtype", .string s.dtype.name)]
    ++ (s.shape.map fun dims => ("shape", Json.array (dims.map Json.int))).toList

/-- A signature in a document. -/
def Signature.toJson (s : Signature) : Json :=
  .object [("inputs", .object (s.inputs.map TensorSpec.toJson).entries),
    ("outputs", .object (s.outputs.map TensorSpec.toJson).entries)]

/-- A description in a document. -/
def Description.toJson (d : Description) : Json :=
  .object <| (d.format.map fun f => ("format", Json.string f.name)).toList
    ++ [("modelTopology", d.topology.toJson)]
    ++ (d.signature.map fun s => ("signature", s.toJson)).toList
    ++ [("weightsManifest", .array (d.groups.map Weight.Group.toJson))]

end TexelFlow.Model
