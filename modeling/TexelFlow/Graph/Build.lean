import TexelFlow.Graph.Basic

/-!
# From descriptions to graphs

Both kinds of topology end as one kind of graph. The nodes of an operation graph are taken as they
are, less the inputs that carry no data; fused operations become an activation. A layer becomes its
weights, each a constant node, followed by a node that reads the layers before it and then those
weights; input layers go to the front.

References are read through a memo. A builder keeps it from one build to the next, also from a build
that fails.

## §1 — what operations need
## §2 — operation graphs
## §3 — layer stacks
## §4 — any description
-/

namespace TexelFlow.Graph

open Model (NodeEntry LayerEntry Signature Description)

/-! ## §1 — what operations need -/

/-- Check the attributes without which an operation has no meaning. -/
def checkAttributes (n : Node) : Outcome Unit := do
  if n.op.isConvolution then
    let _ ← n.required "strides"
    let _ ← n.required "padding"
  if n.op = .resize ∧ n.inputs.length < 2 ∧ n.attr "size" = none ∧ n.attr "scale" = none then
    let _ ← n.required "size"

/-- What is wrong with the inputs of a node beyond their names. -/
def inputFault (n : Node) : Option GraphFault :=
  match n.inputs.find? fun r => 0 < r.index with
  | some r => some (.secondOutput n.name r.index r.node)
  | none =>
    if n.op = .identity ∧ n.inputs.length ≠ 1 then some (.identityInputs n.name n.inputs.length)
    else none

/-- **Assemble** nodes into a graph whose operations have what they need. -/
def assemble (nodes : List Node) (constants : Tensors) (signature : Option Signature) :
    Outcome Graph := do
  nodes.forM checkAttributes
  let g ← make (nodes.map (Node.withWeights constants)) constants signature
  match g.nodes.findSome? inputFault with
  | some fault => throw (.graph fault)
  | none => return g

/-! ## §2 — operation graphs -/

/-- A step of reading, which knows the references read before it and leaves those it reads. -/
abbrev Reading := ExceptT Error (StateM Reference.Memo)

/-- Whether a reference only orders nodes. -/
def isControl (text : String) : Bool := text.toList.head? = some '^'

/-- Read a reference through the memo. -/
def readReference (text : String) : Reading Reference := .mk fun memo => memo.parse text

/-- Read the references of a node, less those that only order nodes. -/
def readInputs : List String → Reading (List Reference)
  | [] => return []
  | text :: rest =>
    if isControl text then readInputs rest
    else do
      let r ← readReference text
      return r :: (← readInputs rest)

/-- The activation that fused operations stand for. -/
def fusedActivation? : List String → Option String
  | ["BiasAdd"] => some "linear"
  | ["BiasAdd", "Relu"] => some "relu"
  | ["BiasAdd", "Relu6"] => some "relu6"
  | _ => none

/-- Turn the fused operations of a node into its activation. -/
def foldFused (n : Node) : Outcome Node := do
  let fused ← n.required "fused_ops"
  match fused.strings? with
  | none => throw (.graph (.fusedNotTexts n.name))
  | some ops =>
    match fusedActivation? ops with
    | none => throw (.graph (.unsupportedFused n.name ops))
    | some activation =>
      return { n with attributes := n.attributes.insert "activation" (.string activation) }

/-- The tensor that a node holds, if it is a constant. -/
def readConstant (weights : Tensors) (entry : NodeEntry) : Outcome (List (String × Tensor)) :=
  if Operator.ofName entry.op = .const then
    match weights.find? entry.name with
    | some t => .ok [(entry.name, t)]
    | none => .error (.graph (.constWithoutTensor entry.name))
  else .ok []

/-- The node of an operation with inputs, its fused operations folded. -/
def readOperation (entry : NodeEntry) (inputs : List Reference) : Outcome Node :=
  let node : Node := ⟨entry.name, Operator.ofName entry.op, inputs, entry.attr, []⟩
  if node.op.isFused then foldFused node else .ok node

/-- The nodes of an operation graph and the tensors of its constants. -/
def readNodes (weights : Tensors) :
    List NodeEntry → Reading (List Node × List (String × Tensor))
  | [] => return ([], [])
  | entry :: rest => do
    let inputs ← readInputs entry.input
    let constant ← readConstant weights entry
    let node ← readOperation entry inputs
    let (nodes, constants) ← readNodes weights rest
    return (node :: nodes, constant ++ constants)

/-- The graph of an operation graph, and the references known after it. -/
def ofNodes (entries : List NodeEntry) (weights : Tensors) (signature : Option Signature)
    (memo : Reference.Memo) : Outcome Graph × Reference.Memo :=
  let (result, memo) := (readNodes weights entries).run memo
  (do
    let (nodes, constants) ← result
    assemble nodes (.ofList constants) signature, memo)

/-! ## §3 — layer stacks -/

/-- Most weights a layer can have: kernel and bias. -/
def mostWeights : Nat := 2

/-- Name of the constant node of a layer's weight. -/
def weightName (layer : String) (index : Nat) : String := s!"{layer}/weight_{index}"

/-- A text of a layer's configuration. -/
def configText (l : LayerEntry) (key : String) : Option String :=
  (l.config.find? key).bind Json.string?

/-- A number or a list of numbers of a layer's configuration. -/
def configNumbers (l : LayerEntry) (key : String) : Option Attribute :=
  match l.config.find? key with
  | some (.number n) => some (.number n.toBinary64)
  | some (.array items) => (items.mapM Json.real?).map .numbers
  | _ => none

/-- The placeholder of an input layer. An extent that is no number is any extent. -/
def inputLayer (l : LayerEntry) : Outcome Node :=
  match (l.config.find? "batch_input_shape").bind Json.items? with
  | none => .error (.graph (.layerWithoutShape l.name))
  | some dims =>
    let shape := dims.map fun d => d.real?.getD .minusOne
    let dtype := (configText l "dtype").getD "float32"
    .ok { Node.bare l.name .placeholder with
      attributes := .ofList [("shape", .numbers shape), ("dtype", .string dtype)] }

/-- The operation of a layer. -/
def layerOperator (c : LayerClass) (l : LayerEntry) : Operator :=
  match c with
  | .input => .placeholder
  | .conv => .conv
  | .depthwise => .depthwise
  | .relu => .relu
  | .activation =>
    match configText l "activation" with
    | some "relu" => .relu
    | some "linear" => .identity
    | other => .unsupported ("Activation(" ++ other.getD "?" ++ ")")
  | .add => .add
  | .multiply => .mul
  | .upSampling =>
    match configText l "interpolation" with
    | some "bilinear" => .resize
    | other => .unsupported ("UpSampling2D(" ++ other.getD "nearest" ++ ")")
  | .unsupported name => .unsupported name

/-- The attributes of a layer's node. -/
def layerAttributes (c : LayerClass) (l : LayerEntry) : Attributes :=
  let entry (key : String) (value : Option Attribute) : List (String × Attribute) :=
    (value.map fun a => (key, a)).toList
  let flag (key : String) : List (String × Attribute) :=
    entry key (((l.config.find? key).bind Json.bool?).map .bool)
  let convolution : Attributes := .ofList <|
    entry "strides" (configNumbers l "strides")
      ++ entry "kernel_size" (configNumbers l "kernel_size")
      ++ entry "dilations" (configNumbers l "dilation_rate")
      ++ entry "padding" ((configText l "padding").map .string)
      ++ [("activation", .string ((configText l "activation").getD "linear"))]
  match c with
  | .conv => convolution
  | .depthwise => convolution
  | .upSampling => .ofList <|
    entry "scale" (configNumbers l "size") ++ flag "align_corners" ++ flag "half_pixel_centers"
  | _ => .empty

/-- The constant nodes of a layer's weights from an index on, with their tensors. -/
def layerWeights (weights : Tensors) (layer : String) (index : Nat) :
    List String → Outcome (List (String × Tensor))
  | [] => .ok []
  | name :: rest =>
    match weights.find? name with
    | none => .error (.graph (.weightNotLoaded layer name))
    | some t => do
      return (weightName layer index, t) :: (← layerWeights weights layer (index + 1) rest)

/-- What one layer adds to a graph. -/
inductive Piece where
  /-- A placeholder. -/
  | input (node : Node)
  /-- Constants and a node that reads them. -/
  | body (constants : List (String × Tensor)) (node : Node)

/-- What a layer adds to a graph. -/
def readLayer (weights : Tensors) (l : LayerEntry) : Outcome Piece := do
  let c := LayerClass.ofName l.className
  if mostWeights < l.weights.length then
    throw (.graph (.tooManyWeights l.name l.weights.length))
  if c = .input then return .input (← inputLayer l)
  if l.inbound.isEmpty then throw (.graph (.layerWithoutInputs l.name l.className))
  let constants ← layerWeights weights l.name 0 l.weights
  let inputs := (l.inbound ++ constants.map Prod.fst).map Reference.first
  return .body constants ⟨l.name, layerOperator c l, inputs, layerAttributes c l, []⟩

/-- The placeholder of a piece. -/
def Piece.inputs : Piece → List Node
  | .input node => [node]
  | .body _ _ => []

/-- The constant nodes of a piece and the node that reads them. -/
def Piece.nodes : Piece → List Node
  | .input _ => []
  | .body constants node => constants.map (fun c => Node.bare c.1 .const) ++ [node]

/-- The tensors of a piece. -/
def Piece.constants : Piece → List (String × Tensor)
  | .input _ => []
  | .body constants _ => constants

/-- The graph of a layer stack. -/
def ofLayers (layers : List LayerEntry) (weights : Tensors) (signature : Option Signature) :
    Outcome Graph := do
  let pieces ← layers.mapM (readLayer weights)
  assemble (pieces.flatMap Piece.inputs ++ pieces.flatMap Piece.nodes)
    (.ofList (pieces.flatMap Piece.constants)) signature

/-! ## §4 — any description -/

/-- A builder of graphs. -/
structure Builder where
  /-- The references that its builds have read. -/
  memo : Reference.Memo

/-- **Build** the graph of a description with its weights. -/
def Builder.build (b : Builder) (d : Description) (weights : Tensors) : Outcome Graph × Builder :=
  match d.topology with
  | .graph entries =>
    let (result, memo) := ofNodes entries weights d.signature b.memo
    (result, ⟨memo⟩)
  | .layers layers => (ofLayers layers weights d.signature, b)

/-- A builder that has built nothing. -/
def Builder.fresh : Builder := ⟨.empty⟩

/-- The graph of a description with its weights. -/
def ofDescription (d : Description) (weights : Tensors) : Outcome Graph :=
  (Builder.fresh.build d weights).1

end TexelFlow.Graph
