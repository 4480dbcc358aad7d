import TexelFlow.Proofs.Graph.Built
import TexelFlow.Proofs.Named
import Mathlib.Data.List.Flatten

/-!
# Layer stacks as graphs

A layer stack becomes a graph layer by layer. Its input layers come first; every other layer becomes one
constant node for each of its weights, followed by its own node, which reads the layers before it and then
those constants. Names of layers and of constants live in one space, so a stack in which they collide has
no graph. An input layer reads nothing: what it lists as inbound and as weights is left alone.

## Main statements

* `layerWeights_eq_ok_iff` — the constants of a layer.
* `normalizes_of_ofLayers` — the graph of a layer stack.
* `not_faulty_of_ofLayers` — what a stack with a graph is free of.
* `graphFault_of_ofLayers` — what a stack fails with.
* `layers_normalized` — all of it, for descriptions.

## §1 — what a stack is to become
## §2 — one layer
## §3 — a stack
## §4 — how a stack fails
## §5 — descriptions
-/

namespace TexelFlow

open Model (LayerEntry Signature Description)

/-! ## §1 — what a stack is to become -/

/-- A node apart from attributes and weights: what it is called, what it does and what it reads. -/
structure Outline where
  /-- Name of the node. -/
  name : String
  /-- What it does. -/
  op : Operator
  /-- The outputs it reads, in order. -/
  inputs : List Reference
  deriving DecidableEq

/-- The outline of a node. -/
def Node.outline (n : Node) : Outline := ⟨n.name, n.op, n.inputs⟩

namespace Model.LayerEntry

/-- A layer that takes an input of the run. -/
def IsInput (l : LayerEntry) : Prop := l.className = "InputLayer"

instance : DecidablePred IsInput := fun l => inferInstanceAs (Decidable (l.className = "InputLayer"))

/-- Names of the constant nodes of a layer, one for each weight. -/
def constantNames (l : LayerEntry) : List String :=
  (List.range l.weights.length).map (Graph.weightName l.name)

/-- The placeholder of an input layer. -/
def placeholder (l : LayerEntry) : Outline := ⟨l.name, .placeholder, []⟩

/-- The node of any other layer, which reads the inbound layers and then its constants. -/
def body (l : LayerEntry) : Outline :=
  ⟨l.name, Graph.layerOperator (LayerClass.ofName l.className) l,
    (l.inbound ++ l.constantNames).map Reference.first⟩

/-- The constant nodes of a layer and its own node behind them. -/
def block (l : LayerEntry) : List Outline :=
  l.constantNames.map (fun name => ⟨name, .const, []⟩) ++ [l.body]

end Model.LayerEntry

namespace Graph

/-- The nodes of a layer stack: the placeholders of its input layers, then the other layers in order. -/
def outlines (layers : List LayerEntry) : List Outline :=
  (layers.filter fun l => l.IsInput).map LayerEntry.placeholder ++
    (layers.filter fun l => ¬ l.IsInput).flatMap LayerEntry.block

/-- The names of the nodes of a layer stack. -/
def outlineNames (layers : List LayerEntry) : List String := (outlines layers).map Outline.name

/-- **A graph is that of a layer stack.** -/
structure Normalizes (layers : List LayerEntry) (weights : Tensors) (g : Graph) : Prop where
  /-- Its nodes are those of the stack, in order. -/
  nodes : g.nodes.map Node.outline = outlines layers
  /-- Its tensors go by the names of the constant nodes, and by no others. -/
  keys : ∀ name, g.constants.contains name ↔
    ∃ l ∈ layers, ¬ l.IsInput ∧ name ∈ l.constantNames
  /-- Under the name of a constant node stands the weight of that number. -/
  tensors : ∀ l ∈ layers, ¬ l.IsInput → ∀ i (hi : i < l.weights.length),
    g.constants.find? (weightName l.name i) = weights.find? l.weights[i]

/-- What a layer stack can have no graph with. -/
inductive Faulty (layers : List LayerEntry) (weights : Tensors) : Prop where
  /-- A layer that reads nothing. -/
  | unfed (l : LayerEntry) (hl : l ∈ layers) (hbody : ¬ l.IsInput) (h : l.inbound = [])
  /-- A layer, of inputs too, with more than kernel and bias. -/
  | heavy (l : LayerEntry) (hl : l ∈ layers) (h : 2 < l.weights.length)
  /-- A weight that is not there. -/
  | missing (l : LayerEntry) (hl : l ∈ layers) (hbody : ¬ l.IsInput) (name : String)
      (hname : name ∈ l.weights) (h : weights.find? name = none)
  /-- An inbound layer that is not there. -/
  | unknown (l : LayerEntry) (hl : l ∈ layers) (hbody : ¬ l.IsInput) (name : String)
      (hname : name ∈ l.inbound) (h : name ∉ outlineNames layers)
  /-- Two nodes of one name, of layers or constants. -/
  | collision (h : ¬ (outlineNames layers).Nodup)

/-! ## §2 — one layer -/

variable {weights : Tensors} {l : LayerEntry} {p : Piece}

theorem isInput_iff : LayerClass.ofName l.className = .input ↔ l.IsInput := by
  unfold LayerEntry.IsInput LayerClass.ofName
  split
  case h_1 h => exact iff_of_true rfl h
  case h_9 hinput _ _ _ _ _ _ _ => exact iff_of_false nofun hinput
  all_goals
    rename_i h
    rw [h]
    exact iff_of_false nofun (by decide)

/-- The constants of a layer are numbered, and each holds the weight of its place. -/
theorem layerWeights_eq_ok_iff {layer : String} {index : Nat} {names : List String}
    {constants : List (String × Tensor)} :
    layerWeights weights layer index names = .ok constants ↔
      constants.map Prod.fst = (List.range' index names.length).map (weightName layer) ∧
        List.Forall₂ (fun name c => weights.find? name = some c.2) names constants := by
  induction names generalizing index constants with
  | nil =>
    rw [layerWeights, List.forall₂_nil_left_iff]
    constructor
    · intro h
      cases h
      exact ⟨rfl, rfl⟩
    · rintro ⟨-, rfl⟩
      rfl
  | cons name names ih =>
    unfold layerWeights
    cases hfind : weights.find? name with
    | none => simp [hfind, List.forall₂_cons_left_iff]
    | some t =>
      dsimp only
      rw [Outcome.bind_eq_ok_iff, List.length_cons, List.range'_succ, List.map_cons]
      constructor
      · rintro ⟨rest, hrest, h⟩
        obtain rfl := Outcome.pure_eq_ok_iff.mp h
        obtain ⟨hnames, htensors⟩ := ih.mp hrest
        exact ⟨by rw [List.map_cons, hnames], .cons hfind htensors⟩
      · rintro ⟨hnames, htensors⟩
        cases htensors with
        | @cons _ c _ rest hc hrest =>
          obtain ⟨hname, hnames⟩ := List.cons.inj hnames
          refine ⟨rest, ih.mpr ⟨hnames, hrest⟩, ?_⟩
          rw [hfind] at hc
          rw [← hname, Option.some.inj hc]
          rfl

/-- What an input layer is read to. -/
theorem readLayer_input (hin : l.IsInput) (h : readLayer weights l = .ok p) :
    l.weights.length ≤ 2 ∧ ∃ n, p = .input n ∧ n.outline = l.placeholder := by
  unfold readLayer at h
  dsimp only at h
  rw [Outcome.check_eq_ok_iff, if_pos (isInput_iff.mpr hin)] at h
  obtain ⟨hweights, h⟩ := h
  obtain ⟨n, hn, h⟩ := Outcome.bind_eq_ok_iff.mp h
  refine ⟨Nat.not_lt.mp hweights, n, (Outcome.pure_eq_ok_iff.mp h).symm, ?_⟩
  unfold inputLayer at hn
  split at hn
  · cases hn
  · cases hn
    rfl

/-- What any other layer is read to. -/
theorem readLayer_body (hin : ¬ l.IsInput) (h : readLayer weights l = .ok p) :
    l.weights.length ≤ 2 ∧ l.inbound ≠ [] ∧ ∃ constants n, p = .body constants n ∧
      constants.map Prod.fst = l.constantNames ∧
      List.Forall₂ (fun name c => weights.find? name = some c.2) l.weights constants ∧
      n.outline = l.body := by
  unfold readLayer at h
  dsimp only at h
  rw [Outcome.check_eq_ok_iff, if_neg (mt isInput_iff.mp hin), Outcome.check_eq_ok_iff] at h
  obtain ⟨hweights, hinbound, h⟩ := h
  obtain ⟨constants, hconstants, h⟩ := Outcome.bind_eq_ok_iff.mp h
  obtain ⟨hnames, htensors⟩ := layerWeights_eq_ok_iff.mp hconstants
  rw [← List.range_eq_range'] at hnames
  refine ⟨Nat.not_lt.mp hweights, by simpa using hinbound, constants, _,
    (Outcome.pure_eq_ok_iff.mp h).symm, hnames, htensors, ?_⟩
  unfold Node.outline LayerEntry.body LayerEntry.constantNames
  rw [hnames]

/-! ## §3 — a stack -/

/-- Every layer of a stack is read to its piece. -/
def Pieces (weights : Tensors) : List LayerEntry → List Piece → Prop :=
  List.Forall₂ fun l p => readLayer weights l = .ok p

variable {layers : List LayerEntry} {pieces : List Piece} {signature : Option Signature} {g : Graph}

theorem Pieces.map_inputs (h : Pieces weights layers pieces) :
    (pieces.flatMap Piece.inputs).map Node.outline =
      (layers.filter fun l => l.IsInput).map LayerEntry.placeholder := by
  induction h with
  | nil => rfl
  | @cons l p _ _ hl _ ih =>
    rw [List.flatMap_cons, List.map_append, ih]
    by_cases hin : l.IsInput
    · obtain ⟨-, n, rfl, hn⟩ := readLayer_input hin hl
      rw [List.filter_cons_of_pos (by simp [hin]), List.map_cons, ← hn]
      rfl
    · obtain ⟨-, -, _, _, rfl, -⟩ := readLayer_body hin hl
      rw [List.filter_cons_of_neg (by simp [hin])]
      rfl

theorem Pieces.map_nodes (h : Pieces weights layers pieces) :
    (pieces.flatMap Piece.nodes).map Node.outline =
      (layers.filter fun l => ¬ l.IsInput).flatMap LayerEntry.block := by
  induction h with
  | nil => rfl
  | @cons l p _ _ hl _ ih =>
    rw [List.flatMap_cons, List.map_append, ih]
    by_cases hin : l.IsInput
    · obtain ⟨-, n, rfl, -⟩ := readLayer_input hin hl
      rw [List.filter_cons_of_neg (by simp [hin])]
      rfl
    · obtain ⟨-, -, constants, n, rfl, hnames, -, hn⟩ := readLayer_body hin hl
      rw [List.filter_cons_of_pos (by simp [hin]), List.flatMap_cons, LayerEntry.block, ← hnames, ← hn,
        Piece.nodes, List.map_append, List.map_map, List.map_map]
      rfl

theorem Pieces.map_constants (h : Pieces weights layers pieces) :
    (pieces.flatMap Piece.constants).map Prod.fst =
      (layers.filter fun l => ¬ l.IsInput).flatMap LayerEntry.constantNames := by
  induction h with
  | nil => rfl
  | @cons l p _ _ hl _ ih =>
    rw [List.flatMap_cons, List.map_append, ih]
    by_cases hin : l.IsInput
    · obtain ⟨-, n, rfl, -⟩ := readLayer_input hin hl
      rw [List.filter_cons_of_neg (by simp [hin])]
      rfl
    · obtain ⟨-, -, constants, n, rfl, hnames, -⟩ := readLayer_body hin hl
      rw [List.filter_cons_of_pos (by simp [hin]), List.flatMap_cons, ← hnames]
      rfl

/-- The weight of each place stands under the name of its constant. -/
theorem Pieces.exists_constant (h : Pieces weights layers pieces) (hl : l ∈ layers)
    (hin : ¬ l.IsInput) {i : Nat} (hi : i < l.weights.length) :
    ∃ t, weights.find? l.weights[i] = some t ∧
      (weightName l.name i, t) ∈ pieces.flatMap Piece.constants := by
  induction h with
  | nil => exact absurd hl List.not_mem_nil
  | @cons l' p _ _ hp _ ih =>
    rcases List.mem_cons.mp hl with rfl | hl
    · obtain ⟨-, -, constants, n, rfl, hnames, htensors, -⟩ := readLayer_body hin hp
      have hlength := htensors.length_eq
      have hic : i < constants.length := hlength ▸ hi
      refine ⟨constants[i].2, htensors.get hi hic, List.mem_flatMap.mpr ⟨_, List.mem_cons_self, ?_⟩⟩
      have hname : constants[i].1 = weightName l.name i := by
        have hat : (constants.map Prod.fst)[i]? = some (weightName l.name i) := by
          rw [hnames, LayerEntry.constantNames, List.getElem?_map, List.getElem?_range hi]
          rfl
        rw [List.getElem?_map, List.getElem?_eq_getElem hic] at hat
        exact Option.some.inj hat
      rw [← hname]
      exact List.getElem_mem hic
    · obtain ⟨t, ht, hmem⟩ := ih hl
      exact ⟨t, ht, by rw [List.flatMap_cons]; exact List.mem_append_right _ hmem⟩

/-- A layer of a stack is read to a piece. -/
theorem Pieces.exists_read (h : Pieces weights layers pieces) (hl : l ∈ layers) :
    ∃ p, readLayer weights l = .ok p := by
  obtain ⟨p, -, hp⟩ := Outcome.exists_result_of_mem (Outcome.mapM_eq_ok_iff.mpr h) hl
  exact ⟨p, hp⟩

/-- The graph of a stack is assembled from its pieces. -/
theorem exists_pieces (h : ofLayers layers weights signature = .ok g) :
    ∃ pieces, Pieces weights layers pieces ∧ g.nodes.map Node.outline = outlines layers ∧
      g.constants = .ofList (pieces.flatMap Piece.constants) := by
  unfold ofLayers at h
  obtain ⟨pieces, hpieces, h⟩ := Outcome.bind_eq_ok_iff.mp h
  have hread : Pieces weights layers pieces := Outcome.mapM_eq_ok_iff.mp hpieces
  obtain ⟨hnodes, hconstants, -, -⟩ := assemble_eq_ok h
  refine ⟨pieces, hread, ?_, hconstants⟩
  have hsame : Node.outline ∘ Node.withWeights (.ofList (pieces.flatMap Piece.constants)) =
      Node.outline := rfl
  rw [hnodes, List.map_map, hsame, List.map_append, hread.map_inputs, hread.map_nodes, outlines]

/-- Nodes and their outlines go by the same names. -/
theorem map_name_eq (h : g.nodes.map Node.outline = outlines layers) :
    g.nodes.map (·.name) = outlineNames layers := by
  rw [outlineNames, ← h, List.map_map]
  rfl

/-- Constants stand among the nodes of their stack, in order. -/
theorem constantNames_sublist (layers : List LayerEntry) :
    ((layers.filter fun l => ¬ l.IsInput).flatMap LayerEntry.constantNames).Sublist
      (outlineNames layers) := by
  unfold outlineNames outlines
  rw [List.map_append, List.map_flatMap]
  refine .trans (.flatMap_right _ fun l _ => ?_) (List.sublist_append_right _ _)
  have hsame : Outline.name ∘ (fun name => (⟨name, .const, []⟩ : Outline)) = id := rfl
  rw [LayerEntry.block, List.map_append, List.map_map, hsame, List.map_id]
  exact List.sublist_append_left _ _

/-- **The graph of a layer stack.** Names are distinct, so the tensor under the name of a constant is the
one that was put there for it. -/
theorem normalizes_of_ofLayers (h : ofLayers layers weights signature = .ok g) :
    Normalizes layers weights g := by
  obtain ⟨pieces, hpieces, hnodes, hconstants⟩ := exists_pieces h
  have hkeys := hpieces.map_constants
  have hdistinct : ((pieces.flatMap Piece.constants).map Prod.fst).Nodup := by
    rw [hkeys]
    exact (constantNames_sublist layers).nodup (map_name_eq hnodes ▸ g.distinct)
  refine ⟨hnodes, fun name => ?_, fun l hl hin i hi => ?_⟩
  · rw [hconstants, Named.contains_ofList_iff, hkeys, List.mem_flatMap]
    simp [and_assoc]
  · obtain ⟨t, ht, hmem⟩ := hpieces.exists_constant hl hin hi
    rw [ht, hconstants, Named.find?_ofList_eq_some_iff fun k a b ha hb => ?_]
    · exact hmem
    · exact congrArg Prod.snd (List.inj_on_of_nodup_map hdistinct ha hb rfl)

/-- **What a stack with a graph is free of.** -/
theorem not_faulty_of_ofLayers (h : ofLayers layers weights signature = .ok g) :
    ¬ Faulty layers weights := by
  obtain ⟨pieces, hpieces, hnodes, -⟩ := exists_pieces h
  have hnames := map_name_eq hnodes
  rintro (⟨l, hl, hin, hnone⟩ | ⟨l, hl, hmany⟩ | ⟨l, hl, hin, name, hname, hmissing⟩ |
    ⟨l, hl, hin, name, hname, hunknown⟩ | hcollision)
  case unfed =>
    obtain ⟨p, hp⟩ := hpieces.exists_read hl
    exact (readLayer_body hin hp).2.1 hnone
  case heavy =>
    obtain ⟨p, hp⟩ := hpieces.exists_read hl
    by_cases hin : l.IsInput
    · exact absurd (readLayer_input hin hp).1 (Nat.not_le.mpr hmany)
    · exact absurd (readLayer_body hin hp).1 (Nat.not_le.mpr hmany)
  case missing =>
    obtain ⟨i, hi, rfl⟩ := List.mem_iff_getElem.mp hname
    obtain ⟨t, ht, -⟩ := hpieces.exists_constant hl hin hi
    rw [hmissing] at ht
    cases ht
  case unknown =>
    -- the layer's own node is in the graph, and every input of a node is that of a node
    have hbody : l.body ∈ g.nodes.map Node.outline := by
      rw [hnodes, outlines]
      refine List.mem_append_right _ (List.mem_flatMap.mpr ⟨l, by simp [hl, hin], ?_⟩)
      exact List.mem_append_right _ List.mem_cons_self
    obtain ⟨n, hn, houtline⟩ := List.mem_map.mp hbody
    have hinput : Reference.first name ∈ n.inputs := by
      rw [show n.inputs = l.body.inputs from congrArg Outline.inputs houtline]
      exact List.mem_map_of_mem (List.mem_append_left _ hname)
    exact hunknown (hnames ▸ g.wired n hn _ hinput)
  case collision => exact hcollision (hnames ▸ g.distinct)

/-! ## §4 — how a stack fails -/

/-- What fails, fails with a fault of the graph. -/
def FailsAsGraph {α : Type} (x : Outcome α) : Prop := ∀ e, x = .error e → ∃ fault, e = .graph fault

section FailsAsGraph

variable {α β : Type} {x : Outcome α} {f : α → Outcome β}

theorem failsAsGraph_ok (a : α) : FailsAsGraph (.ok a) := nofun

theorem failsAsGraph_error (fault : GraphFault) : FailsAsGraph (.error (.graph fault) : Outcome α) :=
  fun _ h => ⟨fault, (Except.error.inj h).symm⟩

theorem FailsAsGraph.bind (hx : FailsAsGraph x) (hf : ∀ a, FailsAsGraph (f a)) :
    FailsAsGraph (x >>= f) := by
  intro e h
  rcases Outcome.bind_eq_error_iff.mp h with h | ⟨a, -, h⟩
  · exact hx e h
  · exact hf a e h

theorem failsAsGraph_mapM {items : List α} (hf : ∀ a, FailsAsGraph (f a)) :
    FailsAsGraph (items.mapM f) := by
  intro e h
  obtain ⟨a, -, h⟩ := Outcome.exists_of_mapM_eq_error h
  exact hf a e h

theorem failsAsGraph_forM {items : List α} {check : α → Outcome Unit}
    (hf : ∀ a, FailsAsGraph (check a)) : FailsAsGraph (items.forM check) := by
  induction items with
  | nil => exact failsAsGraph_ok ()
  | cons a items ih => exact (hf a).bind fun _ => ih

end FailsAsGraph

theorem failsAsGraph_required (n : Node) (key : String) : FailsAsGraph (n.required key) := by
  unfold Node.required
  split
  · exact failsAsGraph_ok _
  · exact failsAsGraph_error _

theorem failsAsGraph_checkAttributes (n : Node) : FailsAsGraph (checkAttributes n) := by
  have hlast : FailsAsGraph (if n.op = .resize ∧ n.inputs.length < 2 ∧ n.attr "size" = none ∧
      n.attr "scale" = none then n.required "size" >>= fun _ => pure () else pure ()) := by
    split
    · exact (failsAsGraph_required n _).bind fun _ => failsAsGraph_ok ()
    · exact failsAsGraph_ok ()
  unfold checkAttributes
  by_cases hconvolution : n.op.isConvolution
  · simp only [hconvolution, if_true]
    exact (failsAsGraph_required n _).bind fun _ => (failsAsGraph_required n _).bind fun _ => hlast
  · simp only [hconvolution, Bool.false_eq_true, if_false]
    exact hlast

theorem failsAsGraph_make (nodes : List Node) (constants : Tensors) (signature : Option Signature) :
    FailsAsGraph (make nodes constants signature) := by
  unfold make
  split
  · exact failsAsGraph_error _
  · split
    · exact failsAsGraph_error _
    · exact failsAsGraph_ok _

/-- **Assembling fails** with a fault of the graph. -/
theorem failsAsGraph_assemble (nodes : List Node) (constants : Tensors) (signature : Option Signature) :
    FailsAsGraph (assemble nodes constants signature) := by
  unfold assemble
  refine (failsAsGraph_forM failsAsGraph_checkAttributes).bind fun _ =>
    (failsAsGraph_make _ _ _).bind fun g => ?_
  split
  · exact failsAsGraph_error _
  · exact failsAsGraph_ok _

theorem failsAsGraph_layerWeights (layer : String) (index : Nat) (names : List String) :
    FailsAsGraph (layerWeights weights layer index names) := by
  induction names generalizing index with
  | nil => exact failsAsGraph_ok _
  | cons name names ih =>
    unfold layerWeights
    split
    · exact failsAsGraph_error _
    · exact (ih (index + 1)).bind fun _ => failsAsGraph_ok _

theorem failsAsGraph_inputLayer (l : LayerEntry) : FailsAsGraph (inputLayer l) := by
  unfold inputLayer
  split
  · exact failsAsGraph_error _
  · exact failsAsGraph_ok _

theorem failsAsGraph_readLayer (l : LayerEntry) : FailsAsGraph (readLayer weights l) := by
  unfold readLayer
  dsimp only
  split
  · exact failsAsGraph_error _
  · split
    · exact (failsAsGraph_inputLayer l).bind fun _ => failsAsGraph_ok _
    · split
      · exact failsAsGraph_error _
      · exact (failsAsGraph_layerWeights _ _ _).bind fun _ => failsAsGraph_ok _

/-- **A layer stack fails** with a fault of the graph. -/
theorem graphFault_of_ofLayers {e : Error} (h : ofLayers layers weights signature = .error e) :
    ∃ fault, e = .graph fault := by
  have hfails : FailsAsGraph (ofLayers layers weights signature) :=
    (failsAsGraph_mapM failsAsGraph_readLayer).bind fun _ => failsAsGraph_assemble _ _ _
  exact hfails e h

/-! ## §5 — descriptions -/

/-- A layer stack is built the same, whatever was built before. -/
theorem Builder.build_layers {d : Description} (h : d.topology = .layers layers) (b : Builder) :
    (b.build d weights).1 = ofLayers layers weights d.signature := by
  unfold Builder.build
  rw [h]

/-- **A layer stack becomes its graph or none**: a graph that a build of it gives is that of the stack, and
a faulty stack fails with a fault of the graph. -/
theorem layers_normalized {d : Description} (h : d.topology = .layers layers) (b : Builder) :
    (∀ g, (b.build d weights).1 = .ok g → Normalizes layers weights g) ∧
      (Faulty layers weights → ∃ fault, (b.build d weights).1 = .error (.graph fault)) := by
  rw [Builder.build_layers h]
  refine ⟨fun g hg => normalizes_of_ofLayers hg, fun hfaulty => ?_⟩
  cases hbuilt : ofLayers layers weights d.signature with
  | error e =>
    obtain ⟨fault, rfl⟩ := graphFault_of_ofLayers hbuilt
    exact ⟨fault, rfl⟩
  | ok g => exact absurd hfaulty (not_faulty_of_ofLayers hbuilt)

/-- A layer with a kernel, listed before the input layer that it reads. -/
def mixedLayers : List LayerEntry :=
  [⟨"mix", "Multiply", .empty, ["input"], ["k"]⟩,
   ⟨"input", "InputLayer", .ofList [("batch_input_shape", .array [.null, .nat 2])], [], []⟩]

/-- The kernel. -/
def mixedWeights : Tensors := .ofList [("k", ⟨[3], .float32 [.half, .six, .half], by decide⟩)]

/-- The description of the two layers. -/
def mixedDescription : Description := ⟨none, .layers mixedLayers, none, []⟩

/-- The two layers become three nodes, and without the kernel they become nothing. -/
theorem mixed_normalized :
    (∃ g, (Builder.fresh.build mixedDescription mixedWeights).1 = .ok g ∧
      g.nodes.map Node.outline = [⟨"input", .placeholder, []⟩, ⟨"mix/weight_0", .const, []⟩,
        ⟨"mix", .mul, [.first "input", .first "mix/weight_0"]⟩] ∧
      g.constants.find? "mix/weight_0" = mixedWeights.find? "k") ∧
    ∃ fault, (Builder.fresh.build mixedDescription .empty).1 = .error (.graph fault) := by
  constructor
  · obtain ⟨g, hg⟩ : ∃ g, (Builder.fresh.build mixedDescription mixedWeights).1 = .ok g :=
      Outcome.exists_of_isOk (by decide +kernel)
    have hn := (layers_normalized (d := mixedDescription) rfl Builder.fresh).1 g hg
    exact ⟨g, hg, hn.nodes.trans (by decide),
      hn.tensors mixedLayers[0] List.mem_cons_self (by decide) 0 (by decide)⟩
  · exact (layers_normalized (d := mixedDescription) rfl Builder.fresh).2
      (.missing mixedLayers[0] List.mem_cons_self (by decide) "k" (by decide) (by decide))

/-- An input layer that lists an inbound layer which is not there. -/
def strayLayers : List LayerEntry :=
  [⟨"x", "InputLayer", .ofList [("batch_input_shape", .array [.null, .nat 2])], ["ghost"], []⟩]

/-- The description of the stray layer. -/
def strayDescription : Description := ⟨none, .layers strayLayers, none, []⟩

/-- **What an input layer lists as inbound is left alone**, so it may name what is no node. -/
theorem stray_builds :
    (∃ l ∈ strayLayers, "ghost" ∈ l.inbound) ∧ "ghost" ∉ outlineNames strayLayers ∧
      ∃ g, (Builder.fresh.build strayDescription .empty).1 = .ok g :=
  ⟨⟨_, List.mem_cons_self, List.mem_cons_self⟩, by decide, Outcome.exists_of_isOk (by decide +kernel)⟩

end Graph

end TexelFlow
