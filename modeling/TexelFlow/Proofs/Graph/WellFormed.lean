import TexelFlow.Proofs.Graph.Layers
import TexelFlow.Proofs.Graph.Reading

/-!
# Well-formed graphs

What a schedule takes from a graph without asking: that names find their nodes, that every reference is to
the first output of a node that is there, that the constants are known by their nodes, and that operations
have what they need. Both kinds of topology are read to furnished nodes, those whose tensors are the tensors
of the constant nodes and whose fused operations have their activation. Assembling does the rest.

## Main statements

* `checkAttributes_eq_ok_iff` — what operations need.
* `Furnished.wellFormed` — what assembling makes of furnished nodes.
* `Builder.build_wellFormed` — every built graph is well formed.

## §1 — what is asked of a graph
## §2 — assembling
## §3 — operation graphs
## §4 — layer stacks
## §5 — builders
-/

namespace TexelFlow

open Model (NodeEntry LayerEntry Signature Description)

/-! ## §1 — what is asked of a graph -/

/-- A fused operation carries the activation that its fused operations stand for. -/
def Node.Activated (n : Node) : Prop :=
  ∃ fused ops activation, n.attr "fused_ops" = some fused ∧ fused.strings? = some ops ∧
    Graph.fusedActivation? ops = some activation ∧ n.attr "activation" = some (.string activation)

namespace Graph

/-- Whether a name is that of a constant node. -/
def namesConstant (g : Graph) (name : String) : Bool :=
  (g.node? name).any fun n => n.op = .const

/-- **A graph is well formed** when all holds that a schedule relies on. -/
structure WellFormed (g : Graph) : Prop where
  /-- Every node has a name. -/
  named : ∀ n ∈ g.nodes, n.name ≠ ""
  /-- No two nodes have one name. -/
  distinct : (g.nodes.map (·.name)).Nodup
  /-- A name finds the node that has it, and nothing else. -/
  found : ∀ name n, g.node? name = some n ↔ n ∈ g.nodes ∧ n.name = name
  /-- Every input is the first output of a node. -/
  wired : ∀ n ∈ g.nodes, ∀ r ∈ n.inputs, (∃ m ∈ g.nodes, m.name = r.node) ∧ r.index = 0
  /-- An identity has one input. -/
  identity : ∀ n ∈ g.nodes, n.op = .identity → n.inputs.length = 1
  /-- The tensors are those of the constant nodes. -/
  constants : ∀ name, g.constants.contains name ↔ ∃ n ∈ g.nodes, n.op = .const ∧ n.name = name
  /-- The weights of a node are its inputs that are constants, in order. -/
  weights : ∀ n ∈ g.nodes, n.weights = n.inputNames.filter g.namesConstant
  /-- A convolution has strides and padding. -/
  convolution : ∀ n ∈ g.nodes, n.op.isConvolution →
    (n.attr "strides").isSome ∧ (n.attr "padding").isSome
  /-- A fused convolution has the activation of its fused operations. -/
  fused : ∀ n ∈ g.nodes, n.op.isFused → n.Activated
  /-- A resize is told a size, a scale or where to read a size. -/
  resize : ∀ n ∈ g.nodes, n.op = .resize →
    (n.attr "size").isSome ∨ (n.attr "scale").isSome ∨ 2 ≤ n.inputs.length

/-! ## §2 — assembling -/

variable {g : Graph} {n : Node}

theorem required_eq_ok_iff {key : String} {a : Attribute} :
    n.required key = .ok a ↔ n.attr key = some a := by
  unfold Node.required
  cases n.attr key with
  | none => simp
  | some b => simp

/-- A step behind an attribute that must be there. -/
theorem required_bind_eq_ok_iff {α : Type} {key : String} {x : Outcome α} {a : α} :
    (n.required key >>= fun _ => x) = .ok a ↔ (n.attr key).isSome ∧ x = .ok a := by
  rw [Outcome.bind_eq_ok_iff, Option.isSome_iff_exists]
  simp only [required_eq_ok_iff, exists_and_right]

/-- **What operations need**: a convolution its strides and padding, a resize some word on its size. -/
theorem checkAttributes_eq_ok_iff : checkAttributes n = .ok () ↔
    (n.op.isConvolution → (n.attr "strides").isSome ∧ (n.attr "padding").isSome) ∧
      (n.op = .resize →
        (n.attr "size").isSome ∨ (n.attr "scale").isSome ∨ 2 ≤ n.inputs.length) := by
  have hresize : (if n.op = .resize ∧ n.inputs.length < 2 ∧ n.attr "size" = none ∧ n.attr "scale" = none
      then n.required "size" >>= fun _ => pure () else pure () : Outcome Unit) = .ok () ↔
      (n.op = .resize →
        (n.attr "size").isSome ∨ (n.attr "scale").isSome ∨ 2 ≤ n.inputs.length) := by
    split
    · rename_i h
      obtain ⟨hop, hlength, hsize, hscale⟩ := h
      rw [required_bind_eq_ok_iff, hsize, hscale]
      exact iff_of_false (fun h => Bool.false_ne_true h.1) fun h => by
        rcases h hop with h | h | h
        · exact Bool.false_ne_true h
        · exact Bool.false_ne_true h
        · omega
    · rename_i h
      refine iff_of_true rfl fun hop => ?_
      by_contra hno
      simp only [not_or, Bool.not_eq_true, Option.isSome_eq_false_iff, Option.isNone_iff_eq_none] at hno
      exact h ⟨hop, Nat.not_le.mp hno.2.2, hno.1, hno.2.1⟩
  unfold checkAttributes
  by_cases hconvolution : n.op.isConvolution
  · simp only [hconvolution, if_true, required_bind_eq_ok_iff, hresize, forall_const, and_assoc]
  · simp only [hconvolution, if_false, hresize, false_implies, true_and, Bool.false_eq_true]

/-- Nodes and tensors are furnished when the tensors are those of the constant nodes, in order, and fused
operations have their activation. -/
structure Furnished (nodes : List Node) (constants : List (String × Tensor)) : Prop where
  /-- A tensor for each constant node. -/
  keys : constants.map Prod.fst = (nodes.filter fun n => n.op = .const).map (·.name)
  /-- An activation for each fused operation. -/
  activated : ∀ n ∈ nodes, n.op.isFused → n.Activated

theorem furnished_nil : Furnished [] [] := ⟨rfl, fun _ h => absurd h List.not_mem_nil⟩

theorem Furnished.append {nodes nodes' : List Node} {constants constants' : List (String × Tensor)}
    (h : Furnished nodes constants) (h' : Furnished nodes' constants') :
    Furnished (nodes ++ nodes') (constants ++ constants') where
  keys := by rw [List.map_append, List.filter_append, List.map_append, h.keys, h'.keys]
  activated := List.forall_mem_append.mpr ⟨h.activated, h'.activated⟩

/-- What is furnished piece by piece is furnished. -/
theorem furnished_flatMap {α : Type} {items : List α} {nodes : α → List Node}
    {constants : α → List (String × Tensor)} (h : ∀ a ∈ items, Furnished (nodes a) (constants a)) :
    Furnished (items.flatMap nodes) (items.flatMap constants) := by
  induction items with
  | nil => exact furnished_nil
  | cons a items ih =>
    rw [List.forall_mem_cons] at h
    exact h.1.append (ih h.2)

/-- Nodes that were assembled have what they need. -/
theorem checkAttributes_of_assemble {nodes : List Node} {constants : Tensors}
    {signature : Option Signature} (h : assemble nodes constants signature = .ok g) :
    ∀ n ∈ g.nodes, checkAttributes n = .ok () := by
  have hnodes := (assemble_eq_ok h).1
  unfold assemble at h
  obtain ⟨_, hcheck, -⟩ := Outcome.bind_eq_ok_iff.mp h
  rw [hnodes, List.forall_mem_map]
  exact Outcome.forM_eq_ok_iff.mp hcheck

/-- **Assembling furnished nodes** gives a well-formed graph. -/
theorem Furnished.wellFormed {nodes : List Node} {constants : List (String × Tensor)}
    {signature : Option Signature} (hf : Furnished nodes constants)
    (h : assemble nodes (.ofList constants) signature = .ok g) : WellFormed g := by
  obtain ⟨hnodes, hconstants, -, hsound⟩ := assemble_eq_ok h
  have hinputs := fun n hn => inputFault_eq_none_iff.mp (hsound n hn)
  have hneeds := fun n hn => checkAttributes_eq_ok_iff.mp (checkAttributes_of_assemble h n hn)
  have hkeys : ∀ name, g.constants.contains name ↔ ∃ n ∈ g.nodes, n.op = .const ∧ n.name = name := by
    intro name
    rw [hconstants, Named.contains_ofList_iff, hf.keys, hnodes]
    simp [Node.withWeights, and_assoc]
  -- a name is that of a constant node exactly when a tensor goes by it
  have hnames : g.namesConstant = (Named.ofList constants).contains := by
    funext name
    rw [Bool.eq_iff_iff, ← hconstants, hkeys, namesConstant, Option.any_eq_true]
    simp only [node?_eq_some_iff, decide_eq_true_eq]
    exact exists_congr fun n => by tauto
  refine ⟨g.named, g.distinct, fun _ _ => node?_eq_some_iff,
    fun n hn r hr => ⟨exists_node_of_input hn hr, (hinputs n hn).1 r hr⟩, fun n hn => (hinputs n hn).2,
    hkeys, ?weights, fun n hn => (hneeds n hn).1, ?fused, fun n hn => (hneeds n hn).2⟩
  case weights =>
    rw [hnames, hnodes, List.forall_mem_map]
    exact fun n _ => rfl
  case fused =>
    rw [hnodes, List.forall_mem_map]
    exact hf.activated

/-! ## §3 — operation graphs -/

/-- Folding leaves what a node is called and does, and gives it its activation. -/
theorem foldFused_eq_ok {n' : Node} (h : foldFused n = .ok n') :
    n'.name = n.name ∧ n'.op = n.op ∧ n'.Activated := by
  unfold foldFused at h
  obtain ⟨fused, hfused, h⟩ := Outcome.bind_eq_ok_iff.mp h
  split at h
  · cases h
  · rename_i ops hops
    split at h
    · cases h
    · rename_i activation hactivation
      obtain rfl := Outcome.pure_eq_ok_iff.mp h
      refine ⟨rfl, rfl, fused, ops, activation, ?_, hops, hactivation, ?_⟩
      · rw [Node.attr, Named.find?_insert]
        exact required_eq_ok_iff.mp hfused
      · rw [Node.attr, Named.find?_insert]
        rfl

/-- The node of an operation has its name and its operation, and its activation if it is fused. -/
theorem readOperation_eq_ok {entry : NodeEntry} {inputs : List Reference}
    (h : readOperation entry inputs = .ok n) :
    n.name = entry.name ∧ n.op = Operator.ofName entry.op ∧ (n.op.isFused → n.Activated) := by
  unfold readOperation at h
  dsimp only at h
  split at h
  · obtain ⟨hname, hop, hactivated⟩ := foldFused_eq_ok h
    exact ⟨hname, hop, fun _ => hactivated⟩
  · rename_i hplain
    obtain rfl := Except.ok.inj h
    exact ⟨rfl, rfl, fun h => absurd h hplain⟩

/-- **An entry of an operation graph is read furnished.** -/
theorem furnished_of_readEntry {weights : Tensors} {entry : NodeEntry}
    {constants : List (String × Tensor)} (h : readEntry weights entry = .ok (n, constants)) :
    Furnished [n] constants := by
  unfold readEntry at h
  obtain ⟨inputs, -, h⟩ := Outcome.bind_eq_ok_iff.mp h
  obtain ⟨held, hheld, h⟩ := Outcome.bind_eq_ok_iff.mp h
  obtain ⟨node, hnode, h⟩ := Outcome.bind_eq_ok_iff.mp h
  obtain ⟨rfl, rfl⟩ := Prod.mk.inj (Outcome.pure_eq_ok_iff.mp h)
  obtain ⟨hname, hop, hactivated⟩ := readOperation_eq_ok hnode
  refine ⟨?_, List.forall_mem_singleton.mpr hactivated⟩
  unfold readConstant at hheld
  split at hheld
  · rename_i hconst
    rw [List.filter_cons_of_pos (by simp [hop, hconst]), List.map_cons, hname]
    split at hheld
    · obtain rfl := Except.ok.inj hheld
      rfl
    · cases hheld
  · rename_i hconst
    obtain rfl := Except.ok.inj hheld
    rw [List.filter_cons_of_neg (by simp [hop, hconst])]
    rfl

/-! ## §4 — layer stacks -/

/-- A layer is never a constant, nor is it fused. -/
theorem layerOperator_plain (c : LayerClass) (l : LayerEntry) :
    layerOperator c l ≠ .const ∧ (layerOperator c l).isFused = false := by
  unfold layerOperator
  repeat' split
  all_goals exact ⟨nofun, rfl⟩

/-- A node that is neither a constant nor fused needs nothing. -/
theorem furnished_plain (h : n.op ≠ .const) (hfused : n.op.isFused = false) : Furnished [n] [] where
  keys := by rw [List.filter_cons_of_neg (by simp [h])]; rfl
  activated := List.forall_mem_singleton.mpr fun hn => by simp [hfused] at hn

/-- Constant nodes are furnished by their tensors. -/
theorem furnished_constants (constants : List (String × Tensor)) :
    Furnished (constants.map fun c => Node.bare c.1 .const) constants where
  keys := by
    rw [List.filter_eq_self.mpr (List.forall_mem_map.mpr fun _ _ => rfl), List.map_map]
    rfl
  activated := List.forall_mem_map.mpr fun _ _ h => Bool.noConfusion h

/-- **A layer is read furnished**, whether to a placeholder or to constants and a node. -/
theorem furnished_of_readLayer {weights : Tensors} {l : LayerEntry} {p : Piece}
    (h : readLayer weights l = .ok p) : Furnished p.inputs [] ∧ Furnished p.nodes p.constants := by
  by_cases hin : l.IsInput
  · obtain ⟨-, node, rfl, hnode⟩ := readLayer_input hin h
    have hop : node.op = .placeholder := congrArg Outline.op hnode
    exact ⟨furnished_plain (hop ▸ nofun) (hop ▸ rfl), furnished_nil⟩
  · obtain ⟨-, -, constants, node, rfl, -, -, hnode⟩ := readLayer_body hin h
    have hop : node.op = _ := congrArg Outline.op hnode
    obtain ⟨hconst, hfused⟩ := layerOperator_plain (LayerClass.ofName l.className) l
    have hbody : Furnished [node] [] := furnished_plain (hop ▸ hconst) (hop ▸ hfused)
    refine ⟨furnished_nil, ?_⟩
    have hall := (furnished_constants constants).append hbody
    rwa [List.append_nil] at hall

/-! ## §5 — builders -/

/-- **Every built graph is well formed**, of either kind of topology and whatever was built before. -/
theorem Builder.build_wellFormed (b : Builder) {d : Description} {weights : Tensors}
    (h : (b.build d weights).1 = .ok g) : WellFormed g := by
  unfold Builder.build at h
  split at h
  · rename_i entries _
    change (ofNodes entries weights d.signature b.memo).1 = .ok g at h
    rw [ofNodes_fst] at h
    obtain ⟨pairs, hpairs, h⟩ := Outcome.bind_eq_ok_iff.mp h
    refine Furnished.wellFormed (?_ : Furnished (pairs.map Prod.fst) _) h
    rw [List.map_eq_flatMap]
    refine furnished_flatMap fun pair hpair => ?_
    obtain ⟨entry, -, hentry⟩ := Outcome.exists_of_mem_results hpairs hpair
    exact furnished_of_readEntry hentry
  · unfold ofLayers at h
    obtain ⟨pieces, hpieces, h⟩ := Outcome.bind_eq_ok_iff.mp h
    have hread : ∀ p ∈ pieces, Furnished p.inputs [] ∧ Furnished p.nodes p.constants := by
      intro p hp
      obtain ⟨l, -, hl⟩ := Outcome.exists_of_mem_results hpieces hp
      exact furnished_of_readLayer hl
    have hinputs : Furnished (pieces.flatMap Piece.inputs) (pieces.flatMap fun _ => []) :=
      furnished_flatMap fun p hp => (hread p hp).1
    have hall := hinputs.append (furnished_flatMap fun p hp => (hread p hp).2)
    rw [List.flatMap_eq_nil_iff.mpr fun _ _ => rfl, List.nil_append] at hall
    exact hall.wellFormed h

/-- A fused convolution that also waits for its input, between two of its references to constants. -/
def fusedEntries : List NodeEntry :=
  [⟨"x", "Placeholder", [], .empty⟩,
   ⟨"k", "Const", [], .empty⟩,
   ⟨"c", "_FusedConv2D", ["x:0", "k", "^x", "k:0"],
    .ofList [("strides", .numbers [.one, .one]), ("padding", .string "same"),
      ("fused_ops", .strings ["BiasAdd", "Relu"])]⟩]

/-- Kernel and bias in one. -/
def fusedWeights : Tensors := .ofList [("k", ⟨[1, 1, 2, 1], .float32 [.half, .six], by decide⟩)]

/-- The description of the fused convolution. -/
def fusedDescription : Description := ⟨none, .graph fusedEntries, none, []⟩

/-- The graph of the fused convolution: its constant stands for two of its inputs, and the reference that
only waits for the input is gone. -/
def fusedGraph : Graph where
  nodes := [.bare "x" .placeholder, .bare "k" .const,
    ⟨"c", .fusedConv, [.first "x", .first "k", .first "k"],
      .ofList [("strides", .numbers [.one, .one]), ("padding", .string "same"),
        ("fused_ops", .strings ["BiasAdd", "Relu"]), ("activation", .string "relu")], ["k", "k"]⟩]
  constants := fusedWeights
  signature := none
  named := by decide
  distinct := by decide
  wired := by decide
  given := by decide

/-- A builder that failed on the fused convolution for want of its constant. -/
def stalled : Builder := (Builder.fresh.build fusedDescription .empty).2

/-- The builder that failed before builds the graph once it has the constant. -/
theorem stalled_wellFormed :
    (Builder.fresh.build fusedDescription .empty).1.isOk = false ∧
    (stalled.build fusedDescription fusedWeights).1 = .ok fusedGraph ∧ WellFormed fusedGraph := by
  have hbuild : (stalled.build fusedDescription fusedWeights).1 = .ok fusedGraph := by decide +kernel
  exact ⟨by decide +kernel, hbuild, stalled.build_wellFormed hbuild⟩

end Graph

end TexelFlow
