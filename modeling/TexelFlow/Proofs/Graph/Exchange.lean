import TexelFlow.Proofs.Graph.Built
import TexelFlow.Proofs.Operator.Exchange
import TexelFlow.Proofs.Schedule.Cycle

/-!
# Graphs with operands exchanged

Of chosen sums and products the two inputs are exchanged; everything else of a graph stays, and the weights
of a node follow the new order of its inputs. The graph is built as the first one was, and exchanging the
inputs again gives the first one back. Which node reads which is the same, and so is all that follows from
it: cycles, what nodes stand for, and the outputs that are resolved.

## Main statements

* `assemble_self` — nodes that have what they need are assembled to their graph.
* `Built.exchange` — a graph with operands exchanged is built.
* `exchange_exchange` — exchanging operands twice gives the first graph back.
* `reaches_exchange`, `standsFor_exchange`, `resolveOutputs_exchange` — what is the same for both graphs.

## §1 — exchanging operands
## §2 — graphs that are built
## §3 — what nodes read
## §4 — outputs
-/

namespace TexelFlow

/-! ## §1 — exchanging operands -/

namespace Node

variable {n : Node} {constants : Tensors} {chosen : String → Bool}

/-- A node with its two operands exchanged, if it is chosen and neither of them comes first. -/
def exchange (constants : Tensors) (chosen : String → Bool) (n : Node) : Node :=
  match chosen n.name && n.op.isPairwise, n.inputs with
  | true, [a, b] => withWeights constants { n with inputs := [b, a] }
  | _, _ => n

/-- **Either two operands are exchanged**, or the node stays as it is. -/
theorem exchange_cases (constants : Tensors) (chosen : String → Bool) (n : Node) :
    (chosen n.name ∧ n.op.isPairwise ∧ ∃ a b, n.inputs = [a, b] ∧
      n.exchange constants chosen = withWeights constants { n with inputs := [b, a] }) ∨
    n.exchange constants chosen = n := by
  unfold exchange
  split
  · rename_i a b hchosen hinputs
    rw [Bool.and_eq_true] at hchosen
    exact .inl ⟨hchosen.1, hchosen.2, a, b, hinputs, rfl⟩
  · exact .inr rfl

/-- The operands of a chosen node are exchanged. -/
theorem exchange_pair (hchosen : chosen n.name) (hop : n.op.isPairwise) {a b : Reference}
    (h : n.inputs = [a, b]) :
    n.exchange constants chosen = withWeights constants { n with inputs := [b, a] } := by
  unfold exchange
  rw [hchosen, hop, h]
  rfl

theorem exchange_inputNames (hchosen : chosen n.name) (hop : n.op.isPairwise) {a b : String}
    (h : n.inputNames = [a, b]) : (n.exchange constants chosen).inputNames = [b, a] := by
  unfold inputNames at h
  obtain ⟨first, rest, hinputs, rfl, hrest⟩ := List.map_eq_cons_iff.mp h
  obtain ⟨second, rfl, rfl⟩ := List.map_eq_singleton_iff.mp hrest
  rw [exchange_pair hchosen hop hinputs]
  rfl

/-- A node stays as it is unless it is chosen and has two operands of which neither comes first. -/
theorem exchange_eq_self (h : ∀ a b, chosen n.name → n.op.isPairwise → n.inputs ≠ [a, b]) :
    n.exchange constants chosen = n := by
  obtain ⟨hchosen, hop, a, b, hinputs, -⟩ | he := exchange_cases constants chosen n
  · exact absurd hinputs (h a b hchosen hop)
  · exact he

theorem exchange_of_not_isPairwise (h : ¬ n.op.isPairwise) : n.exchange constants chosen = n :=
  (exchange_cases constants chosen n).resolve_left fun hpair => h hpair.2.1

@[simp] theorem exchange_name : (n.exchange constants chosen).name = n.name := by
  obtain ⟨-, -, a, b, -, h⟩ | h := exchange_cases constants chosen n
  · rw [h]
    rfl
  · rw [h]

@[simp] theorem exchange_op : (n.exchange constants chosen).op = n.op := by
  obtain ⟨-, -, a, b, -, h⟩ | h := exchange_cases constants chosen n
  · rw [h]
    rfl
  · rw [h]

/-- The inputs are the same ones. -/
theorem mem_exchange_inputs {r : Reference} : r ∈ (n.exchange constants chosen).inputs ↔ r ∈ n.inputs := by
  obtain ⟨-, -, a, b, hinputs, h⟩ | h := exchange_cases constants chosen n
  · rw [h, hinputs]
    exact List.mem_pair.trans (or_comm.trans List.mem_pair.symm)
  · rw [h]

theorem mem_exchange_inputNames {name : String} :
    name ∈ (n.exchange constants chosen).inputNames ↔ name ∈ n.inputNames := by
  unfold inputNames
  rw [List.mem_map, List.mem_map]
  exact exists_congr fun r => and_congr_left fun _ => mem_exchange_inputs

/-- Weights that follow the inputs follow them in their new order. -/
theorem withWeights_exchange (h : n.withWeights constants = n) :
    (n.exchange constants chosen).withWeights constants = n.exchange constants chosen := by
  obtain ⟨-, -, a, b, -, he⟩ | he := exchange_cases constants chosen n
  · rw [he]
    rfl
  · rw [he, h]

/-- **Exchanging operands twice** gives a node back whose weights follow its inputs. -/
theorem exchange_exchange (h : n.withWeights constants = n) :
    (n.exchange constants chosen).exchange constants chosen = n := by
  obtain ⟨hchosen, hop, a, b, hinputs, he⟩ | he := exchange_cases constants chosen n
  · have hback : withWeights constants { n with inputs := [a, b] } = n.withWeights constants := by
      rw [← hinputs]
    rw [he]
    exact (exchange_pair (n := withWeights constants { n with inputs := [b, a] }) hchosen hop rfl).trans
      (hback.trans h)
  · rw [he, he]

end Node

namespace Graph

variable {g : Graph} {chosen : String → Bool} {n : Node}

theorem map_exchange_name (constants : Tensors) (chosen : String → Bool) (nodes : List Node) :
    (nodes.map (Node.exchange constants chosen)).map (·.name) = nodes.map (·.name) := by
  rw [List.map_map]
  exact List.map_congr_left fun n _ => Node.exchange_name

/-- **A graph with the operands of chosen nodes exchanged.** -/
def exchange (g : Graph) (chosen : String → Bool) : Graph where
  nodes := g.nodes.map (Node.exchange g.constants chosen)
  constants := g.constants
  signature := g.signature
  named := by
    simp only [List.forall_mem_map, Node.exchange_name]
    exact g.named
  distinct := by
    rw [map_exchange_name]
    exact g.distinct
  wired := by
    simp only [List.forall_mem_map, Node.mem_exchange_inputs, map_exchange_name]
    exact g.wired
  given := by
    simp only [List.forall_mem_map, Node.exchange_op, Node.exchange_name]
    exact g.given

theorem mem_exchange_nodes {m : Node} :
    m ∈ (g.exchange chosen).nodes ↔ ∃ n ∈ g.nodes, n.exchange g.constants chosen = m :=
  List.mem_map

/-! ## §2 — graphs that are built -/

/-- The nodes of a graph make the graph. -/
theorem make_self (g : Graph) : make g.nodes g.constants g.signature = .ok g := by
  have hnames : nameFault [] g.nodes = none :=
    nameFault_eq_none_iff.mpr ⟨fun n hn => ⟨g.named n hn, List.not_mem_nil⟩, g.distinct⟩
  have hwiring : g.nodes.findSome? (wiringFault (g.nodes.map (·.name)) g.constants) = none :=
    List.findSome?_eq_none_iff.mpr fun n hn => wiringFault_eq_none_iff.mpr ⟨g.wired n hn, g.given n hn⟩
  unfold make
  split
  · rename_i fault hfault
    cases hnames.symm.trans hfault
  · split
    · rename_i fault hfault
      cases hwiring.symm.trans hfault
    · rfl

/-- What assembling asks of a node of a graph. -/
structure Assembled (g : Graph) (n : Node) : Prop where
  /-- The attributes are there that the operation needs. -/
  attributes : checkAttributes n = .ok ()
  /-- The weights follow the inputs. -/
  weights : n.withWeights g.constants = n
  /-- First outputs are read, and one of them by an identity. -/
  inputs : inputFault n = none

/-- **Nodes that have what they need** are assembled to their graph. -/
theorem assemble_self (h : ∀ n ∈ g.nodes, g.Assembled n) :
    assemble g.nodes g.constants g.signature = .ok g := by
  have hweights : g.nodes.map (Node.withWeights g.constants) = g.nodes :=
    (List.map_congr_left fun n hn => (h n hn).weights).trans (List.map_id' _)
  have hfault : g.nodes.findSome? inputFault = none :=
    List.findSome?_eq_none_iff.mpr fun n hn => (h n hn).inputs
  unfold assemble
  refine Outcome.bind_eq_ok_iff.mpr ⟨(), Outcome.forM_eq_ok_iff.mpr fun n hn => (h n hn).attributes, ?_⟩
  refine Outcome.bind_eq_ok_iff.mpr ⟨g, ?_, ?_⟩
  · rw [hweights]
    exact make_self g
  · rw [hfault]
    rfl

/-- The nodes of a built graph have what they need. -/
theorem Built.assembled_of_mem (hb : g.Built) (hn : n ∈ g.nodes) : g.Assembled n := by
  obtain ⟨nodes, constants, signature, hassemble⟩ := hb.exists_assemble
  obtain ⟨hnodes, rfl, -, hinputs⟩ := assemble_eq_ok hassemble
  have hn' := hn
  rw [hnodes] at hn'
  obtain ⟨m, hm, rfl⟩ := List.mem_map.mp hn'
  unfold assemble at hassemble
  obtain ⟨⟨⟩, hattributes, -⟩ := Outcome.bind_eq_ok_iff.mp hassemble
  -- the weights are no matter of the attributes
  exact ⟨Outcome.forM_eq_ok_iff.mp hattributes m hm, rfl, hinputs _ hn⟩

/-- A pairwise operation needs no attributes. -/
theorem checkAttributes_of_isPairwise (h : n.op.isPairwise) : checkAttributes n = .ok () := by
  unfold checkAttributes
  rcases Operator.isPairwise_iff.mp h with h | h
  · simp [h, Operator.isConvolution]
  · simp [h, Operator.isConvolution]

/-- A node that has what it needs still has it with its operands exchanged. -/
theorem Assembled.exchange (h : g.Assembled n) :
    (g.exchange chosen).Assembled (n.exchange g.constants chosen) := by
  refine ⟨?_, Node.withWeights_exchange h.weights, ?_⟩
  · by_cases hop : n.op.isPairwise
    · exact checkAttributes_of_isPairwise (by rwa [Node.exchange_op])
    · rw [Node.exchange_of_not_isPairwise hop]
      exact h.attributes
  · obtain ⟨hfirst, hidentity⟩ := inputFault_eq_none_iff.mp h.inputs
    refine inputFault_eq_none_iff.mpr ⟨fun r hr => hfirst r (Node.mem_exchange_inputs.mp hr), fun hop => ?_⟩
    rw [Node.exchange_op] at hop
    rw [Node.exchange_of_not_isPairwise (by rw [hop]; decide)]
    exact hidentity hop

/-- **A graph with operands exchanged is built.** -/
theorem Built.exchange (hb : g.Built) (chosen : String → Bool) : (g.exchange chosen).Built := by
  refine .assembled _ _ _ (assemble_self fun m hm => ?_)
  obtain ⟨n, hn, rfl⟩ := mem_exchange_nodes.mp hm
  exact (hb.assembled_of_mem hn).exchange

/-- **Exchanging operands twice** gives the first graph back. -/
theorem exchange_exchange (hb : g.Built) (chosen : String → Bool) :
    (g.exchange chosen).exchange chosen = g := by
  have hnodes : ((g.exchange chosen).exchange chosen).nodes = g.nodes := by
    unfold exchange
    dsimp only
    rw [List.map_map]
    exact (List.map_congr_left fun n hn => Node.exchange_exchange (hb.assembled_of_mem hn).weights).trans
      (List.map_id' _)
  have hmake := make_self ((g.exchange chosen).exchange chosen)
  rw [hnodes] at hmake
  exact Except.ok.inj (hmake.symm.trans (make_self g))

/-! ## §3 — what nodes read -/

/-- **Which node reads which** is no matter of the order. -/
theorem feeds_exchange (g : Graph) (chosen : String → Bool) : (g.exchange chosen).Feeds = g.Feeds := by
  funext source target
  refine propext ⟨?_, ?_⟩
  · rintro ⟨m, hm, hname, hinput⟩
    obtain ⟨n, hn, rfl⟩ := mem_exchange_nodes.mp hm
    exact ⟨n, hn, Node.exchange_name.symm.trans hname, Node.mem_exchange_inputNames.mp hinput⟩
  · rintro ⟨n, hn, hname, hinput⟩
    exact ⟨_, mem_exchange_nodes.mpr ⟨n, hn, rfl⟩, Node.exchange_name.trans hname,
      Node.mem_exchange_inputNames.mpr hinput⟩

theorem reaches_exchange (g : Graph) (chosen : String → Bool) : (g.exchange chosen).Reaches = g.Reaches := by
  unfold Reaches
  rw [feeds_exchange]

/-- The nodes are ordered where those of the first graph are. -/
theorem exists_ordered_exchange_iff (g : Graph) (chosen : String → Bool) :
    (∃ order, (g.exchange chosen).ordered = .ok order) ↔ ∃ order, g.ordered = .ok order := by
  rw [exists_ordered_iff, exists_ordered_iff]
  unfold OnCycle
  rw [feeds_exchange]

theorem node?_exchange (name : String) :
    (g.exchange chosen).node? name = (g.node? name).map (Node.exchange g.constants chosen) := by
  unfold node? exchange
  dsimp only
  rw [List.find?_map]
  refine congrArg _ (List.find?_congr fun n _ => ?_)
  rw [Function.comp_apply, Node.exchange_name]

/-- Identities are followed to the same ends. -/
theorem follow_exchange (steps : Nat) (name : String) :
    (g.exchange chosen).follow steps name = g.follow steps name := by
  induction steps generalizing name with
  | zero => rfl
  | succ steps ih =>
    rw [follow, follow, node?_exchange]
    cases g.node? name with
    | none => rfl
    | some n =>
      rw [Option.map_some]
      dsimp only
      rw [Node.exchange_op]
      by_cases hop : n.op = .identity
      · rw [if_pos hop, if_pos hop, Node.exchange_of_not_isPairwise (by rw [hop]; decide)]
        cases n.inputs with
        | nil => rfl
        | cons r inputs => exact ih r.node
      · rw [if_neg hop, if_neg hop]

/-- **What a name stands for** is the same. -/
theorem standsFor_exchange (g : Graph) (chosen : String → Bool) :
    (g.exchange chosen).standsFor = g.standsFor := by
  funext name
  unfold standsFor
  rw [follow_exchange]
  exact congrArg (g.follow · name) (List.length_map _)

/-- A node that reads what its inputs stand for has its operands exchanged likewise. -/
theorem repointed_exchange (n : Node) : (g.exchange chosen).repointed (n.exchange g.constants chosen) =
    (g.repointed n).exchange g.constants chosen := by
  unfold repointed
  rw [standsFor_exchange]
  by_cases hpair : ∃ a b, n.inputs = [a, b] ∧ chosen n.name ∧ n.op.isPairwise
  · obtain ⟨a, b, hinputs, hchosen, hop⟩ := hpair
    rw [Node.exchange_pair hchosen hop hinputs, hinputs]
    let read : List Reference := [a, b].map fun r => { r with node := g.standsFor r.node }
    exact (Node.exchange_pair (n := Node.withWeights g.constants { n with inputs := read })
      hchosen hop rfl).symm
  · rw [Node.exchange_eq_self fun a b hchosen hop hinputs => hpair ⟨a, b, hinputs, hchosen, hop⟩]
    refine (Node.exchange_eq_self fun a b hchosen hop hinputs => hpair ?_).symm
    obtain ⟨a', inputs, hinputs', -, hrest⟩ := List.map_eq_cons_iff.mp hinputs
    obtain ⟨b', rfl, -⟩ := List.map_eq_singleton_iff.mp hrest
    exact ⟨a', b', hinputs', hchosen, hop⟩

/-! ## §4 — outputs -/

/-- The names that are read by some node are the same. -/
theorem mem_read_exchange {name : String} : name ∈ (g.exchange chosen).nodes.flatMap Node.inputNames ↔
    name ∈ g.nodes.flatMap Node.inputNames := by
  unfold exchange
  rw [List.flatMap_map, List.mem_flatMap, List.mem_flatMap]
  exact exists_congr fun n => and_congr_right fun _ => Node.mem_exchange_inputNames

theorem sinkNames_exchange (g : Graph) (chosen : String → Bool) :
    (g.exchange chosen).sinks.map (·.name) = g.sinks.map (·.name) := by
  unfold sinks
  dsimp only
  simp only [mem_read_exchange]
  unfold exchange
  dsimp only
  rw [List.filter_map, List.map_map]
  have hsinks : (fun n : Node => decide (n.name ∉ g.nodes.flatMap Node.inputNames ∧ !n.op.isData)) ∘
      Node.exchange g.constants chosen =
      fun n => decide (n.name ∉ g.nodes.flatMap Node.inputNames ∧ !n.op.isData) := by
    funext n
    rw [Function.comp_apply, Node.exchange_name, Node.exchange_op]
  rw [hsinks]
  exact List.map_congr_left fun n _ => Node.exchange_name

/-- **The outputs** are resolved alike. -/
theorem resolveOutputs_exchange (g : Graph) (chosen : String → Bool) (wanted : List String) :
    (g.exchange chosen).resolveOutputs wanted = g.resolveOutputs wanted := by
  have hnames : (g.exchange chosen).outputNames wanted = g.outputNames wanted := by
    unfold outputNames
    rw [sinkNames_exchange]
    rfl
  have hone : (g.exchange chosen).resolveOutput = g.resolveOutput := by
    funext name
    unfold resolveOutput
    simp only [node?_exchange, Option.isNone_map, standsFor_exchange]
    rfl
  unfold resolveOutputs
  rw [hnames, hone]

end Graph

end TexelFlow
