import TexelFlow.Proofs.Graph.Layers
import TexelFlow.Proofs.Graph.Reading
import TexelFlow.Proofs.Graph.Reference
import TexelFlow.Proofs.Schedule.Cycle

/-!
# Outputs by default

Where nothing is asked for and nothing is signed, the outputs are the sinks: the operations nobody reads.
Only operations read anything in the graph of a layer stack, so without cycles every operation reaches one
of them: it is a sink, or one of its readers stands behind it in the order. What reaches an identity and is
none itself reaches what the identity stands for, so nothing is lost where sinks are identities.

The names of sinks are read as references, though, and a layer may have any name. A sink that is called
like the output of another node is taken for that node.

## Main statements

* `exists_sink_reached` — every operation reaches a sink.
* `reaches_standsFor` — what is no identity reaches what the nodes it reaches stand for.
* `layers_default_iff` — the whole stack is computed exactly where the name of every sink denotes it.

## §1 — who reads whom in a layer stack
## §2 — sinks are reached
## §3 — sinks behind identities
## §4 — names as references
## §5 — the whole graph
-/

namespace TexelFlow.Graph

open Model (LayerEntry Description)

variable {g : Graph}

/-! ## §1 — who reads whom in a layer stack -/

/-- Only operations read: nothing flows into a placeholder or a constant. -/
def OnlyOperationsRead (g : Graph) : Prop := ∀ n ∈ g.nodes, n.op.isData → n.inputs = []

/-- A layer that takes no input of the run is an operation. -/
theorem isData_layerOperator {l : LayerEntry} (h : ¬ l.IsInput) :
    (layerOperator (LayerClass.ofName l.className) l).isData = false := by
  have hc : LayerClass.ofName l.className ≠ .input := mt isInput_iff.mp h
  generalize LayerClass.ofName l.className = c at hc
  cases c with
  | input => exact absurd rfl hc
  | activation =>
    unfold layerOperator
    dsimp only
    split <;> rfl
  | upSampling =>
    unfold layerOperator
    dsimp only
    split <;> rfl
  | conv => rfl
  | depthwise => rfl
  | relu => rfl
  | add => rfl
  | multiply => rfl
  | unsupported name => rfl

/-- **In the graph of a layer stack only operations read.** -/
theorem Normalizes.onlyOperationsRead {layers : List LayerEntry} {weights : Tensors}
    (h : Normalizes layers weights g) : g.OnlyOperationsRead := by
  intro n hn hdata
  have hmem : n.outline ∈ outlines layers := h.nodes ▸ List.mem_map_of_mem hn
  rcases List.mem_append.mp hmem with hmem | hmem
  · obtain ⟨l, -, he⟩ := List.mem_map.mp hmem
    exact (congrArg Outline.inputs he).symm
  · obtain ⟨l, hl, hblock⟩ := List.mem_flatMap.mp hmem
    rcases List.mem_append.mp hblock with hconst | hbody
    · obtain ⟨name, -, he⟩ := List.mem_map.mp hconst
      exact (congrArg Outline.inputs he).symm
    · -- the node of the layer itself holds no data
      have hop : n.op = l.body.op := congrArg Outline.op (List.mem_singleton.mp hbody)
      have hbody := isData_layerOperator (l := l) (by simpa using (List.mem_filter.mp hl).2)
      rw [hop] at hdata
      exact absurd (hbody.symm.trans hdata) Bool.false_ne_true

/-! ## §2 — sinks are reached -/

theorem mem_sinks_iff {n : Node} :
    n ∈ g.sinks ↔ n ∈ g.nodes ∧ n.op.isData = false ∧ ∀ name, ¬ g.Feeds n.name name := by
  have hread : n.name ∈ g.nodes.flatMap Node.inputNames ↔ ∃ name, g.Feeds n.name name := by
    rw [List.mem_flatMap]
    constructor
    · rintro ⟨m, hm, hinput⟩
      exact ⟨m.name, m, hm, rfl, hinput⟩
    · rintro ⟨_, m, hm, -, hinput⟩
      exact ⟨m, hm, hinput⟩
  unfold sinks
  rw [List.mem_filter, decide_eq_true_eq, hread, not_exists, Bool.not_eq_true', and_comm (a := ∀ _, _)]

/-- **Every operation reaches a sink**: it is one, or one of its readers stands behind it. -/
theorem exists_sink_reached {order : List (Fin g.nodes.length)} (ho : g.dependencies.Forward order)
    (hread : g.OnlyOperationsRead) {v : Fin g.nodes.length} (hv : (g.nodeAt v).op.isData = false) :
    ∃ n ∈ g.sinks, g.Reaches (g.nodeAt v).name n.name := by
  -- on how many vertices stand behind
  induction hbehind : order.length - order.idxOf v using Nat.strong_induction_on generalizing v with
  | _ behind ih =>
    by_cases hsink : g.nodeAt v ∈ g.sinks
    · exact ⟨_, hsink, .refl⟩
    · obtain ⟨name, hfeeds⟩ : ∃ name, g.Feeds (g.nodeAt v).name name := by
        by_contra hnone
        exact hsink (mem_sinks_iff.mpr ⟨nodeAt_mem v, hv, not_exists.mp hnone⟩)
      obtain ⟨m, hm, rfl, hinput⟩ := hfeeds
      obtain ⟨w, rfl⟩ := exists_nodeAt hm
      have hop : (g.nodeAt w).op.isData = false := by
        by_contra hdata
        have hnone := hread _ hm (by simpa using hdata)
        rw [Node.inputNames, hnone] at hinput
        cases hinput
      have hlt : order.idxOf v < order.idxOf w := ho.before v w (edge_iff.mpr hinput)
      have hend : order.idxOf w < order.length := List.idxOf_lt_length_of_mem (ho.all w)
      obtain ⟨n, hn, hreach⟩ := ih _ (by omega) hop rfl
      exact ⟨n, hn, .head (feeds_iff.mpr (edge_iff.mpr hinput)) hreach⟩

/-! ## §3 — sinks behind identities -/

/-- What reaches an identity and is none itself reaches what the identity reads. -/
theorem Reaches.forwards {name target source : String} (h : g.Reaches name target)
    (hname : ∀ n ∈ g.nodes, n.name = name → n.op ≠ .identity) (hf : g.Forwards target source) :
    g.Reaches name source := by
  obtain ⟨n, hn, rfl, hop, hinputs⟩ := hf
  rcases Relation.ReflTransGen.cases_tail h with heq | ⟨between, hreach, m, hm, hmname, hinput⟩
  · exact absurd hop (hname n hn heq)
  · obtain rfl := eq_of_name_eq hm hn hmname
    rw [hinputs, List.mem_singleton] at hinput
    exact hinput ▸ hreach

/-- **What is no identity reaches what the nodes it reaches stand for.** -/
theorem reaches_standsFor (hb : g.Built) {name target : String} (h : g.Reaches name target)
    (hname : ∀ n ∈ g.nodes, n.name = name → n.op ≠ .identity) : g.Reaches name (g.standsFor target) := by
  have hchain : Relation.ReflTransGen g.Forwards target (g.standsFor target) := forwards_follow hb _ _
  generalize g.standsFor target = stood at hchain
  induction hchain with
  | refl => exact h
  | tail _ hstep ih => exact ih.forwards hname hstep

/-! ## §4 — names as references -/

/-- A name, read as a reference, denotes what the node of the name stands for. -/
def Denotes (g : Graph) (name : String) : Prop :=
  ∃ reference, Reference.parse name = .ok reference ∧ (g.node? reference.node).isSome ∧
    g.standsFor reference.node = g.standsFor name

theorem denotes_of_not_mem {n : Node} (hn : n ∈ g.nodes) (h : ':' ∉ n.name.toList) : g.Denotes n.name := by
  refine ⟨_, Reference.parse_of_not_mem h, ?_, rfl⟩
  rw [Reference.first, node?_name hn]
  rfl

/-- The outputs that a signature names. -/
def signedOutputs (g : Graph) : List String := (g.signature.map (·.outputs.names)).getD []

/-- Without signed outputs an output is asked for by its own name. -/
theorem outputReference_of_unsigned (h : g.signedOutputs = []) (name : String) :
    g.outputReference name = name := by
  unfold outputReference
  cases hs : g.signature with
  | none => rfl
  | some signature =>
    unfold signedOutputs at h
    rw [hs, Option.map_some, Option.getD_some] at h
    have hnone : signature.outputs.find? name = none := by
      rw [← Option.not_isSome_iff_eq_none]
      intro hsome
      exact absurd (h ▸ Named.mem_names_iff.mpr hsome) List.not_mem_nil
    rw [Option.bind_some, hnone]
    rfl

/-- **An output is its own node** exactly where its name denotes it. -/
theorem resolveOutput_self_iff (hsigned : g.signedOutputs = []) {name : String} :
    g.resolveOutput name = .ok ⟨name, g.standsFor name⟩ ↔ g.Denotes name := by
  constructor
  · intro h
    obtain ⟨-, reference, n, hparse, hn, hname, hnode⟩ := resolveOutput_eq_ok h
    rw [outputReference_of_unsigned hsigned] at hparse
    refine ⟨reference, hparse, ?_, ?_⟩
    · rw [← hname, node?_name hn]
      rfl
    · rw [← hname, ← hnode]
  · rintro ⟨reference, hparse, hknown, hnode⟩
    have hparse' : Reference.parse (g.outputReference name) = .ok reference := by
      rw [outputReference_of_unsigned hsigned, hparse]
    refine Outcome.bind_eq_ok_iff.mpr ⟨reference, hparse', Outcome.check_eq_ok_iff.mpr ⟨?_, ?_⟩⟩
    · rw [Option.isNone_iff_eq_none]
      exact Option.isSome_iff_ne_none.mp hknown
    · rw [hnode]
      rfl

/-! ## §5 — the whole graph -/

/-- **A graph is computed whole by default** when an empty request stands for the sinks and what is scheduled
for it leaves out no operation but identities. -/
structure WholeByDefault (g : Graph) : Prop where
  /-- The outputs are the sinks, in order, each computed by what it stands for. -/
  resolved : g.resolveOutputs [] = .ok (g.sinks.map fun n => ⟨n.name, g.standsFor n.name⟩)
  /-- Every operation is scheduled, identities apart. -/
  complete : ∀ r s, r.outputs = [] → g.schedule r = .ok s →
    ∀ n ∈ g.nodes, n.op.isData = false → n.op ≠ .identity → n.name ∈ s.nodes.map (·.name)

/-- The outputs of an empty request are the sinks exactly where their names denote them. -/
theorem resolveOutputs_nil_iff (hsigned : g.signedOutputs = []) (hsinks : g.sinks ≠ []) :
    g.resolveOutputs [] = .ok (g.sinks.map fun n => ⟨n.name, g.standsFor n.name⟩) ↔
      ∀ n ∈ g.sinks, g.Denotes n.name := by
  have hnames : g.outputNames [] = g.sinks.map (·.name) := by
    unfold outputNames
    rw [if_neg (by simp), if_neg (by simpa [signedOutputs] using hsigned)]
  have hsome : g.sinks.map (·.name) ≠ [] := by simpa using hsinks
  unfold resolveOutputs
  dsimp only
  rw [hnames, Outcome.check_eq_ok_iff, and_iff_right hsome, Outcome.mapM_eq_ok_iff,
    List.forall₂_map_left_iff, List.forall₂_map_right_iff, List.forall₂_same]
  exact forall₂_congr fun n _ => resolveOutput_self_iff hsigned

/-- **What reaches a sink is scheduled** where the outputs are the sinks. -/
theorem complete_of_resolved (hb : g.Built) (hread : g.OnlyOperationsRead)
    (hresolved : g.resolveOutputs [] = .ok (g.sinks.map fun n => ⟨n.name, g.standsFor n.name⟩))
    {r : Request} {s : Schedule} (hr : r.outputs = []) (h : g.schedule r = .ok s) {n : Node}
    (hn : n ∈ g.nodes) (hdata : n.op.isData = false) (hop : n.op ≠ .identity) :
    n.name ∈ s.nodes.map (·.name) := by
  obtain ⟨order, ho, houtputs, -⟩ := schedule_eq_ok h
  rw [hr, hresolved] at houtputs
  obtain ⟨v, rfl⟩ := exists_nodeAt hn
  obtain ⟨sink, hsink, hreach⟩ := exists_sink_reached ho hread hdata
  refine (mem_scheduledNames_iff h).mpr
    ⟨_, hn, rfl, hop, ⟨sink.name, g.standsFor sink.name⟩, ?_, ?_⟩
  · rw [← Except.ok.inj houtputs]
    exact List.mem_map_of_mem hsink
  · refine reaches_standsFor hb hreach fun m hm hname => ?_
    rw [eq_of_name_eq hm hn hname]
    exact hop

/-- **A layer stack is computed whole by default** exactly where the name of every sink denotes it, and so
where no sink has a colon in its name. -/
theorem layers_default_iff {layers : List LayerEntry} {d : Description} (hd : d.topology = .layers layers)
    (b : Builder) {weights : Tensors} (h : (b.build d weights).1 = .ok g)
    (hacyclic : ¬ ∃ name, g.OnCycle name) (hsigned : g.signedOutputs = [])
    (hsome : ∃ n ∈ g.nodes, n.op.isData = false) :
    (g.WholeByDefault ↔ ∀ n ∈ g.sinks, g.Denotes n.name) ∧
      ((∀ n ∈ g.sinks, ':' ∉ n.name.toList) → g.WholeByDefault) := by
  have hlayers : ofLayers layers weights d.signature = .ok g := (Builder.build_layers hd b).symm.trans h
  have hread := (normalizes_of_ofLayers hlayers).onlyOperationsRead
  have hb : g.Built := .described d weights ((b.build_fst d weights).symm.trans h)
  have hsinks : g.sinks ≠ [] := by
    obtain ⟨order, ho⟩ := exists_ordered_iff.mpr hacyclic
    obtain ⟨n, hn, hop⟩ := hsome
    obtain ⟨v, rfl⟩ := exists_nodeAt hn
    obtain ⟨sink, hsink, -⟩ := exists_sink_reached (ordered_eq_ok ho) hread hop
    exact List.ne_nil_of_mem hsink
  have hiff : g.WholeByDefault ↔ ∀ n ∈ g.sinks, g.Denotes n.name := by
    rw [← resolveOutputs_nil_iff hsigned hsinks]
    exact ⟨fun hwhole => hwhole.resolved, fun hresolved =>
      ⟨hresolved, fun _ _ hr hs _ hn => complete_of_resolved hb hread hresolved hr hs hn⟩⟩
  refine ⟨hiff, fun hcolon => hiff.mpr fun n hn => denotes_of_not_mem (mem_sinks_iff.mp hn).1 (hcolon n hn)⟩

/-- The input layer of two elements in the stacks below. -/
def pairLayer : LayerEntry :=
  ⟨"x", "InputLayer", .ofList [("batch_input_shape", .array [.null, .nat 2])], [], []⟩

/-- Its placeholder. -/
def pairNode : Node :=
  ⟨"x", .placeholder, [],
    .ofList [("shape", .numbers [.minusOne, ⟨0x4000000000000000⟩]), ("dtype", .string "float32")], []⟩

/-- A rectified input, and a linear layer behind it. -/
def rectifiedLayers : List LayerEntry :=
  [pairLayer, ⟨"y", "ReLU", .empty, ["x"], []⟩,
   ⟨"z", "Activation", .ofList [("activation", .string "linear")], ["y"], []⟩]

/-- The graph of the three layers. -/
def rectifiedStack : Graph where
  nodes :=
    [pairNode, ⟨"y", .relu, [.first "x"], .empty, []⟩, ⟨"z", .identity, [.first "y"], .empty, []⟩]
  constants := .empty
  signature := none
  named := by decide
  distinct := by decide
  wired := by decide
  given := by decide

/-- Its sink is the linear layer, which stands for the rectified input. -/
theorem rectifiedStack_default :
    (Builder.fresh.build ⟨none, .layers rectifiedLayers, none, []⟩ .empty).1 = .ok rectifiedStack ∧
      rectifiedStack.resolveOutputs [] = .ok [⟨"z", "y"⟩] ∧ rectifiedStack.WholeByDefault := by
  have hbuild :
      (Builder.fresh.build ⟨none, .layers rectifiedLayers, none, []⟩ .empty).1 = .ok rectifiedStack := rfl
  have horder : rectifiedStack.ordered = .ok (List.finRange _) := by cbv
  have hsinks : rectifiedStack.sinks = [⟨"z", .identity, [.first "y"], .empty, []⟩] := by decide
  refine ⟨hbuild, by cbv, (layers_default_iff rfl Builder.fresh hbuild (exists_ordered_iff.mp ⟨_, horder⟩) rfl
    ⟨_, List.mem_of_getElem? (i := 1) rfl, rfl⟩).2 ?_⟩
  rw [hsinks]
  decide

/-- A layer that is called like the first output of the one it reads. -/
def shadowedLayers : List LayerEntry := [pairLayer, ⟨"x:0", "ReLU", .empty, ["x"], []⟩]

/-- The graph of the two layers. -/
def shadowedStack : Graph where
  nodes := [pairNode, ⟨"x:0", .relu, [.first "x"], .empty, []⟩]
  constants := .empty
  signature := none
  named := by decide
  distinct := by decide
  wired := by decide
  given := by decide

/-- The schedule of the two layers for an empty request: the input alone. -/
def shadowedSchedule : Schedule where
  nodes := [pairNode]
  descriptors := .ofList [("x", ⟨[1, 2], .float32⟩)]
  inputs := [⟨"x", "x", .float32, some [-1, 2], [1, 2]⟩]
  outputs := [⟨"x:0", "x"⟩]
  constants := .empty
  batch := .kept

theorem shadowedStack_schedule : shadowedStack.schedule ⟨[], .kept, .empty, none⟩ = .ok shadowedSchedule := by
  have horder : shadowedStack.ordered = .ok (List.finRange _) := by cbv
  exact schedule_of_stages horder (by cbv) (by cbv) (by decide +kernel) (by cbv) (by cbv) rfl rfl

/-- **A sink that is called like an output of another node is not computed**: by default the run gives the
input under the name of the layer. -/
theorem shadowedStack_not_default :
    (Builder.fresh.build ⟨none, .layers shadowedLayers, none, []⟩ .empty).1 = .ok shadowedStack ∧
      (¬ ∃ name, shadowedStack.OnCycle name) ∧ shadowedStack.signedOutputs = [] ∧
      shadowedStack.sinks.map (·.name) = ["x:0"] ∧
      shadowedStack.schedule ⟨[], .kept, .empty, none⟩ = .ok shadowedSchedule ∧
      shadowedSchedule.outputs = [⟨"x:0", "x"⟩] ∧ "x:0" ∉ shadowedSchedule.nodes.map (·.name) ∧
      ¬ shadowedStack.WholeByDefault := by
  have horder : shadowedStack.ordered = .ok (List.finRange _) := by cbv
  have habsent : "x:0" ∉ shadowedSchedule.nodes.map (·.name) := by decide
  refine ⟨rfl, exists_ordered_iff.mp ⟨_, horder⟩, rfl, by decide, shadowedStack_schedule, rfl, habsent, ?_⟩
  intro hwhole
  exact habsent (hwhole.complete _ _ rfl shadowedStack_schedule ⟨"x:0", .relu, [.first "x"], .empty, []⟩
    (by decide) rfl (by decide))

end TexelFlow.Graph
