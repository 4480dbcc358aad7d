import TexelFlow.Proofs.Graph.WellFormed
import TexelFlow.Proofs.Schedule.Given

/-!
# The outputs that references name

Every operation has a single output, so the index of a reference can only be zero. References come from
four places: the nodes of an operation graph, the request, and the outputs and the inputs of a signature.
The first is looked at when the graph is assembled. In the other three an index is read and left: an output
is computed by the node that its reference names, and an input of a signature belongs to the placeholder
that its reference names, whichever output of it is meant.

## Main statements

* `Builder.inputReferences_first` — the nodes of a graph read first outputs.
* `exists_schedule_alike` — a schedule depends on the nodes that outputs and signed inputs name, not on the
  indices.
* `schedule_references` — what references a schedule is made from, and when all are to first outputs.

## §1 — references
## §2 — what nodes read
## §3 — outputs and signed inputs
## §4 — another signature
## §5 — references to one node
## §6 — all references of a schedule
-/

namespace TexelFlow

open Model (NodeEntry Signature TensorSpec Description)

/-! ## §1 — references -/

namespace Reference

/-- A text that is read as the first output of a node. -/
def IsFirst (text : String) : Prop := ∃ r, parse text = .ok r ∧ r.index = 0

/-- A text that is read as an output of a node behind the first. -/
def IsLater (text : String) : Prop := ∃ r, parse text = .ok r ∧ 0 < r.index

theorem IsFirst.not_later {text : String} (h : IsFirst text) : ¬ IsLater text := by
  rintro ⟨later, hlater, hindex⟩
  obtain ⟨r, hr, hzero⟩ := h
  obtain rfl := Except.ok.inj (hr.symm.trans hlater)
  omega

end Reference

/-- The references by which nodes read each other. The layers of a stack name each other without any. -/
def Model.Description.inputReferences (d : Description) : List String :=
  match d.topology with
  | .graph entries => entries.flatMap fun entry => entry.input.filter fun text => !Graph.isControl text
  | .layers _ => []

namespace Graph

open Reference (IsFirst IsLater)

variable {g : Graph} {r : Request} {s : Schedule}

/-- The references that the outputs of a request are resolved by. -/
def outputReferences (g : Graph) (wanted : List String) : List String :=
  (g.outputNames wanted).map g.outputReference

/-- The references by which the signature claims some inputs of a schedule. -/
def signedReferences (g : Graph) (s : Schedule) : List String :=
  s.inputs.filterMap fun i => (g.signedInput? i.node).map (·.2.name)

/-- A text that is read as some output of a node. -/
def Resolves (g : Graph) (text : String) : Prop :=
  ∃ reference, Reference.parse text = .ok reference ∧ (g.node? reference.node).isSome

theorem Resolves.first_iff {text : String} (h : g.Resolves text) : IsFirst text ↔ ¬ IsLater text := by
  refine ⟨IsFirst.not_later, fun hlater => ?_⟩
  obtain ⟨reference, hparse, -⟩ := h
  refine ⟨reference, hparse, ?_⟩
  by_contra hindex
  exact hlater ⟨reference, hparse, Nat.pos_of_ne_zero hindex⟩

/-! ## §2 — what nodes read -/

/-- The node of an operation has the inputs that were read for it, fused or not. -/
theorem readOperation_inputs {entry : NodeEntry} {inputs : List Reference} {n : Node}
    (h : readOperation entry inputs = .ok n) : n.inputs = inputs := by
  unfold readOperation at h
  dsimp only at h
  split at h
  · unfold foldFused at h
    obtain ⟨fused, -, h⟩ := Outcome.bind_eq_ok_iff.mp h
    split at h
    · cases h
    · split at h
      · cases h
      · obtain rfl := Outcome.pure_eq_ok_iff.mp h
        rfl
  · obtain rfl := Except.ok.inj h
    rfl

/-- **The nodes of a graph read first outputs** of its nodes, whatever was built before. -/
theorem Builder.inputReferences_first (b : Builder) {d : Description} {weights : Tensors}
    (h : (b.build d weights).1 = .ok g) {text : String} (htext : text ∈ d.inputReferences) :
    IsFirst text ∧ g.Resolves text := by
  unfold Builder.build at h
  unfold Description.inputReferences at htext
  split at h
  · rename_i entries htopology
    rw [htopology] at htext
    change (ofNodes entries weights d.signature b.memo).1 = .ok g at h
    rw [ofNodes_fst] at h
    obtain ⟨pairs, hpairs, h⟩ := Outcome.bind_eq_ok_iff.mp h
    obtain ⟨hnodes, -, -, hsound⟩ := assemble_eq_ok h
    obtain ⟨entry, hentry, htext⟩ := List.mem_flatMap.mp htext
    obtain ⟨pair, hpair, hread⟩ := Outcome.exists_result_of_mem hpairs hentry
    unfold readEntry at hread
    obtain ⟨inputs, hinputs, hread⟩ := Outcome.bind_eq_ok_iff.mp hread
    obtain ⟨_, -, hread⟩ := Outcome.bind_eq_ok_iff.mp hread
    obtain ⟨n, hn, hread⟩ := Outcome.bind_eq_ok_iff.mp hread
    obtain rfl := Outcome.pure_eq_ok_iff.mp hread
    obtain ⟨reference, hmem, hparse⟩ := Outcome.exists_result_of_mem hinputs htext
    -- the reference is an input of a node of the graph, and those were all checked
    have hnode : n.withWeights (.ofList (pairs.flatMap Prod.snd)) ∈ g.nodes := by
      rw [hnodes, List.map_map]
      exact List.mem_map_of_mem (f := Node.withWeights _ ∘ Prod.fst) hpair
    rw [← readOperation_inputs hn] at hmem
    obtain ⟨m, hm, hname⟩ := exists_node_of_input hnode hmem
    refine ⟨⟨reference, hparse, (inputFault_eq_none_iff.mp (hsound _ hnode)).1 reference hmem⟩,
      reference, hparse, ?_⟩
    rw [← hname, node?_name hm]
    rfl
  · rename_i layers htopology
    rw [htopology] at htext
    exact absurd htext List.not_mem_nil

/-! ## §3 — outputs and signed inputs -/

/-- The outputs of a schedule are outputs of nodes. -/
theorem resolves_of_mem_outputReferences (hs : g.schedule r = .ok s) {text : String}
    (htext : text ∈ g.outputReferences r.outputs) : g.Resolves text := by
  obtain ⟨_, -, houtputs, -⟩ := schedule_eq_ok hs
  obtain ⟨name, hname, rfl⟩ := List.mem_map.mp htext
  obtain ⟨o, -, ho⟩ := Outcome.exists_result_of_mem (resolveOutputs_eq_ok houtputs) hname
  obtain ⟨-, reference, n, hparse, hn, hnode, -⟩ := resolveOutput_eq_ok ho
  refine ⟨reference, hparse, ?_⟩
  rw [← hnode, node?_name hn]
  rfl

theorem refersTo_eq_true_iff {text node : String} :
    refersTo text node = true ↔ ∃ reference, Reference.parse text = .ok reference ∧ reference.node = node := by
  unfold refersTo
  cases Reference.parse text with
  | error e => simp
  | ok reference => simp

/-- Signed inputs are claimed by outputs of their placeholders. -/
theorem resolves_of_mem_signedReferences (hs : g.schedule r = .ok s) {text : String}
    (htext : text ∈ g.signedReferences s) : g.Resolves text := by
  obtain ⟨i, hi, htext⟩ := List.mem_filterMap.mp htext
  obtain ⟨⟨external, spec⟩, hsigned, rfl⟩ := Option.map_eq_some_iff.mp htext
  unfold signedInput? at hsigned
  obtain ⟨signature, -, hfind⟩ := Option.bind_eq_some_iff.mp hsigned
  have hrefers := List.find?_some hfind
  obtain ⟨reference, hparse, hnode⟩ := refersTo_eq_true_iff.mp hrefers
  refine ⟨reference, hparse, ?_⟩
  obtain ⟨n, hn, hinput⟩ := exists_inputSpec_of_mem hs hi
  obtain ⟨_, -, -, hnodes, -⟩ := schedule_eq_ok hs
  rw [hnodes] at hn
  obtain ⟨v, -, rfl⟩ := mem_neededNodes_iff.mp (List.mem_filter.mp hn).1
  rw [hnode, inputSpec_node hinput, repointed_name, node?_name (nodeAt_mem v)]
  rfl

/-! ## §4 — another signature -/

/-- A graph under another signature. -/
def under (g : Graph) (signature : Option Signature) : Graph := { g with signature }

section Under

variable (signature : Option Signature)

theorem edgesInto_under (n : Node) : (g.under signature).edgesInto n = g.edgesInto n := by
  have hplace : (g.under signature).place? n.name = g.place? n.name := rfl
  unfold edgesInto
  rw [hplace]
  cases g.place? n.name with
  | none => rfl
  | some v => rfl

theorem dependencies_under : (g.under signature).dependencies = g.dependencies := by
  have hedges : (g.under signature).edgesInto = g.edgesInto := funext (edgesInto_under signature)
  unfold dependencies
  rw [hedges]
  rfl

theorem ordered_eq : g.ordered = g.dependencies.order.mapError fun v => .graph (.cycle (g.nodeAt v).name) := by
  unfold ordered
  cases g.dependencies.order with
  | ok order => rfl
  | error v => rfl

/-- The nodes are ordered the same under any signature. -/
theorem ordered_under : (g.under signature).ordered = g.ordered := by
  rw [ordered_eq, ordered_eq, dependencies_under]
  rfl

/-- Nodes stand for the same under any signature. -/
theorem standsFor_under : (g.under signature).standsFor = g.standsFor := by
  have hfollow : ∀ steps name, (g.under signature).follow steps name = g.follow steps name := by
    intro steps
    induction steps with
    | zero => exact fun _ => rfl
    | succ steps ih =>
      intro name
      have hnode : (g.under signature).node? name = g.node? name := rfl
      rw [follow, follow, hnode]
      simp only [ih]
  exact funext fun name => hfollow _ name

/-- The same nodes are needed under any signature, and read the same. -/
theorem neededNodes_under (order : List (Fin g.nodes.length)) (outputs : List OutputSpec) :
    (g.under signature).neededNodes order outputs = g.neededNodes order outputs := by
  have hkept : (g.under signature).keptVertices order outputs = g.keptVertices order outputs := by
    unfold keptVertices
    rw [dependencies_under]
    rfl
  have hrepointed : (g.under signature).repointed = g.repointed := by
    unfold repointed
    rw [standsFor_under]
    rfl
  unfold neededNodes
  rw [hkept, hrepointed]
  rfl

end Under

/-! ## §5 — references to one node -/

/-- Two texts name the same nodes, at whatever outputs. -/
def SameNode (a b : String) : Prop := ∀ node, refersTo a node = refersTo b node

/-- Two entries of a signature say the same of the same nodes. -/
structure EntryAlike (a b : String × TensorSpec) : Prop where
  /-- They have one external name. -/
  name : a.1 = b.1
  /-- They name the same nodes. -/
  reference : SameNode a.2.name b.2.name
  /-- They have one type. -/
  dtype : a.2.dtype = b.2.dtype
  /-- They have one shape. -/
  shape : a.2.shape = b.2.shape

/-- The inputs of a signature, in order. -/
def signedInputs (g : Graph) : List (String × TensorSpec) := (g.signature.map (·.inputs.entries)).getD []

theorem signedInput?_eq (node : String) :
    g.signedInput? node = g.signedInputs.find? fun e => refersTo e.2.name node := by
  unfold signedInput? signedInputs
  cases g.signature with
  | none => rfl
  | some signature => rfl

/-- Of entries that are alike the first ones that name a node are alike. -/
theorem rel_find?_of_alike {entries entries' : List (String × TensorSpec)}
    (h : List.Forall₂ EntryAlike entries entries') (node : String) :
    Option.Rel EntryAlike (entries.find? fun e => refersTo e.2.name node)
      (entries'.find? fun e => refersTo e.2.name node) := by
  induction h with
  | nil => exact .none
  | @cons a b _ _ hab _ ih =>
    rw [List.find?_cons, List.find?_cons, ← hab.reference node]
    cases refersTo a.2.name node with
    | true => exact .some hab
    | false => exact ih

/-- A placeholder is declared alike by signatures whose inputs are alike. -/
theorem declareInput_alike {signature : Option Signature}
    (h : List.Forall₂ EntryAlike g.signedInputs (g.under signature).signedInputs) (batch : Batch) (n : Node) :
    (g.under signature).declareInput batch n = g.declareInput batch n := by
  have hrel := rel_find?_of_alike h n.name
  rw [← signedInput?_eq, ← signedInput?_eq] at hrel
  unfold declareInput
  generalize g.signedInput? n.name = found at hrel ⊢
  generalize (g.under signature).signedInput? n.name = found' at hrel ⊢
  cases hrel with
  | none => rfl
  | @some a b hab =>
    obtain ⟨name, spec⟩ := a
    obtain ⟨name', spec'⟩ := b
    obtain ⟨rfl, -, hdtype, hshape⟩ := hab
    dsimp only at hdtype hshape ⊢
    rw [hdtype, hshape]

/-- **An output is resolved by the node that its reference names**, at whatever output. -/
theorem resolveOutput_alike {signature : Option Signature} {name name' : String} {o : OutputSpec}
    (h : g.resolveOutput name = .ok o)
    (hsame : SameNode (g.outputReference name) ((g.under signature).outputReference name')) :
    (g.under signature).resolveOutput name' = .ok ⟨name', o.node⟩ := by
  obtain ⟨-, reference, n, hparse, hn, hname, hnode⟩ := resolveOutput_eq_ok h
  have hrefers := hsame reference.node
  rw [refersTo_eq_true_iff.mpr ⟨reference, hparse, rfl⟩] at hrefers
  obtain ⟨reference', hparse', hnode'⟩ := refersTo_eq_true_iff.mp hrefers.symm
  refine Outcome.bind_eq_ok_iff.mpr ⟨reference', hparse', Outcome.check_eq_ok_iff.mpr ⟨?_, ?_⟩⟩
  · have hfound : (g.under signature).node? reference'.node = some n := by
      rw [hnode', ← hname]
      exact node?_name hn
    rw [hfound]
    exact Bool.false_ne_true
  · rw [hnode, hname, hnode', standsFor_under]
    rfl

/-- The outputs of requests that name the same nodes have the same nodes, in order. -/
theorem exists_outputs_alike {signature : Option Signature} {names names' : List String}
    {outputs : List OutputSpec} (h : names.mapM g.resolveOutput = .ok outputs)
    (hsame : List.Forall₂ SameNode (names.map g.outputReference)
      (names'.map (g.under signature).outputReference)) :
    ∃ outputs', names'.mapM (g.under signature).resolveOutput = .ok outputs' ∧
      outputs'.map (·.name) = names' ∧ outputs'.map (·.node) = outputs.map (·.node) := by
  rw [List.forall₂_map_left_iff, List.forall₂_map_right_iff] at hsame
  have hresults := Outcome.mapM_eq_ok_iff.mp h
  clear h
  induction hsame generalizing outputs with
  | nil =>
    obtain rfl := List.forall₂_nil_left_iff.mp hresults
    exact ⟨[], rfl, rfl, rfl⟩
  | @cons name name' _ _ hname _ ih =>
    obtain ⟨o, rest, ho, hrest, rfl⟩ := List.forall₂_cons_left_iff.mp hresults
    obtain ⟨rest', hrest', hnames, hnodes⟩ := ih hrest
    refine ⟨⟨name', o.node⟩ :: rest', Outcome.mapM_eq_ok_iff.mpr
      (.cons (resolveOutput_alike ho hname) (Outcome.mapM_eq_ok_iff.mp hrest')), ?_, ?_⟩
    · rw [List.map_cons, hnames]
    · rw [List.map_cons, List.map_cons, hnodes]

/-- What is kept for outputs depends on their nodes only. -/
theorem neededNodes_eq_of_map_node {outputs outputs' : List OutputSpec}
    (h : outputs'.map (·.node) = outputs.map (·.node)) (order : List (Fin g.nodes.length)) :
    g.neededNodes order outputs' = g.neededNodes order outputs := by
  have hplaces : ∀ outputs : List OutputSpec, (outputs.filterMap fun o => g.place? o.node) =
      (outputs.map (·.node)).filterMap g.place? := fun outputs => by rw [List.filterMap_map]; rfl
  unfold neededNodes keptVertices
  rw [hplaces, hplaces, h]

/-- **A schedule depends on the nodes that outputs and signed inputs name**: where they are named at other
outputs, or by other names of outputs, nothing changes but the names that were asked for. -/
theorem exists_schedule_alike (hs : g.schedule r = .ok s) {signature : Option Signature} {wanted : List String}
    (hinputs : List.Forall₂ EntryAlike g.signedInputs (g.under signature).signedInputs)
    (houtputs : List.Forall₂ SameNode (g.outputReferences r.outputs)
      ((g.under signature).outputReferences wanted)) :
    ∃ outputs, outputs.map (·.name) = (g.under signature).outputNames wanted ∧
      outputs.map (·.node) = s.outputs.map (·.node) ∧
      (g.under signature).schedule { r with outputs := wanted } = .ok { s with outputs } := by
  obtain ⟨order, horder, hresolve, hnodes, hspecs, hconstants, hdescribe, hbatch⟩ := exists_stages hs
  obtain ⟨outputs, hresults, hnames, hsame⟩ := exists_outputs_alike (resolveOutputs_eq_ok hresolve) houtputs
  refine ⟨outputs, hnames, hsame, schedule_of_stages_given ((ordered_under signature).trans horder) ?_ ?_ ?_
    hconstants.symm hdescribe hbatch.symm ?_⟩
  · refine Outcome.check_eq_ok_iff.mpr ⟨fun hnone => ?_, hresults⟩
    -- no outputs at all are refused for either request
    have hlength := houtputs.length_eq
    unfold outputReferences at hlength
    rw [hnone] at hlength
    unfold resolveOutputs at hresolve
    exact (Outcome.check_eq_ok_iff.mp hresolve).1 (List.map_eq_nil_iff.mp (List.length_eq_zero_iff.mp hlength))
  · rw [neededNodes_under]
    exact (neededNodes_eq_of_map_node hsame order).trans hnodes.symm
  · refine (Outcome.mapM_congr fun n _ => ?_).trans hspecs
    unfold inputSpec
    rw [declareInput_alike hinputs]
    rfl
  · intro given hgiven
    obtain ⟨bound, hbound⟩ := bind_of_schedule hs hgiven
    exact ⟨bound, hbound⟩

/-! ## §6 — all references of a schedule -/

/-- **How the references behind a schedule were read**: those between nodes as first outputs, those of outputs
and of signed inputs as any output of a node. -/
structure ReadsReferences (d : Description) (g : Graph) (r : Request) (s : Schedule) : Prop where
  /-- Nodes name first outputs of nodes. -/
  inputs : ∀ text ∈ d.inputReferences, IsFirst text ∧ g.Resolves text
  /-- Nodes read first outputs, before and behind the identities. -/
  read : ∀ n ∈ g.nodes ++ s.nodes, ∀ i ∈ n.inputs, i.index = 0
  /-- Outputs and signed inputs name outputs of nodes. -/
  others : ∀ text ∈ g.outputReferences r.outputs ++ g.signedReferences s, g.Resolves text
  /-- All of them are first outputs unless an output or a signed input is a later one. -/
  first_iff :
    (∀ text ∈ d.inputReferences ++ (g.outputReferences r.outputs ++ g.signedReferences s), IsFirst text) ↔
      ∀ text ∈ g.outputReferences r.outputs ++ g.signedReferences s, ¬ IsLater text
  /-- Later outputs are taken for the first: the schedule is the same wherever outputs and signed inputs name
  the same nodes, apart from the names that outputs are asked for by. -/
  dropped : ∀ (signature : Option Signature) (wanted : List String),
    List.Forall₂ EntryAlike g.signedInputs (g.under signature).signedInputs →
    List.Forall₂ SameNode (g.outputReferences r.outputs) ((g.under signature).outputReferences wanted) →
    ∃ outputs, outputs.map (·.name) = (g.under signature).outputNames wanted ∧
      outputs.map (·.node) = s.outputs.map (·.node) ∧
      (g.under signature).schedule { r with outputs := wanted } = .ok { s with outputs }

/-- **References are read as first outputs between nodes, and as nodes everywhere else.** -/
theorem schedule_references (b : Builder) {d : Description} {weights : Tensors}
    (h : (b.build d weights).1 = .ok g) (hs : g.schedule r = .ok s) : ReadsReferences d g r s := by
  have hinputs : ∀ text ∈ d.inputReferences, IsFirst text ∧ g.Resolves text :=
    fun _ => b.inputReferences_first h
  have hothers : ∀ text ∈ g.outputReferences r.outputs ++ g.signedReferences s, g.Resolves text := by
    intro text htext
    rcases List.mem_append.mp htext with htext | htext
    · exact resolves_of_mem_outputReferences hs htext
    · exact resolves_of_mem_signedReferences hs htext
  constructor
  case inputs => exact hinputs
  case read =>
    have hb : g.Built := .described d weights ((Builder.build_fst b d weights).symm.trans h)
    obtain ⟨_, _, _, hassemble⟩ := hb.exists_assemble
    obtain ⟨-, -, -, hsound⟩ := assemble_eq_ok hassemble
    have hfirst := fun n hn => (inputFault_eq_none_iff.mp (hsound n hn)).1
    intro n hn i hi
    rcases List.mem_append.mp hn with hn | hn
    · exact hfirst n hn i hi
    · -- a scheduled node keeps the indices of what it reads
      obtain ⟨_, -, -, hnodes, -⟩ := schedule_eq_ok hs
      rw [hnodes] at hn
      obtain ⟨v, -, rfl⟩ := mem_neededNodes_iff.mp hn
      obtain ⟨j, hj, rfl⟩ := List.mem_map.mp hi
      exact hfirst _ (nodeAt_mem v) j hj
  case others => exact hothers
  case first_iff =>
    rw [List.forall_mem_append]
    constructor
    · rintro ⟨-, hfirst⟩ text htext
      exact (hfirst text htext).not_later
    · intro hlater
      exact ⟨fun text htext => (hinputs text htext).1, fun text htext =>
        (hothers text htext).first_iff.mpr (hlater text htext)⟩
  case dropped => exact fun _ _ hsigned houtputs => exists_schedule_alike hs hsigned houtputs

/-- A rectified input which is signed, and so is the output. -/
def signedDescription : Description where
  format := none
  topology := .graph
    [⟨"x", "Placeholder", [], .ofList [("shape", .numbers [⟨0x4000000000000000⟩])]⟩,
     ⟨"y", "Relu", ["x:0", "^x"], .empty⟩]
  signature := some
    ⟨.ofList [("in", ⟨"x:0", .float32, some [2]⟩)], .ofList [("out", ⟨"y:value:0", .float32, none⟩)]⟩
  groups := []

/-- Its graph. -/
def signedGraph : Graph where
  nodes :=
    [⟨"x", .placeholder, [], .ofList [("shape", .numbers [⟨0x4000000000000000⟩])], []⟩,
     ⟨"y", .relu, [.first "x"], .empty, []⟩]
  constants := .empty
  signature := signedDescription.signature
  named := by decide
  distinct := by decide
  wired := by decide
  given := by decide

/-- The schedule of the rectified input under some name. -/
def signedSchedule (name : String) : Schedule where
  nodes := signedGraph.nodes
  descriptors := .ofList [("x", ⟨[2], .float32⟩), ("y", ⟨[2], .float32⟩)]
  inputs := [⟨"in", "x", .float32, some [2], [2]⟩]
  outputs := [⟨name, "y"⟩]
  constants := .empty
  batch := .kept

theorem signedGraph_build : (Builder.fresh.build signedDescription .empty).1 = .ok signedGraph := by
  rfl

theorem signedGraph_schedule {wanted : List String} {name : String}
    (houtputs : signedGraph.resolveOutputs wanted = .ok [⟨name, "y"⟩]) :
    signedGraph.schedule ⟨wanted, .kept, .empty, none⟩ = .ok (signedSchedule name) := by
  have horder : signedGraph.ordered = .ok (List.finRange _) := by cbv
  -- neither the wanted outputs nor their names matter to the inputs
  have hinputs : (signedGraph.nodes.filter (·.op = .placeholder)).mapM
      (signedGraph.inputSpec ⟨[], .kept, .empty, none⟩) = .ok [⟨"in", "x", .float32, some [2], [2]⟩] := by
    decide +kernel
  exact schedule_of_stages horder houtputs (by cbv) hinputs (by cbv) (by cbv) rfl rfl

/-- Asked for nothing, the graph gives what is signed, and all references are to first outputs. -/
theorem signedGraph_references : ∃ s, (Builder.fresh.build signedDescription .empty).1 = .ok signedGraph ∧
    signedGraph.schedule ⟨[], .kept, .empty, none⟩ = .ok s ∧ s.outputs = [⟨"out", "y"⟩] ∧
    ReadsReferences signedDescription signedGraph ⟨[], .kept, .empty, none⟩ s := by
  have hs : signedGraph.schedule ⟨[], .kept, .empty, none⟩ = .ok (signedSchedule "out") :=
    signedGraph_schedule (by cbv)
  exact ⟨_, signedGraph_build, hs, rfl, schedule_references Builder.fresh signedGraph_build hs⟩

/-- **The second output of a node that has one output is accepted** where it is asked for by the request. -/
theorem signedGraph_later : ∃ s, (Builder.fresh.build signedDescription .empty).1 = .ok signedGraph ∧
    signedGraph.schedule ⟨["y:1"], .kept, .empty, none⟩ = .ok s ∧ s.outputs = [⟨"y:1", "y"⟩] ∧
    "y:1" ∈ signedGraph.outputReferences ["y:1"] ∧ Reference.parse "y:1" = .ok ⟨"y", 1, none⟩ :=
  ⟨_, signedGraph_build, signedGraph_schedule (by cbv), rfl, by decide, by cbv⟩

end Graph

end TexelFlow
