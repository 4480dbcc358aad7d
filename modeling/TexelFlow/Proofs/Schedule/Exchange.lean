import TexelFlow.Proofs.Graph.Exchange
import TexelFlow.Proofs.Schedule.Given

/-!
# Schedules with operands exchanged

Exchanging the operands of sums and products changes no edge of a graph, though it may change the order that
is found. The scheduled nodes are the same, and along the new order each finds its operands described as they
were before, up to their types: the shape of a sum or a product does not depend on the order of its operands,
and its type is that of the first one. So schedules are made for the same requests and with the same shapes,
and with the same descriptors exactly where no operands of different types are exchanged.

## Main statements

* `mem_neededNodes_exchange_iff` — the scheduled nodes are the same, their operands exchanged.
* `describeNode_exchange` — what a node is described by with its operands exchanged.
* `describeNodes_exchange` — the same of nodes one behind the other.
* `exists_schedule_exchange` — a schedule stays one.
* `Built.schedule_exchange` — what exchanging operands does to schedules.

## §1 — scheduled nodes
## §2 — descriptors
## §3 — schedules
## §4 — a sum of two types
-/

namespace TexelFlow

/-- Two lists of the same members find the same one, where only one is looked for. -/
theorem find?_eq_of_mem_iff {α : Type} {p : α → Bool} {xs ys : List α} (hmem : ∀ a, a ∈ xs ↔ a ∈ ys)
    (hunique : ∀ a ∈ ys, ∀ b ∈ ys, p a → p b → a = b) : xs.find? p = ys.find? p := by
  cases hx : xs.find? p with
  | none =>
    refine (List.find?_eq_none.mpr fun a ha => ?_).symm
    exact List.find?_eq_none.mp hx a ((hmem a).mpr ha)
  | some a =>
    have ha := (hmem a).mp (List.mem_of_find?_eq_some hx)
    cases hy : ys.find? p with
    | none => exact absurd (List.find?_some hx) (List.find?_eq_none.mp hy a ha)
    | some b =>
      rw [hunique a ha b (List.mem_of_find?_eq_some hy) (List.find?_some hx) (List.find?_some hy)]

namespace Graph

variable {g : Graph} {chosen : String → Bool} {r : Request} {s s' : Schedule}

/-! ## §1 — scheduled nodes -/

/-- The needed nodes are those, identities apart, from which an output is reached. -/
theorem mem_neededNodes_iff_reaches {order : List (Fin g.nodes.length)} (ho : g.dependencies.Forward order)
    {outputs : List OutputSpec} {n : Node} : n ∈ g.neededNodes order outputs ↔
      ∃ m ∈ g.nodes, (m.op ≠ .identity ∧ ∃ o ∈ outputs, g.Reaches m.name o.node) ∧ g.repointed m = n := by
  rw [mem_neededNodes_iff]
  constructor
  · rintro ⟨v, hv, rfl⟩
    exact ⟨_, nodeAt_mem v, (mem_keptVertices_iff ho).mp hv, rfl⟩
  · rintro ⟨m, hm, hneeded, rfl⟩
    obtain ⟨v, rfl⟩ := exists_nodeAt hm
    exact ⟨v, (mem_keptVertices_iff ho).mpr hneeded, rfl⟩

/-- **The needed nodes** are the same ones, with their operands exchanged. -/
theorem mem_neededNodes_exchange_iff {order : List (Fin g.nodes.length)}
    {order' : List (Fin (g.exchange chosen).nodes.length)} (ho : g.dependencies.Forward order)
    (ho' : (g.exchange chosen).dependencies.Forward order') {outputs : List OutputSpec} {m : Node} :
    m ∈ (g.exchange chosen).neededNodes order' outputs ↔
      ∃ n ∈ g.neededNodes order outputs, n.exchange g.constants chosen = m := by
  simp only [mem_neededNodes_iff_reaches ho, mem_neededNodes_iff_reaches ho', reaches_exchange]
  constructor
  · rintro ⟨_, hm, hneeded, rfl⟩
    obtain ⟨n, hn, rfl⟩ := mem_exchange_nodes.mp hm
    rw [Node.exchange_op, Node.exchange_name] at hneeded
    exact ⟨_, ⟨n, hn, hneeded, rfl⟩, (repointed_exchange n).symm⟩
  · rintro ⟨_, ⟨n, hn, hneeded, rfl⟩, rfl⟩
    refine ⟨_, mem_exchange_nodes.mpr ⟨n, hn, rfl⟩, ?_, repointed_exchange n⟩
    rwa [Node.exchange_op, Node.exchange_name]

end Graph

/-! ## §2 — descriptors -/

/-- A descriptor agrees with another one in its shape and, on a condition, in its type. -/
structure Descriptor.Agrees (typed : Prop) (d d' : Descriptor) : Prop where
  /-- The shapes are the same. -/
  shape : d.shape = d'.shape
  /-- The types are the same on the condition. -/
  dtype : typed → d.dtype = d'.dtype

theorem Descriptor.Agrees.eq {typed : Prop} {d d' : Descriptor} (h : d.Agrees typed d') (ht : typed) :
    d = d' := by
  obtain ⟨shape, dtype⟩ := d
  obtain ⟨rfl, hdtype⟩ := h
  rw [show dtype = d'.dtype from hdtype ht]

/-- What one map says of a name agrees with what another one says. -/
def Named.Agrees (typed : Prop) (known known' : Named Descriptor) (name : String) : Prop :=
  ∀ d, known.find? name = some d → ∃ d', known'.find? name = some d' ∧ d.Agrees typed d'

/-- The operands of a node have one type, if it is chosen and neither of them comes first. -/
def Node.OneType (chosen : String → Bool) (known : Named Descriptor) (n : Node) : Prop :=
  chosen n.name → n.op.isPairwise → ∀ a b, n.inputNames = [a, b] →
    (known.find? a).map Descriptor.dtype = (known.find? b).map Descriptor.dtype

namespace Graph

variable {g : Graph} {chosen : String → Bool} {inputs inputs' : List InputSpec} {constants : Tensors}
  {known known' : Named Descriptor} {typed : Prop} {n : Node} {d : Descriptor}

/-- What an operation is described by is inferred from what its operands are described by. -/
theorem describeNode_eq_ok_iff (hop : n.op.isData = false) :
    describeNode inputs constants known n = .ok d ↔
      ∃ operands, List.Forall₂ (fun name o => known.find? name = some o) n.inputNames operands ∧
        Operator.infer n operands (fun i => n.inputNames[i]?.bind constants.find?) = .ok d := by
  refine ⟨infer_of_describeNode hop, ?_⟩
  rintro ⟨operands, hoperands, h⟩
  unfold describeNode
  split
  · rename_i hplaceholder
    rw [hplaceholder] at hop
    cases hop
  · rename_i hconst
    rw [hconst] at hop
    cases hop
  · refine Outcome.bind_eq_ok_iff.mpr ⟨operands, ?_, h⟩
    rw [Outcome.mapM_eq_ok_iff]
    refine hoperands.imp fun name o ho => ?_
    rw [ho]

/-- Operands that are known are known where they agree. -/
theorem exists_operands_of_agrees {names : List String} {operands : List Descriptor}
    (hknown : ∀ name ∈ names, Named.Agrees typed known known' name)
    (h : List.Forall₂ (fun name o => known.find? name = some o) names operands) :
    ∃ operands', List.Forall₂ (fun name o => known'.find? name = some o) names operands' ∧
      List.Forall₂ (Descriptor.Agrees typed) operands operands' := by
  induction h with
  | nil => exact ⟨[], .nil, .nil⟩
  | cons ho _ ih =>
    obtain ⟨hname, hnames⟩ := List.forall_mem_cons.mp hknown
    obtain ⟨o', ho', hagrees⟩ := hname _ ho
    obtain ⟨operands', hoperands', hrest⟩ := ih hnames
    exact ⟨o' :: operands', .cons ho' hoperands', .cons hagrees hrest⟩

/-- Inference on operands that agree gives results that agree. -/
theorem exists_infer_of_agrees {constant : Nat → Option Tensor} {operands operands' : List Descriptor}
    (hoperands : List.Forall₂ (Descriptor.Agrees typed) operands operands')
    (h : Operator.infer n operands constant = .ok d) :
    ∃ d', Operator.infer n operands' constant = .ok d' ∧ d.Agrees typed d' := by
  obtain ⟨d', hd', hshape⟩ := Operator.exists_infer_of_shapes (hoperands.imp fun _ _ ho => ho.shape) h
  refine ⟨d', hd', hshape.symm, fun htyped => ?_⟩
  have hfirst := Operator.dtype_of_infer h
  have hfirst' := Operator.dtype_of_infer hd'
  cases hoperands with
  | nil => cases hfirst
  | cons ho _ => exact (Option.some.inj hfirst).symm.trans ((ho.dtype htyped).trans (Option.some.inj hfirst'))

/-- A node that holds data is described by its input or its tensor. -/
theorem describeNode_of_isData (hop : n.op.isData = true)
    (hinputs : ∀ name, inputs'.find? (·.node = name) = inputs.find? (·.node = name)) :
    describeNode inputs' constants known' n = describeNode inputs constants known n := by
  unfold describeNode
  rcases Operator.isData_iff.mp hop with hop | hop
  · rw [hop]
    dsimp only
    rw [hinputs]
  · rw [hop]

/-- **What a node is described by** with its operands exchanged, where these are described as before. -/
theorem describeNode_exchange (weights : Tensors)
    (hinputs : ∀ name, inputs'.find? (·.node = name) = inputs.find? (·.node = name))
    (hknown : ∀ name ∈ n.inputNames, Named.Agrees typed known known' name)
    (htyped : typed → n.OneType chosen known) (h : describeNode inputs constants known n = .ok d) :
    ∃ d', describeNode inputs' constants known' (n.exchange weights chosen) = .ok d' ∧
      d.Agrees typed d' := by
  by_cases hop : n.op.isData = true
  · have hpairwise : ¬ n.op.isPairwise := by
      rcases Operator.isData_iff.mp hop with hop | hop <;> rw [hop] <;> decide
    rw [Node.exchange_of_not_isPairwise hpairwise, describeNode_of_isData hop hinputs]
    exact ⟨d, h, rfl, fun _ => rfl⟩
  rw [Bool.not_eq_true] at hop
  obtain ⟨operands, hoperands, hinfer⟩ := (describeNode_eq_ok_iff hop).mp h
  obtain ⟨operands', hoperands', hagrees⟩ := exists_operands_of_agrees hknown hoperands
  obtain ⟨d', hinfer', hd⟩ := exists_infer_of_agrees hagrees hinfer
  obtain ⟨hchosen, hpairwise, a, b, hpair, he⟩ | he := Node.exchange_cases weights chosen n
  · -- both operands are there, in the other order
    have hnames : n.inputNames = [a.node, b.node] := by
      unfold Node.inputNames
      rw [hpair]
      rfl
    rw [hnames] at hoperands hoperands'
    obtain _ | ⟨ha, _ | ⟨hb, ⟨⟩⟩⟩ := hoperands
    obtain _ | ⟨ha', _ | ⟨hb', ⟨⟩⟩⟩ := hoperands'
    obtain _ | ⟨hagrees_a, _ | ⟨hagrees_b, ⟨⟩⟩⟩ := hagrees
    refine ⟨_, (describeNode_eq_ok_iff (by rwa [Node.exchange_op])).mpr
      ⟨_, ?operands, Operator.infer_exchange hpairwise Node.exchange_op hinfer'⟩, hd.shape, fun ht => ?dtype⟩
    case operands =>
      rw [he]
      exact .cons hb' (.cons ha' .nil)
    case dtype =>
      have hsame := htyped ht hchosen hpairwise _ _ hnames
      rw [ha, hb] at hsame
      rw [((Operator.infer_pair_iff hpairwise).mp hinfer).2, Option.some.inj hsame]
      exact hagrees_b.dtype ht
  · rw [he]
    exact ⟨d', (describeNode_eq_ok_iff hop).mpr ⟨operands', hoperands', hinfer'⟩, hd⟩

/-- **Nodes one behind the other** are described with their operands exchanged, where what they read stands
before them. -/
theorem describeNodes_exchange (weights : Tensors) {nodes : List Node} {before : List String}
    (hinputs : ∀ name, inputs'.find? (·.node = name) = inputs.find? (·.node = name))
    (hnodes : ∀ m ∈ nodes, ∃ n, n.exchange weights chosen = m ∧ (typed → n.OneType chosen known) ∧
      ∃ d, known.find? n.name = some d ∧ describeNode inputs constants known n = .ok d)
    (hbehind : ∀ front m back, nodes = front ++ m :: back → ∀ name ∈ m.inputNames,
      name ∈ before ++ front.map (·.name))
    (hknown : ∀ name ∈ before, Named.Agrees typed known known' name) :
    ∃ final, describeNodes inputs' constants known' nodes = .ok final ∧
      ∀ name ∈ before ++ nodes.map (·.name), Named.Agrees typed known final name := by
  induction nodes generalizing before known' with
  | nil => exact ⟨known', rfl, by simpa using hknown⟩
  | cons m rest ih =>
    obtain ⟨hfirst, hrest⟩ := List.forall_mem_cons.mp hnodes
    obtain ⟨n, rfl, htyped, d, hfind, hdescribe⟩ := hfirst
    have hread : ∀ name ∈ n.inputNames, Named.Agrees typed known known' name := by
      intro name hname
      refine hknown name ?_
      simpa using hbehind [] _ rest rfl name (Node.mem_exchange_inputNames.mpr hname)
    obtain ⟨d', hd', hagrees⟩ := describeNode_exchange weights hinputs hread htyped hdescribe
    -- what is said of the node is all that is new
    have hknown' : ∀ name ∈ before ++ [n.name],
        Named.Agrees typed known (known'.insert (n.exchange weights chosen).name d') name := by
      intro name hname e he
      rw [Named.find?_insert, Node.exchange_name]
      split
      · rename_i hname
        rw [← hname, hfind] at he
        exact ⟨d', rfl, Option.some.inj he ▸ hagrees⟩
      · rename_i hne
        have hmem : name ∈ before :=
          (List.mem_append.mp hname).resolve_right fun h => hne (List.mem_singleton.mp h).symm
        exact hknown name hmem e he
    have hbehind' : ∀ front m back, rest = front ++ m :: back → ∀ name ∈ m.inputNames,
        name ∈ before ++ [n.name] ++ front.map (·.name) := by
      intro front m back hsplit name hname
      have := hbehind (n.exchange weights chosen :: front) m back (by rw [hsplit]; rfl) name hname
      simpa using this
    obtain ⟨final, hfinal, hall⟩ := ih hrest hbehind' hknown'
    refine ⟨final, ?_, ?_⟩
    · rw [describeNodes]
      exact Outcome.bind_eq_ok_iff.mpr ⟨d', hd', hfinal⟩
    · simpa using hall

/-! ## §3 — schedules -/

/-- Nodes that take no pair of operands are the same ones. -/
theorem mem_and_op_iff_of_exchange {weights : Tensors} {nodes nodes' : List Node} {op : Operator}
    (hnodes : ∀ m, m ∈ nodes' ↔ ∃ n ∈ nodes, n.exchange weights chosen = m) (hop : ¬ op.isPairwise)
    {m : Node} : m ∈ nodes' ∧ m.op = op ↔ m ∈ nodes ∧ m.op = op := by
  have hkept : ∀ n : Node, n.op = op → n.exchange weights chosen = n := fun n hn =>
    Node.exchange_of_not_isPairwise (hn ▸ hop)
  rw [hnodes]
  constructor
  · rintro ⟨⟨n, hn, rfl⟩, hm⟩
    rw [Node.exchange_op] at hm
    rw [hkept n hm]
    exact ⟨hn, hm⟩
  · rintro ⟨hm, hm'⟩
    exact ⟨⟨m, hm, hkept m hm'⟩, hm'⟩

/-- The constants of the same constant nodes are the same. -/
theorem constantsOf_eq_of_mem_iff {nodes nodes' : List Node}
    (h : ∀ m, m ∈ nodes' ∧ m.op = .const ↔ m ∈ nodes ∧ m.op = .const) :
    g.constantsOf nodes' = g.constantsOf nodes := by
  refine Named.ext fun name => Option.ext fun t => ?_
  simp only [find?_constantsOf_eq_some_iff, ← and_assoc, h]

variable {r : Request} {s s' : Schedule}

/-- The inputs of the same placeholders are the same ones. -/
theorem exists_inputSpecs_of_mem_iff {nodes nodes' : List Node}
    (h : ∀ m, m ∈ nodes' ∧ m.op = .placeholder ↔ m ∈ nodes ∧ m.op = .placeholder)
    (hinputs : (nodes.filter (·.op = .placeholder)).mapM (g.inputSpec r) = .ok inputs) :
    ∃ inputs', (nodes'.filter (·.op = .placeholder)).mapM (g.inputSpec r) = .ok inputs' ∧
      ∀ i, i ∈ inputs' ↔ i ∈ inputs := by
  have hmem : ∀ m, m ∈ nodes'.filter (·.op = .placeholder) ↔ m ∈ nodes.filter (·.op = .placeholder) := by
    intro m
    rw [List.mem_filter, List.mem_filter, decide_eq_true_eq]
    exact h m
  obtain ⟨inputs', hinputs'⟩ : ∃ inputs',
      (nodes'.filter (·.op = .placeholder)).mapM (g.inputSpec r) = .ok inputs' := by
    refine Outcome.exists_mapM_eq_ok fun m hm => ?_
    obtain ⟨i, -, hi⟩ := Outcome.exists_result_of_mem hinputs ((hmem m).mp hm)
    exact ⟨i, hi⟩
  refine ⟨inputs', hinputs', fun i => ?_⟩
  rw [Outcome.mem_results_iff hinputs, Outcome.mem_results_iff hinputs']
  exact exists_congr fun m => and_congr_left fun _ => hmem m

end Graph

/-- Tensors that bind to a schedule bind to every schedule of the same inputs. -/
theorem Schedule.exists_bind_of_mem_iff {s s' : Schedule} {given bound : Tensors}
    (hbatch : s'.batch = s.batch) (hinputs : ∀ i, i ∈ s'.inputs ↔ i ∈ s.inputs)
    (h : s.bind given = .ok bound) : ∃ bound', s'.bind given = .ok bound' := by
  refine exists_bind (fun key hkey => ?_) fun i hi => ?_
  · obtain ⟨i, hi, hname⟩ := known_of_bind h hkey
    exact ⟨i, (hinputs i).mpr hi, hname⟩
  · unfold bind at h
    obtain ⟨-, h⟩ := Outcome.check_eq_ok_iff.mp h
    obtain ⟨entries, hentries, -⟩ := Outcome.bind_eq_ok_iff.mp h
    obtain ⟨entry, -, hentry⟩ := Outcome.exists_result_of_mem hentries ((hinputs i).mp hi)
    refine ⟨entry, ?_⟩
    rw [← hentry]
    unfold bindOne
    rw [hbatch]

namespace Graph

variable {g : Graph} {chosen : String → Bool} {r : Request} {s s' : Schedule}

/-- **A schedule stays one** when operands are exchanged: its nodes are the same ones, and what it says of
them agrees. -/
theorem exists_schedule_exchange (typed : Prop) (hb : g.Built) (chosen : String → Bool)
    (hs : g.schedule r = .ok s) (htyped : typed → ∀ n ∈ s.nodes, n.OneType chosen s.descriptors) :
    ∃ s', (g.exchange chosen).schedule r = .ok s' ∧
      (∀ m, m ∈ s'.nodes ↔ ∃ n ∈ s.nodes, n.exchange g.constants chosen = m) ∧
      ∀ name ∈ s'.nodes.map (·.name), Named.Agrees typed s.descriptors s'.descriptors name := by
  obtain ⟨order, horder, houtputs, hnodes, hinputs, hconstants, -, hbatch⟩ := exists_stages hs
  obtain ⟨order', horder'⟩ := (exists_ordered_exchange_iff g chosen).mpr ⟨order, horder⟩
  have ho' := ordered_eq_ok horder'
  generalize hnodes' : (g.exchange chosen).neededNodes order' s.outputs = nodes'
  have hmem : ∀ m, m ∈ nodes' ↔ ∃ n ∈ s.nodes, n.exchange g.constants chosen = m := by
    intro m
    rw [← hnodes', hnodes]
    exact mem_neededNodes_exchange_iff (ordered_eq_ok horder) ho'
  -- placeholders and constants stay as they are, so inputs and tensors are the same
  obtain ⟨inputs', hinputs', hmem'⟩ := exists_inputSpecs_of_mem_iff
    (fun m => mem_and_op_iff_of_exchange hmem (by decide)) hinputs
  have hconstants' : (g.exchange chosen).constantsOf nodes' = s.constants :=
    (constantsOf_eq_of_mem_iff fun m => mem_and_op_iff_of_exchange hmem (by decide)).trans hconstants.symm
  have hfind : ∀ name, inputs'.find? (·.node = name) = s.inputs.find? (·.node = name) := by
    refine fun name => find?_eq_of_mem_iff hmem' fun i hi j hj hi' hj' => ?_
    exact input_eq_of_node_eq hs hi hj ((of_decide_eq_true hi').trans (of_decide_eq_true hj').symm)
  have hpartners : ∀ m ∈ nodes', ∃ n, n.exchange g.constants chosen = m ∧
      (typed → n.OneType chosen s.descriptors) ∧ ∃ d, s.descriptors.find? n.name = some d ∧
        describeNode s.inputs s.constants s.descriptors n = .ok d := by
    intro m hm
    obtain ⟨n, hn, he⟩ := (hmem m).mp hm
    exact ⟨n, he, fun ht => htyped ht n hn, schedule_describes hs hn⟩
  have hbehind : ∀ front m back, nodes' = front ++ m :: back → ∀ name ∈ m.inputNames,
      name ∈ [] ++ front.map (·.name) := fun front m back hsplit name hname =>
    neededNodes_behind ho' (hb.exchange chosen) (hnodes'.trans hsplit) hname
  obtain ⟨descriptors', hdescribe', hagrees⟩ : ∃ final,
      describeNodes inputs' s.constants .empty nodes' = .ok final ∧
        ∀ name ∈ [] ++ nodes'.map (·.name), Named.Agrees typed s.descriptors final name :=
    describeNodes_exchange g.constants hfind hpartners hbehind fun name hname => absurd hname List.not_mem_nil
  let s' : Schedule := ⟨nodes', descriptors', inputs', s.outputs, s.constants, s.batch⟩
  refine ⟨s', schedule_of_stages_given horder' ?outputs hnodes' hinputs' hconstants' hdescribe' hbatch.symm
    ?given, hmem, hagrees⟩
  case outputs =>
    rw [resolveOutputs_exchange]
    exact houtputs
  case given =>
    intro given hgiven
    obtain ⟨bound, hbound⟩ := bind_of_schedule hs hgiven
    exact Schedule.exists_bind_of_mem_iff (s := s) rfl hmem' hbound

/-- The names of the scheduled nodes are the same. -/
theorem mem_scheduledNames_exchange_iff
    (h : ∀ m, m ∈ s'.nodes ↔ ∃ n ∈ s.nodes, n.exchange g.constants chosen = m) {name : String} :
    name ∈ s'.nodes.map (·.name) ↔ name ∈ s.nodes.map (·.name) := by
  rw [List.mem_map, List.mem_map]
  constructor
  · rintro ⟨_, hm, rfl⟩
    obtain ⟨n, hn, rfl⟩ := (h _).mp hm
    exact ⟨n, hn, Node.exchange_name.symm⟩
  · rintro ⟨n, hn, rfl⟩
    exact ⟨_, (h _).mpr ⟨n, hn, rfl⟩, Node.exchange_name⟩

/-- A schedule describes the nodes it schedules, and no other names. -/
theorem isSome_descriptor_iff (hs : g.schedule r = .ok s) {name : String} :
    (s.descriptors.find? name).isSome ↔ name ∈ s.nodes.map (·.name) := by
  obtain ⟨_, -, -, -, -, -, hdescribe⟩ := schedule_eq_ok hs
  rw [describeNodes_eq_ok hdescribe, Named.find?_empty]
  simp

/-- A name is described in both schedules, and alike, or in neither of them. -/
theorem descriptor_cases {typed : Prop} (hs : g.schedule r = .ok s)
    (hs' : (g.exchange chosen).schedule r = .ok s')
    (hnodes : ∀ m, m ∈ s'.nodes ↔ ∃ n ∈ s.nodes, n.exchange g.constants chosen = m)
    (hagrees : ∀ name ∈ s'.nodes.map (·.name), Named.Agrees typed s.descriptors s'.descriptors name)
    (name : String) : (s.descriptors.find? name = none ∧ s'.descriptors.find? name = none) ∨
      ∃ d d', s.descriptors.find? name = some d ∧ s'.descriptors.find? name = some d' ∧
        d.Agrees typed d' := by
  have hsome : (s'.descriptors.find? name).isSome ↔ (s.descriptors.find? name).isSome := by
    rw [isSome_descriptor_iff hs, isSome_descriptor_iff hs', mem_scheduledNames_exchange_iff hnodes]
  cases hd : s.descriptors.find? name with
  | none =>
    rw [hd] at hsome
    exact .inl ⟨rfl, by simpa using hsome⟩
  | some d =>
    rw [hd] at hsome
    obtain ⟨d', hd', hagree⟩ := hagrees name ((isSome_descriptor_iff hs').mp (hsome.mpr rfl)) d hd
    exact .inr ⟨d, d', rfl, hd', hagree⟩

/-- The type of what an operation gives is that of the first thing it reads. -/
theorem dtype_of_scheduled (hs : g.schedule r = .ok s) {n : Node} (hn : n ∈ s.nodes)
    (hop : n.op.isData = false) {names : List String} {first : String} (h : n.inputNames = first :: names) :
    (s.descriptors.find? n.name).map Descriptor.dtype = (s.descriptors.find? first).map Descriptor.dtype := by
  obtain ⟨d, hfind, hdescribe⟩ := schedule_describes hs hn
  obtain ⟨operands, hoperands, hinfer⟩ := (describeNode_eq_ok_iff hop).mp hdescribe
  have hdtype := Operator.dtype_of_infer hinfer
  rw [h] at hoperands
  obtain _ | ⟨hfirst, -⟩ := hoperands
  rw [hfind, hfirst]
  exact hdtype.symm

/-- Where the descriptors are the same, exchanged operands have one type. -/
theorem oneType_of_descriptors_eq (hs : g.schedule r = .ok s) (hs' : (g.exchange chosen).schedule r = .ok s')
    (hnodes : ∀ m, m ∈ s'.nodes ↔ ∃ n ∈ s.nodes, n.exchange g.constants chosen = m)
    (h : s'.descriptors = s.descriptors) {n : Node} (hn : n ∈ s.nodes) : n.OneType chosen s.descriptors := by
  intro hchosen hop a b hpair
  have hdata : n.op.isData = false := by
    rcases Operator.isPairwise_iff.mp hop with hop | hop <;> rw [hop] <;> rfl
  have hn' : n.exchange g.constants chosen ∈ s'.nodes := (hnodes _).mpr ⟨n, hn, rfl⟩
  have hfirst := dtype_of_scheduled hs hn hdata hpair
  have hsecond := dtype_of_scheduled hs' hn' (by rwa [Node.exchange_op])
    (Node.exchange_inputNames hchosen hop hpair)
  rw [h, Node.exchange_name] at hsecond
  exact hfirst.symm.trans hsecond

/-- **What exchanging the operands** of sums and products does to a schedule: there is one for the same
requests, with the same shapes, and with the same types exactly where no operands of two types are
exchanged. -/
theorem Built.schedule_exchange (hb : g.Built) (chosen : String → Bool) (r : Request) :
    (g.exchange chosen).Built ∧
    ((∃ s, g.schedule r = .ok s) ↔ ∃ s', (g.exchange chosen).schedule r = .ok s') ∧
    ∀ s s', g.schedule r = .ok s → (g.exchange chosen).schedule r = .ok s' →
      (∀ name, (s'.descriptors.find? name).map Descriptor.shape =
        (s.descriptors.find? name).map Descriptor.shape) ∧
      (s'.descriptors = s.descriptors ↔ ∀ n ∈ s.nodes, n.OneType chosen s.descriptors) := by
  refine ⟨hb.exchange chosen, ⟨?there, ?back⟩, fun s s' hs hs' => ?_⟩
  case there =>
    rintro ⟨s, hs⟩
    obtain ⟨s', hs', -⟩ := exists_schedule_exchange False hb chosen hs False.elim
    exact ⟨s', hs'⟩
  case back =>
    rintro ⟨s', hs'⟩
    obtain ⟨s, hs, -⟩ := exists_schedule_exchange False (hb.exchange chosen) chosen hs' False.elim
    rw [exchange_exchange hb] at hs
    exact ⟨s, hs⟩
  obtain ⟨t, h, hnodes, hagrees⟩ := exists_schedule_exchange _ hb chosen hs id
  obtain rfl : t = s' := Except.ok.inj (h.symm.trans hs')
  have hboth := descriptor_cases hs hs' hnodes hagrees
  refine ⟨fun name => ?shape, fun heq n hn => oneType_of_descriptors_eq hs hs' hnodes heq hn,
    fun htyped => Named.ext fun name => ?_⟩
  case shape =>
    obtain ⟨hnone, hnone'⟩ | ⟨d, d', hd, hd', hagrees⟩ := hboth name
    · rw [hnone, hnone']
    · rw [hd, hd', Option.map_some, Option.map_some, hagrees.shape]
  obtain ⟨hnone, hnone'⟩ | ⟨d, d', hd, hd', hagrees⟩ := hboth name
  · rw [hnone, hnone']
  · rw [hd, hd', hagrees.eq htyped]

/-- The operands of the sum of floats may be exchanged. -/
theorem summed_exchange : summed.Built ∧ summed.schedule summedRequest = .ok summedSchedule ∧
    ∃ s', (summed.exchange (· = "sum")).schedule summedRequest = .ok s' ∧
      s'.descriptors = summedSchedule.descriptors := by
  obtain ⟨-, hiff, hsame⟩ := summed_built.schedule_exchange (· = "sum") summedRequest
  obtain ⟨s', hs'⟩ := hiff.mp ⟨_, summed_schedule⟩
  refine ⟨summed_built, summed_schedule, s', hs', (hsame _ _ summed_schedule hs').2.mpr ?_⟩
  intro n hn _ hop a b hpair
  have hfloats : ∀ n ∈ summedSchedule.nodes, ∀ name ∈ n.inputNames,
      (summedSchedule.descriptors.find? name).map Descriptor.dtype = some .float32 := by decide +kernel
  rw [hfloats n hn a (by simp [hpair]), hfloats n hn b (by simp [hpair])]

/-! ## §4 — a sum of two types -/

/-- A float and an integer, and their sum. -/
def mixedNodes : List Node :=
  [⟨"x", .placeholder, [], .ofList [("shape", .numbers [.one])], []⟩, ⟨"k", .const, [], .empty, []⟩,
   ⟨"y", .add, [.first "x", .first "k"], .empty, ["k"]⟩]

/-- The integer. -/
def mixedConstants : Tensors := .ofList [("k", ⟨[1], .int32 [1], by decide⟩)]

/-- The graph of the sum. -/
def mixed : Graph where
  nodes := mixedNodes
  constants := mixedConstants
  signature := none
  named := by decide
  distinct := by decide
  wired := by decide
  given := by
    unfold mixedConstants
    simp only [Named.find?_ofList]
    decide

theorem mixed_built : mixed.Built := .assembled mixedNodes mixedConstants none (by cbv)

/-- The sum is asked for, of the shape that is declared. -/
def mixedRequest : Request := ⟨["y"], .kept, .empty, none⟩

/-- The schedule of the sum, of these operands and of this type. -/
def mixedSchedule (operands : List Reference) (dtype : DataType) : Schedule where
  nodes := [mixedNodes[1], mixedNodes[0], ⟨"y", .add, operands, .empty, ["k"]⟩]
  descriptors := .ofList [("k", ⟨[1], .int32⟩), ("x", ⟨[1], .float32⟩), ("y", ⟨[1], dtype⟩)]
  inputs := [⟨"x", "x", .float32, some [1], [1]⟩]
  outputs := [⟨"y", "y"⟩]
  constants := mixedConstants
  batch := .kept

theorem mixed_schedule :
    mixed.schedule mixedRequest = .ok (mixedSchedule [.first "x", .first "k"] .float32) := by
  have horder : mixed.ordered =
      .ok [⟨1, show 1 < 3 by decide⟩, ⟨0, show 0 < 3 by decide⟩, ⟨2, show 2 < 3 by decide⟩] := by cbv
  exact schedule_of_stages horder (by cbv) (by cbv) (by decide +kernel) (by cbv) (by cbv) rfl rfl

theorem mixed_exchange_schedule : (mixed.exchange (· = "y")).schedule mixedRequest =
    .ok (mixedSchedule [.first "k", .first "x"] .int32) := by
  have horder : (mixed.exchange (· = "y")).ordered =
      .ok [⟨1, show 1 < 3 by decide⟩, ⟨0, show 0 < 3 by decide⟩, ⟨2, show 2 < 3 by decide⟩] := by cbv
  exact schedule_of_stages horder (by cbv) (by cbv) (by decide +kernel) (by cbv) (by cbv) rfl rfl

/-- **A sum has the type of its first operand**, so exchanging a float and an integer changes what the sum
is described by. -/
theorem mixed_exchange_ne : mixed.Built ∧ ∃ s s', mixed.schedule mixedRequest = .ok s ∧
    (mixed.exchange (· = "y")).schedule mixedRequest = .ok s' ∧
    s.descriptors.find? "y" = some ⟨[1], .float32⟩ ∧ s'.descriptors.find? "y" = some ⟨[1], .int32⟩ :=
  ⟨mixed_built, _, _, mixed_schedule, mixed_exchange_schedule, by cbv, by cbv⟩

end Graph

end TexelFlow
