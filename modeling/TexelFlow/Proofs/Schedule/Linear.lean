import TexelFlow.Proofs.Graph.Dataflow
import TexelFlow.Proofs.Named

/-!
# Schedules are linearizations

The nodes of a schedule are those at the vertices of an order which some output is reached from and
which are no identities; each of them reads what its inputs stand for. Taking vertices out of an order
leaves the rest in order, and what an input stands for reaches the input and so stands before its
reader.

## Main statements

* `Graph.schedule_eq_ok` — what a schedule consists of.
* `Graph.schedule_linearizes` — a schedule of a built graph linearizes it.

## §1 — nodes that read what their inputs stand for
## §2 — the vertices of a schedule
## §3 — inputs, outputs, constants and descriptors
## §4 — linearizations
## §5 — a sum read through identities
-/

namespace TexelFlow

namespace Graph

variable {g : Graph}

/-! ## §1 — nodes that read what their inputs stand for -/

@[simp] theorem repointed_name (n : Node) : (g.repointed n).name = n.name := rfl

@[simp] theorem repointed_op (n : Node) : (g.repointed n).op = n.op := rfl

@[simp] theorem repointed_attributes (n : Node) : (g.repointed n).attributes = n.attributes := rfl

@[simp] theorem repointed_inputNames (n : Node) :
    (g.repointed n).inputNames = n.inputNames.map g.standsFor := by
  unfold repointed Node.withWeights Node.inputNames
  simp only [List.map_map]
  rfl

/-! ## §2 — the vertices of a schedule -/

/-- What a node reaches stands at a vertex. -/
theorem exists_vertex_of_reached {v : Fin g.nodes.length} {name : String}
    (h : g.Reaches (g.nodeAt v).name name) : ∃ w : Fin g.nodes.length, (g.nodeAt w).name = name := by
  rcases Relation.ReflTransGen.cases_tail h with heq | ⟨_, -, n, hn, hname, -⟩
  · exact ⟨v, heq.symm⟩
  · obtain ⟨w, rfl⟩ := exists_nodeAt hn
    exact ⟨w, hname⟩

/-- **A vertex is kept** when some output is reached from it and it is no identity. -/
theorem mem_keptVertices_iff {order : List (Fin g.nodes.length)} (ho : g.dependencies.Forward order)
    {outputs : List OutputSpec} {v : Fin g.nodes.length} :
    v ∈ g.keptVertices order outputs ↔
      (g.nodeAt v).op ≠ .identity ∧ ∃ o ∈ outputs, g.Reaches (g.nodeAt v).name o.node := by
  unfold keptVertices
  rw [List.mem_filter, decide_eq_true_eq, Digraph.mem_ancestors_iff]
  constructor
  · rintro ⟨-, ⟨w, hw, hr⟩, hop⟩
    obtain ⟨o, ho', hplace⟩ := List.mem_filterMap.mp hw
    refine ⟨hop, o, ho', ?_⟩
    rw [← place?_eq_some_iff.mp hplace]
    exact reaches_iff.mp hr
  · rintro ⟨hop, o, ho', hr⟩
    obtain ⟨w, hw⟩ := exists_vertex_of_reached hr
    refine ⟨ho.all v, ⟨w, List.mem_filterMap.mpr ⟨o, ho', place?_eq_some_iff.mpr hw⟩, ?_⟩, hop⟩
    rw [← hw] at hr
    exact reaches_iff.mpr hr

theorem keptVertices_sublist (order : List (Fin g.nodes.length)) (outputs : List OutputSpec) :
    List.Sublist (g.keptVertices order outputs) order :=
  List.filter_sublist

/-- The kept vertices stand in the order they come from. -/
theorem keptVertices_pairwise {order : List (Fin g.nodes.length)} (h : order.Nodup)
    (outputs : List OutputSpec) :
    (g.keptVertices order outputs).Pairwise fun v w => order.idxOf v < order.idxOf w := by
  refine List.Pairwise.sublist (keptVertices_sublist order outputs) ?_
  rw [List.pairwise_iff_getElem]
  intro i j hi hj hij
  rw [h.idxOf_getElem i hi, h.idxOf_getElem j hj]
  exact hij

/-- A path goes forward in an order. -/
theorem idxOf_le_of_reaches {order : List (Fin g.nodes.length)} (ho : g.dependencies.Forward order)
    {v w : Fin g.nodes.length} (h : g.dependencies.Reaches v w) : order.idxOf v ≤ order.idxOf w := by
  induction h with
  | refl => exact Nat.le_refl _
  | tail _ he ih =>
    have := ho.before _ _ he
    omega

/-- **What a kept vertex reads is kept before it**: the node that an input stands for is at a kept
vertex, earlier in the order. -/
theorem exists_kept_input {order : List (Fin g.nodes.length)} (ho : g.dependencies.Forward order)
    (hb : g.Built) {outputs : List OutputSpec} {v : Fin g.nodes.length}
    (hv : v ∈ g.keptVertices order outputs) {name : String} (hname : name ∈ (g.nodeAt v).inputNames) :
    ∃ u ∈ g.keptVertices order outputs,
      (g.nodeAt u).name = g.standsFor name ∧ order.idxOf u < order.idxOf v := by
  obtain ⟨w, rfl⟩ := exists_vertex_of_input (nodeAt_mem v) hname
  obtain ⟨m, hm, hop, hstands, hforwards⟩ := exists_standsFor ho hb w
  obtain ⟨u, rfl⟩ := exists_nodeAt hm
  obtain ⟨-, o, ho', hreach⟩ := (mem_keptVertices_iff ho).mp hv
  -- `u` reaches the input `w`, and through `w` the output that keeps `v`
  have hedge : g.dependencies.Edge w v := edge_iff.mpr hname
  have huw : g.Reaches (g.nodeAt u).name (g.nodeAt w).name := reaches_of_forwards hforwards
  have hwo : g.Reaches (g.nodeAt w).name o.node :=
    Relation.ReflTransGen.head (feeds_iff.mpr hedge) hreach
  refine ⟨u, (mem_keptVertices_iff ho).mpr ⟨hop, o, ho', huw.trans hwo⟩, hstands, ?_⟩
  have hle := idxOf_le_of_reaches ho (reaches_iff.mpr huw)
  have hlt := ho.before w v hedge
  omega

/-! ## §3 — inputs, outputs, constants and descriptors -/

/-- The order of a graph that has one goes forward. -/
theorem ordered_eq_ok {order : List (Fin g.nodes.length)} (h : g.ordered = .ok order) :
    g.dependencies.Forward order := by
  unfold ordered at h
  split at h
  · rename_i hord
    cases h
    exact Digraph.order_eq_ok hord
  · cases h

/-- The reference that an output is asked for by: what the signature says of its name, else the name. -/
def outputReference (g : Graph) (name : String) : String :=
  ((g.signature.bind fun s => s.outputs.find? name).map (·.name)).getD name

/-- An output keeps the name it is asked for by; its node is what the referenced one stands for. -/
theorem resolveOutput_eq_ok {name : String} {o : OutputSpec} (h : g.resolveOutput name = .ok o) :
    o.name = name ∧ ∃ reference n, Reference.parse (g.outputReference name) = .ok reference ∧
      n ∈ g.nodes ∧ n.name = reference.node ∧ o.node = g.standsFor n.name := by
  unfold resolveOutput at h
  obtain ⟨reference, hparse, h⟩ := Outcome.bind_eq_ok_iff.mp h
  obtain ⟨hknown, h⟩ := Outcome.check_eq_ok_iff.mp h
  obtain rfl := Outcome.pure_eq_ok_iff.mp h
  refine ⟨rfl, reference, ?_⟩
  cases hnode : g.node? reference.node with
  | none => simp [hnode] at hknown
  | some n =>
    obtain ⟨hn, hname⟩ := node?_eq_some_iff.mp hnode
    exact ⟨n, hparse, hn, hname, by rw [hname]⟩

/-- The outputs of a schedule are those that are asked for, one by one. -/
theorem resolveOutputs_eq_ok {wanted : List String} {outputs : List OutputSpec}
    (h : g.resolveOutputs wanted = .ok outputs) :
    (g.outputNames wanted).mapM g.resolveOutput = .ok outputs := by
  unfold resolveOutputs at h
  exact (Outcome.check_eq_ok_iff.mp h).2

/-- An input belongs to the placeholder it is declared for. -/
theorem inputSpec_node {r : Request} {n : Node} {i : InputSpec} (h : g.inputSpec r n = .ok i) :
    i.node = n.name := by
  unfold inputSpec at h
  obtain ⟨i', hdeclare, h⟩ := Outcome.bind_eq_ok_iff.mp h
  obtain ⟨shape, -, h⟩ := Outcome.bind_eq_ok_iff.mp h
  obtain rfl := Outcome.pure_eq_ok_iff.mp h
  unfold declareInput at hdeclare
  dsimp only at hdeclare
  split at hdeclare
  · obtain ⟨_, -, hdeclare⟩ := Outcome.bind_eq_ok_iff.mp hdeclare
    obtain rfl := Outcome.pure_eq_ok_iff.mp hdeclare
    rfl
  · obtain ⟨_, -, hdeclare⟩ := Outcome.bind_eq_ok_iff.mp hdeclare
    obtain ⟨_, -, hdeclare⟩ := Outcome.bind_eq_ok_iff.mp hdeclare
    obtain rfl := Outcome.pure_eq_ok_iff.mp hdeclare
    rfl

/-- The constants of nodes are the tensors of the constant nodes among them. -/
theorem find?_constantsOf_eq_some_iff {nodes : List Node} {name : String} {t : Tensor} :
    (g.constantsOf nodes).find? name = some t ↔
      (∃ n ∈ nodes, n.op = .const ∧ n.name = name) ∧ g.constants.find? name = some t := by
  have mem : ∀ k u, (k, u) ∈ ((nodes.filter (·.op = .const)).filterMap fun n =>
      (g.constants.find? n.name).map fun t => (n.name, t)) ↔
      (∃ n ∈ nodes, n.op = .const ∧ n.name = k) ∧ g.constants.find? k = some u := by
    intro k u
    simp only [List.mem_filterMap, List.mem_filter, decide_eq_true_eq, Option.map_eq_some_iff]
    constructor
    · rintro ⟨n, ⟨hn, hop⟩, t, ht, he⟩
      obtain ⟨rfl, rfl⟩ := Prod.mk.inj he
      exact ⟨⟨n, hn, hop, rfl⟩, ht⟩
    · rintro ⟨⟨n, hn, hop, rfl⟩, ht⟩
      exact ⟨n, ⟨hn, hop⟩, u, ht, rfl⟩
  unfold constantsOf
  rw [Named.find?_ofList_eq_some_iff, mem]
  -- two entries of one name are both what the graph holds under it
  intro k a b ha hb
  have := ((mem k a).mp ha).2.symm.trans ((mem k b).mp hb).2
  exact Option.some.inj this

/-- Describing nodes gives a descriptor to each of them, and to no other name. -/
theorem describeNodes_eq_ok {inputs : List InputSpec} {constants : Tensors}
    {known known' : Named Descriptor} {nodes : List Node}
    (h : describeNodes inputs constants known nodes = .ok known') (name : String) :
    (known'.find? name).isSome ↔ (known.find? name).isSome ∨ name ∈ nodes.map (·.name) := by
  induction nodes generalizing known with
  | nil =>
    rw [describeNodes] at h
    cases h
    simp
  | cons n rest ih =>
    rw [describeNodes] at h
    obtain ⟨d, -, h⟩ := Outcome.bind_eq_ok_iff.mp h
    rw [ih h, Named.find?_insert, List.map_cons, List.mem_cons]
    by_cases hn : n.name = name
    · simp [hn]
    · simp [hn, Ne.symm hn]

/-- A schedule is made from the results of its stages. -/
theorem exists_stages {r : Request} {s : Schedule} (h : g.schedule r = .ok s) :
    ∃ order, g.ordered = .ok order ∧ g.resolveOutputs r.outputs = .ok s.outputs ∧
      s.nodes = g.neededNodes order s.outputs ∧
      (s.nodes.filter (·.op = .placeholder)).mapM (g.inputSpec r) = .ok s.inputs ∧
      s.constants = g.constantsOf s.nodes ∧
      describeNodes s.inputs s.constants .empty s.nodes = .ok s.descriptors ∧ s.batch = r.batch := by
  unfold schedule at h
  obtain ⟨order, horder, h⟩ := Outcome.bind_eq_ok_iff.mp h
  obtain ⟨outputs, houtputs, h⟩ := Outcome.bind_eq_ok_iff.mp h
  obtain ⟨inputs, hinputs, h⟩ := Outcome.bind_eq_ok_iff.mp h
  obtain ⟨descriptors, hdescriptors, h⟩ := Outcome.bind_eq_ok_iff.mp h
  have hs : s = ⟨g.neededNodes order outputs, descriptors, inputs, outputs,
      g.constantsOf (g.neededNodes order outputs), r.batch⟩ := by
    -- inputs that come with the request are only checked
    split at h
    · obtain ⟨_, -, h⟩ := Outcome.bind_eq_ok_iff.mp h
      exact (Outcome.pure_eq_ok_iff.mp h).symm
    · exact (Outcome.pure_eq_ok_iff.mp h).symm
  subst hs
  exact ⟨order, horder, houtputs, rfl, hinputs, rfl, hdescriptors, rfl⟩

/-- **What a schedule consists of.** -/
theorem schedule_eq_ok {r : Request} {s : Schedule} (h : g.schedule r = .ok s) :
    ∃ order, g.dependencies.Forward order ∧ g.resolveOutputs r.outputs = .ok s.outputs ∧
      s.nodes = g.neededNodes order s.outputs ∧
      (s.nodes.filter (·.op = .placeholder)).mapM (g.inputSpec r) = .ok s.inputs ∧
      s.constants = g.constantsOf s.nodes ∧
      describeNodes s.inputs s.constants .empty s.nodes = .ok s.descriptors := by
  obtain ⟨order, horder, houtputs, hnodes, hinputs, hconstants, hdescribe, -⟩ := exists_stages h
  exact ⟨order, ordered_eq_ok horder, houtputs, hnodes, hinputs, hconstants, hdescribe⟩

end Graph

/-! ## §4 — linearizations -/

/-- **A schedule linearizes a graph** when it lists, without identities and each behind what it reads,
exactly the nodes that its outputs need, and says of each what it gives. -/
structure Schedule.Linearizes (s : Schedule) (g : Graph) : Prop where
  /-- No two scheduled nodes share a name. -/
  distinct : (s.nodes.map (·.name)).Nodup
  /-- No identity is scheduled. -/
  noIdentity : ∀ n ∈ s.nodes, n.op ≠ .identity
  /-- What a node reads is scheduled before it. -/
  behind : ∀ before n after, s.nodes = before ++ n :: after →
    ∀ r ∈ n.inputs, r.node ∈ before.map (·.name)
  /-- Every output is that of a scheduled node. -/
  outputs : ∀ o ∈ s.outputs, o.node ∈ s.nodes.map (·.name)
  /-- The scheduled names are those of the nodes, identities apart, that reach an output. -/
  needed : ∀ name, name ∈ s.nodes.map (·.name) ↔
    ∃ m ∈ g.nodes, m.name = name ∧ m.op ≠ .identity ∧ ∃ o ∈ s.outputs, g.Reaches name o.node
  /-- A scheduled node does what the node of its name does, and reads what its inputs stand for. -/
  kept : ∀ n ∈ s.nodes, ∃ m ∈ g.nodes, n.name = m.name ∧ n.op = m.op ∧
    n.attributes = m.attributes ∧
    List.Forall₂ (fun x y => Relation.ReflTransGen g.Forwards x y) m.inputNames n.inputNames
  /-- The scheduled nodes have descriptors, and nothing else has. -/
  described : ∀ name, (s.descriptors.find? name).isSome ↔ name ∈ s.nodes.map (·.name)
  /-- There is one input for each scheduled placeholder, in their order. -/
  inputs : s.inputs.map (·.node) = (s.nodes.filter (·.op = .placeholder)).map (·.name)
  /-- Every scheduled constant node has its tensor. -/
  given : ∀ n ∈ s.nodes, n.op = .const → (s.constants.find? n.name).isSome
  /-- The constants are the tensors of the scheduled constant nodes. -/
  constants : ∀ name t, s.constants.find? name = some t ↔
    (∃ n ∈ s.nodes, n.op = .const ∧ n.name = name) ∧ g.constants.find? name = some t

namespace Graph

variable {g : Graph}

/-- The needed nodes stand at kept vertices. -/
theorem mem_neededNodes_iff {order : List (Fin g.nodes.length)} {outputs : List OutputSpec}
    {n : Node} :
    n ∈ g.neededNodes order outputs ↔
      ∃ v ∈ g.keptVertices order outputs, g.repointed (g.nodeAt v) = n := by
  unfold neededNodes
  exact List.mem_map

theorem mem_neededNames_iff {order : List (Fin g.nodes.length)} {outputs : List OutputSpec}
    {name : String} :
    name ∈ (g.neededNodes order outputs).map (·.name) ↔
      ∃ v ∈ g.keptVertices order outputs, (g.nodeAt v).name = name := by
  unfold neededNodes
  rw [List.map_map]
  exact List.mem_map

/-- The needed nodes have distinct names. -/
theorem neededNames_nodup {order : List (Fin g.nodes.length)} (ho : g.dependencies.Forward order)
    (outputs : List OutputSpec) : ((g.neededNodes order outputs).map (·.name)).Nodup := by
  unfold neededNodes
  rw [List.map_map]
  refine List.Nodup.map_on (fun v _ w _ h => nodeAt_inj h) ?_
  exact ho.once.sublist (keptVertices_sublist order outputs)

/-- **What a needed node reads stands before it.** -/
theorem neededNodes_behind {order : List (Fin g.nodes.length)} (ho : g.dependencies.Forward order)
    (hb : g.Built) {outputs : List OutputSpec} {before after : List Node} {n : Node}
    (h : g.neededNodes order outputs = before ++ n :: after) {name : String}
    (hname : name ∈ n.inputNames) : name ∈ before.map (·.name) := by
  unfold neededNodes at h
  obtain ⟨us, vs, hsplit, rfl, hvs⟩ := List.map_eq_append_iff.mp h
  obtain ⟨v, ws, rfl, rfl, rfl⟩ := List.map_eq_cons_iff.mp hvs
  rw [repointed_inputNames] at hname
  obtain ⟨input, hinput, rfl⟩ := List.mem_map.mp hname
  -- `v` is the vertex of `n`, and what it reads is kept at some `u` before it in the order
  have hv : v ∈ g.keptVertices order outputs := by
    rw [hsplit]
    exact List.mem_append_right _ List.mem_cons_self
  obtain ⟨u, hu, hstands, hlt⟩ := exists_kept_input ho hb hv hinput
  have hpair := keptVertices_pairwise ho.once outputs
  rw [hsplit] at hu hpair
  obtain ⟨-, hpair, -⟩ := List.pairwise_append.mp hpair
  rcases List.mem_append.mp hu with hu | hu
  · rw [List.map_map]
    exact List.mem_map.mpr ⟨u, hu, hstands⟩
  · -- the vertices from `v` on do not stand before `v`
    rcases List.mem_cons.mp hu with rfl | hu
    · omega
    · have := (List.pairwise_cons.mp hpair).1 u hu
      omega

/-- The nodes of the outputs are kept. -/
theorem output_mem_neededNames {order : List (Fin g.nodes.length)}
    (ho : g.dependencies.Forward order) (hb : g.Built) {outputs : List OutputSpec} {name : String}
    {o : OutputSpec} (h : g.resolveOutput name = .ok o) (hmem : o ∈ outputs) :
    o.node ∈ (g.neededNodes order outputs).map (·.name) := by
  obtain ⟨-, -, n, -, hn, -, hnode⟩ := resolveOutput_eq_ok h
  obtain ⟨w, rfl⟩ := exists_nodeAt hn
  obtain ⟨m, hm, hop, hstands, -⟩ := exists_standsFor ho hb w
  obtain ⟨u, rfl⟩ := exists_nodeAt hm
  have hname : (g.nodeAt u).name = o.node := by rw [hstands, hnode]
  refine mem_neededNames_iff.mpr ⟨u, (mem_keptVertices_iff ho).mpr ⟨hop, o, hmem, ?_⟩, hname⟩
  rw [hname]
  exact Relation.ReflTransGen.refl

/-- **The scheduled names** are those of the nodes, identities apart, that reach an output. -/
theorem mem_scheduledNames_iff {r : Request} {s : Schedule} (h : g.schedule r = .ok s) {name : String} :
    name ∈ s.nodes.map (·.name) ↔
      ∃ m ∈ g.nodes, m.name = name ∧ m.op ≠ .identity ∧ ∃ o ∈ s.outputs, g.Reaches name o.node := by
  obtain ⟨order, ho, -, hnodes, -⟩ := schedule_eq_ok h
  rw [hnodes, mem_neededNames_iff]
  constructor
  · rintro ⟨v, hv, rfl⟩
    obtain ⟨hop, hreach⟩ := (mem_keptVertices_iff ho).mp hv
    exact ⟨_, nodeAt_mem v, rfl, hop, hreach⟩
  · rintro ⟨m, hm, rfl, hop, hreach⟩
    obtain ⟨v, rfl⟩ := exists_nodeAt hm
    exact ⟨v, (mem_keptVertices_iff ho).mpr ⟨hop, hreach⟩, rfl⟩

/-- **A schedule of a built graph linearizes it.** -/
theorem schedule_linearizes (hb : g.Built) {r : Request} {s : Schedule}
    (h : g.schedule r = .ok s) : s.Linearizes g := by
  obtain ⟨order, ho, houtputs, hnodes, hinputs, hconstants, hdescribe⟩ := schedule_eq_ok h
  have hmem : ∀ n ∈ s.nodes, ∃ v ∈ g.keptVertices order s.outputs, g.repointed (g.nodeAt v) = n := by
    intro n hn
    rw [hnodes] at hn
    exact mem_neededNodes_iff.mp hn
  constructor
  case distinct =>
    rw [hnodes]
    exact neededNames_nodup ho s.outputs
  case noIdentity =>
    intro n hn
    obtain ⟨v, hv, rfl⟩ := hmem n hn
    exact ((mem_keptVertices_iff ho).mp hv).1
  case behind =>
    intro before n after hsplit i hi
    rw [hnodes] at hsplit
    exact neededNodes_behind ho hb hsplit (List.mem_map_of_mem hi)
  case outputs =>
    intro o hmem
    obtain ⟨name, -, hresolve⟩ :=
      Outcome.exists_of_mem_results (resolveOutputs_eq_ok houtputs) hmem
    rw [hnodes]
    exact output_mem_neededNames ho hb hresolve hmem
  case needed => exact fun name => mem_scheduledNames_iff h
  case kept =>
    intro n hn
    obtain ⟨v, -, rfl⟩ := hmem n hn
    refine ⟨_, nodeAt_mem v, rfl, rfl, rfl, ?_⟩
    rw [repointed_inputNames, List.forall₂_map_right_iff, List.forall₂_same]
    intro name _
    exact forwards_follow hb _ name
  case described =>
    intro name
    rw [describeNodes_eq_ok hdescribe]
    simp
  case inputs =>
    have := Outcome.mapM_eq_ok_iff.mp hinputs
    rw [← List.forall₂_eq_eq_eq, List.forall₂_map_left_iff, List.forall₂_map_right_iff]
    exact this.flip.imp fun i n hi => inputSpec_node hi
  case given =>
    intro n hn hop
    obtain ⟨v, -, rfl⟩ := hmem n hn
    obtain ⟨t, ht⟩ := Option.isSome_iff_exists.mp (g.given _ (nodeAt_mem v) hop)
    have : s.constants.find? (g.repointed (g.nodeAt v)).name = some t := by
      rw [hconstants, find?_constantsOf_eq_some_iff]
      exact ⟨⟨_, hn, hop, rfl⟩, ht⟩
    rw [this]
    rfl
  case constants =>
    intro name t
    rw [hconstants]
    exact find?_constantsOf_eq_some_iff

/-! ## §5 — a sum read through identities -/

/-- Nodes of which most stand before what they read: a sum whose first operand comes by way of two
identities, an identity as the output, and a node that no output needs. -/
def summedNodes : List Node :=
  [⟨"out", .identity, [.first "sum"], .empty, []⟩,
   ⟨"sum", .add, [.first "copy", .first "ones"], .empty, ["ones"]⟩,
   ⟨"copy", .identity, [.first "again"], .empty, []⟩,
   ⟨"again", .identity, [.first "x"], .empty, []⟩,
   ⟨"unread", .relu, [.first "x"], .empty, []⟩,
   ⟨"x", .placeholder, [], .empty, []⟩,
   ⟨"ones", .const, [], .empty, []⟩]

/-- The constant of the sum. -/
def summedConstants : Tensors := .ofList [("ones", ⟨[2], .float32 [.one, .one], by decide⟩)]

/-- The graph of the sum. -/
def summed : Graph where
  nodes := summedNodes
  constants := summedConstants
  signature := none
  named := by decide
  distinct := by decide
  wired := by decide
  given := by
    unfold summedConstants
    simp only [Named.find?_ofList]
    decide

theorem summed_built : summed.Built := .assembled summedNodes summedConstants none (by cbv)

/-- The sum is asked for by its identity, for an input of two elements. -/
def summedRequest : Request := ⟨["out"], .kept, .ofList [("x", [2])], none⟩

/-- The schedule of the sum. -/
def summedSchedule : Schedule where
  nodes := [⟨"ones", .const, [], .empty, []⟩, ⟨"x", .placeholder, [], .empty, []⟩,
    ⟨"sum", .add, [.first "x", .first "ones"], .empty, ["ones"]⟩]
  descriptors := .ofList
    [("ones", ⟨[2], .float32⟩), ("x", ⟨[2], .float32⟩), ("sum", ⟨[2], .float32⟩)]
  inputs := [⟨"x", "x", .float32, none, [2]⟩]
  outputs := [⟨"out", "sum"⟩]
  constants := summedConstants
  batch := .kept

theorem summed_schedule : summed.schedule summedRequest = .ok summedSchedule := by
  -- stage by stage: a single evaluation of the whole takes too long
  have horder : summed.ordered = .ok (List.finRange _).reverse := by cbv
  have houtputs : summed.resolveOutputs summedRequest.outputs = .ok summedSchedule.outputs := by cbv
  have hneeded : summed.dependencies.ancestors
      (summedSchedule.outputs.filterMap fun o => summed.place? o.node) =
      [⟨6, by decide⟩, ⟨5, by decide⟩, ⟨3, by decide⟩, ⟨2, by decide⟩, ⟨1, by decide⟩] := by cbv
  have hnodes : summed.neededNodes (List.finRange _).reverse summedSchedule.outputs =
      summedSchedule.nodes := by
    unfold neededNodes keptVertices
    rw [hneeded]
    cbv
  have hinputs : (summedSchedule.nodes.filter (·.op = .placeholder)).mapM
      (summed.inputSpec summedRequest) = .ok summedSchedule.inputs := by cbv
  have hconstants : summed.constantsOf summedSchedule.nodes = summedSchedule.constants := by cbv
  have hdescribe : describeNodes summedSchedule.inputs summedSchedule.constants .empty
      summedSchedule.nodes = .ok summedSchedule.descriptors := by cbv
  refine Outcome.bind_eq_ok_iff.mpr ⟨_, horder, Outcome.bind_eq_ok_iff.mpr ⟨_, houtputs, ?_⟩⟩
  dsimp only
  rw [hnodes, hconstants]
  exact Outcome.bind_eq_ok_iff.mpr ⟨_, hinputs, Outcome.bind_eq_ok_iff.mpr ⟨_, hdescribe, rfl⟩⟩

/-- The schedule of the sum linearizes its graph. -/
theorem summed_linearizes : summed.Built ∧ summed.schedule summedRequest = .ok summedSchedule ∧
    summedSchedule.Linearizes summed :=
  ⟨summed_built, summed_schedule, schedule_linearizes summed_built summed_schedule⟩

end Graph

end TexelFlow
