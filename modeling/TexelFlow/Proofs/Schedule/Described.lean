import TexelFlow.Proofs.Schedule.Binding
import TexelFlow.Proofs.Schedule.Linear

/-!
# What a schedule says of its nodes

The descriptors are made one behind the other, each from those before it. Names are distinct, so what
was said once still stands at the end, and the finished descriptors explain themselves: each is what its
node's operation gives for the finished descriptors of what it reads. The data that are bound to a
placeholder, and those of a constant, are as they are described.

## Main statements

* `schedule_describes` — every scheduled node is described by the finished descriptors.
* `data_described` — the data of a scheduled node have its shape and type.

## §1 — scheduled nodes
## §2 — finished descriptors
## §3 — data
## §4 — stages
-/

namespace TexelFlow

/-! ## §1 — scheduled nodes -/

namespace Graph

variable {g : Graph} {r : Request} {s : Schedule}

theorem scheduledNames_nodup (hs : g.schedule r = .ok s) : (s.nodes.map (·.name)).Nodup := by
  obtain ⟨order, ho, -, hnodes, -⟩ := schedule_eq_ok hs
  rw [hnodes]
  exact neededNames_nodup ho s.outputs

theorem op_ne_identity_of_scheduled (hs : g.schedule r = .ok s) {n : Node} (hn : n ∈ s.nodes) :
    n.op ≠ .identity := by
  obtain ⟨order, ho, -, hnodes, -⟩ := schedule_eq_ok hs
  rw [hnodes] at hn
  obtain ⟨v, hv, rfl⟩ := mem_neededNodes_iff.mp hn
  exact ((mem_keptVertices_iff ho).mp hv).1

/-- What a scheduled node reads is scheduled before it. -/
theorem scheduledNodes_behind (hb : g.Built) (hs : g.schedule r = .ok s) {before after : List Node}
    {n : Node} (hsplit : s.nodes = before ++ n :: after) {name : String}
    (hname : name ∈ n.inputNames) : name ∈ before.map (·.name) := by
  obtain ⟨order, ho, -, hnodes, -⟩ := schedule_eq_ok hs
  rw [hnodes] at hsplit
  exact neededNodes_behind ho hb hsplit hname

theorem output_mem_scheduledNames (hb : g.Built) (hs : g.schedule r = .ok s) {o : OutputSpec}
    (ho : o ∈ s.outputs) : o.node ∈ s.nodes.map (·.name) := by
  obtain ⟨order, hforward, houtputs, hnodes, -⟩ := schedule_eq_ok hs
  obtain ⟨name, -, hresolve⟩ := Outcome.exists_of_mem_results (resolveOutputs_eq_ok houtputs) ho
  rw [hnodes]
  exact output_mem_neededNames hforward hb hresolve ho

/-- The needed constant nodes have their tensors among the constants taken along. -/
theorem exists_constant_of_needed {order : List (Fin g.nodes.length)} {outputs : List OutputSpec}
    {n : Node} (hn : n ∈ g.neededNodes order outputs) (hop : n.op = .const) :
    ∃ t, (g.constantsOf (g.neededNodes order outputs)).find? n.name = some t := by
  have hneeded := hn
  obtain ⟨v, -, rfl⟩ := mem_neededNodes_iff.mp hn
  obtain ⟨t, ht⟩ := Option.isSome_iff_exists.mp (g.given _ (nodeAt_mem v) hop)
  exact ⟨t, find?_constantsOf_eq_some_iff.mpr ⟨⟨_, hneeded, hop, rfl⟩, ht⟩⟩

/-- A scheduled constant node has its tensor. -/
theorem exists_constant_of_scheduled (hs : g.schedule r = .ok s) {n : Node} (hn : n ∈ s.nodes)
    (hop : n.op = .const) : ∃ t, s.constants.find? n.name = some t := by
  obtain ⟨order, -, -, hnodes, -, hconstants, -⟩ := schedule_eq_ok hs
  rw [hnodes] at hn
  rw [hconstants, hnodes]
  exact exists_constant_of_needed hn hop

/-- The inputs are those of the scheduled placeholders, in their order. -/
theorem inputNodes_eq (hs : g.schedule r = .ok s) :
    s.inputs.map (·.node) = (s.nodes.filter (·.op = .placeholder)).map (·.name) := by
  obtain ⟨order, -, -, -, hinputs, -⟩ := schedule_eq_ok hs
  rw [← List.forall₂_eq_eq_eq, List.forall₂_map_left_iff, List.forall₂_map_right_iff]
  exact (Outcome.mapM_eq_ok_iff.mp hinputs).flip.imp fun i n hi => inputSpec_node hi

end Graph

/-! ## §2 — finished descriptors -/

namespace Named

/-- What one map holds, another holds too. -/
def Within {α : Type} (m m' : Named α) : Prop :=
  ∀ name a, m.find? name = some a → m'.find? name = some a

theorem Within.trans {α : Type} {m m' m'' : Named α} (h : m.Within m') (h' : m'.Within m'') :
    m.Within m'' :=
  fun name a ha => h' name a (h name a ha)

theorem within_insert {α : Type} {m : Named α} {name : String} (h : m.find? name = none) (a : α) :
    m.Within (m.insert name a) := by
  intro key b hb
  rw [find?_insert]
  split
  · rename_i hkey
    rw [hkey, hb] at h
    cases h
  · exact hb

end Named

theorem Operator.isData_iff {op : Operator} : op.isData ↔ op = .placeholder ∨ op = .const := by
  cases op <;> simp [isData]

namespace Graph

variable {inputs : List InputSpec} {constants : Tensors} {known known' : Named Descriptor}

/-- A description stands when more descriptors are known. -/
theorem describeNode_within (h : known.Within known') {n : Node} {d : Descriptor}
    (hd : describeNode inputs constants known n = .ok d) :
    describeNode inputs constants known' n = .ok d := by
  unfold describeNode at hd ⊢
  split
  · rename_i hop
    rw [hop] at hd
    exact hd
  · rename_i hop
    rw [hop] at hd
    exact hd
  · rename_i hplaceholder hconst
    split at hd
    · rename_i hop
      exact absurd hop hplaceholder
    · rename_i hop
      exact absurd hop hconst
    · obtain ⟨operands, hoperands, hd⟩ := Outcome.bind_eq_ok_iff.mp hd
      refine Outcome.bind_eq_ok_iff.mpr ⟨operands, ?_, hd⟩
      rw [Outcome.mapM_eq_ok_iff] at hoperands ⊢
      refine hoperands.imp fun name d hname => ?_
      split at hname
      · rename_i d' hd'
        rw [h name d' hd']
        exact hname
      · cases hname

/-- **Descriptors made in order explain themselves**: what was known stays, and each node is described
by all of them together. -/
theorem describeNodes_within {nodes : List Node} (hdistinct : (nodes.map (·.name)).Nodup)
    (hfresh : ∀ n ∈ nodes, known.find? n.name = none)
    (h : describeNodes inputs constants known nodes = .ok known') :
    known.Within known' ∧ ∀ n ∈ nodes, ∃ d, known'.find? n.name = some d ∧
      describeNode inputs constants known' n = .ok d := by
  -- nothing is said yet of the nodes to come, so what is said of one now stays as it is
  induction nodes generalizing known with
  | nil =>
    rw [describeNodes] at h
    cases h
    exact ⟨fun _ _ ha => ha, fun n hn => absurd hn List.not_mem_nil⟩
  | cons n rest ih =>
    rw [describeNodes] at h
    obtain ⟨d, hd, h⟩ := Outcome.bind_eq_ok_iff.mp h
    obtain ⟨hnew, hdistinct⟩ := List.nodup_cons.mp hdistinct
    have hrest : ∀ m ∈ rest, (known.insert n.name d).find? m.name = none := by
      intro m hm
      have hne : n.name ≠ m.name := fun he => hnew (List.mem_map.mpr ⟨m, hm, he.symm⟩)
      rw [Named.find?_insert, if_neg hne]
      exact hfresh m (List.mem_cons_of_mem _ hm)
    obtain ⟨hwithin, hdescribed⟩ := ih hdistinct hrest h
    have hinsert : known.Within (known.insert n.name d) :=
      Named.within_insert (hfresh n List.mem_cons_self) d
    refine ⟨hinsert.trans hwithin, fun m hm => ?_⟩
    rcases List.mem_cons.mp hm with rfl | hm
    · refine ⟨d, hwithin _ d ?_, describeNode_within (hinsert.trans hwithin) hd⟩
      rw [Named.find?_insert, if_pos rfl]
    · exact hdescribed m hm

variable {g : Graph} {s : Schedule}

/-- **Every scheduled node is described** by what the schedule says of the nodes it reads. -/
theorem schedule_describes {r : Request} (hs : g.schedule r = .ok s) {n : Node} (hn : n ∈ s.nodes) :
    ∃ d, s.descriptors.find? n.name = some d ∧
      describeNode s.inputs s.constants s.descriptors n = .ok d := by
  obtain ⟨order, -, -, -, -, -, hdescribe⟩ := schedule_eq_ok hs
  have hfresh : ∀ m ∈ s.nodes, (Named.empty : Named Descriptor).find? m.name = none :=
    fun m _ => Named.find?_empty m.name
  exact (describeNodes_within (scheduledNames_nodup hs) hfresh hdescribe).2 n hn

/-- **The operands of a node are described**, and so is what it makes of them. -/
theorem infer_of_describeNode {n : Node} {d : Descriptor} (hop : n.op.isData = false)
    (h : describeNode inputs constants known n = .ok d) :
    ∃ operands, List.Forall₂ (fun name o => known.find? name = some o) n.inputNames operands ∧
      Operator.infer n operands (fun i => n.inputNames[i]?.bind constants.find?) = .ok d := by
  unfold describeNode at h
  split at h
  · rename_i hplaceholder
    rw [hplaceholder] at hop
    cases hop
  · rename_i hconst
    rw [hconst] at hop
    cases hop
  · obtain ⟨operands, hoperands, h⟩ := Outcome.bind_eq_ok_iff.mp h
    refine ⟨operands, (Outcome.mapM_eq_ok_iff.mp hoperands).imp fun name o ho => ?_, h⟩
    split at ho
    · rename_i o' ho'
      rw [ho', Except.ok.inj ho]
    · cases ho

/-! ## §3 — data -/

/-- An input of a schedule is determined by its node. -/
theorem input_eq_of_node_eq {r : Request} (hs : g.schedule r = .ok s) {i j : InputSpec}
    (hi : i ∈ s.inputs) (hj : j ∈ s.inputs) (hnode : i.node = j.node) : i = j := by
  have hnodup : (s.inputs.map (·.node)).Nodup := by
    rw [inputNodes_eq hs]
    exact (scheduledNames_nodup hs).sublist (List.filter_sublist.map _)
  exact List.inj_on_of_nodup_map hnodup hi hj hnode

/-- A scheduled node that feeds an input is its placeholder. -/
theorem op_eq_of_input {r : Request} (hs : g.schedule r = .ok s) {i : InputSpec} (hi : i ∈ s.inputs)
    {n : Node} (hn : n ∈ s.nodes) (hnode : i.node = n.name) : n.op = .placeholder := by
  have hmem : i.node ∈ s.inputs.map (·.node) := List.mem_map_of_mem hi
  rw [inputNodes_eq hs] at hmem
  obtain ⟨m, hm, hname⟩ := List.mem_map.mp hmem
  obtain ⟨hm, hop⟩ := List.mem_filter.mp hm
  obtain rfl := List.inj_on_of_nodup_map (scheduledNames_nodup hs) hm hn (hname.trans hnode)
  exact of_decide_eq_true hop

/-- An input is described by its shape and type. -/
theorem input_described {r : Request} (hs : g.schedule r = .ok s) {i : InputSpec} (hi : i ∈ s.inputs) :
    s.descriptors.find? i.node = some ⟨i.shape, i.dtype⟩ := by
  have hmem : i.node ∈ s.inputs.map (·.node) := List.mem_map_of_mem hi
  rw [inputNodes_eq hs] at hmem
  obtain ⟨n, hn, hname⟩ := List.mem_map.mp hmem
  obtain ⟨hn, hop⟩ := List.mem_filter.mp hn
  obtain ⟨d, hfind, hdescribe⟩ := schedule_describes hs hn
  unfold describeNode at hdescribe
  rw [of_decide_eq_true hop] at hdescribe
  dsimp only at hdescribe
  split at hdescribe
  · rename_i j hj
    have hnode := List.find?_some hj
    obtain rfl := input_eq_of_node_eq hs (List.mem_of_find?_eq_some hj) hi
      ((of_decide_eq_true hnode).trans hname)
    rw [← hname, hfind, Except.ok.inj hdescribe]
  · cases hdescribe

/-- **The data of a scheduled node have the shape and type it is described by.** What is bound to a
placeholder was checked against its input, and a constant is described by its own tensor. -/
theorem data_described {r : Request} (hs : g.schedule r = .ok s) {given bound : Tensors}
    (hbind : s.bind given = .ok bound) {n : Node} (hn : n ∈ s.nodes) (hop : n.op.isData) :
    ∃ t, s.data? bound n.name = some t ∧ s.descriptors.find? n.name = some ⟨t.shape, t.dtype⟩ := by
  obtain ⟨d, hfind, hdescribe⟩ := schedule_describes hs hn
  obtain ⟨hbound, hdescribed⟩ := Schedule.bind_eq_ok hbind
  unfold describeNode at hdescribe
  unfold Schedule.data?
  split at hdescribe
  · -- a placeholder: its input is the one that its name finds, and that one was bound
    rename_i hplaceholder
    split at hdescribe
    · rename_i i hi
      obtain rfl := Except.ok.inj hdescribe
      have hmem := List.mem_of_find?_eq_some hi
      have hnode : i.node = n.name := by
        have := List.find?_some hi
        exact of_decide_eq_true this
      obtain ⟨t, ht⟩ := hbound i hmem
      obtain ⟨j, hj, hjnode, hshape, hdtype⟩ := hdescribed _ t ht
      obtain rfl := input_eq_of_node_eq hs hj hmem hjnode
      rw [hnode] at ht
      exact ⟨t, by rw [ht], by rw [hfind, hshape, hdtype]⟩
    · cases hdescribe
  · -- a constant: nothing is bound under its name
    rename_i hconst
    split at hdescribe
    · rename_i t ht
      obtain rfl := Except.ok.inj hdescribe
      refine ⟨t, ?_, hfind⟩
      split
      · rename_i u hu
        obtain ⟨i, hi, hnode, -, -⟩ := hdescribed _ u hu
        have hplaceholder := op_eq_of_input hs hi hn hnode
        rw [hconst] at hplaceholder
        cases hplaceholder
      · exact ht
    · cases hdescribe
  · rename_i hplaceholder hconst
    rcases Operator.isData_iff.mp hop with hop | hop
    · exact absurd hop hplaceholder
    · exact absurd hop hconst

/-! ## §4 — stages -/

/-- A schedule is made from the results of its stages; inputs that come with the request must bind. -/
theorem schedule_of_stages_given {r : Request} {order : List (Fin g.nodes.length)}
    (horder : g.ordered = .ok order) (houtputs : g.resolveOutputs r.outputs = .ok s.outputs)
    (hnodes : g.neededNodes order s.outputs = s.nodes)
    (hinputs : (s.nodes.filter (·.op = .placeholder)).mapM (g.inputSpec r) = .ok s.inputs)
    (hconstants : g.constantsOf s.nodes = s.constants)
    (hdescribe : describeNodes s.inputs s.constants .empty s.nodes = .ok s.descriptors)
    (hbatch : r.batch = s.batch) (hgiven : ∀ given ∈ r.inputs, ∃ bound, s.bind given = .ok bound) :
    g.schedule r = .ok s := by
  refine Outcome.bind_eq_ok_iff.mpr ⟨_, horder, Outcome.bind_eq_ok_iff.mpr ⟨_, houtputs, ?_⟩⟩
  dsimp only
  rw [hnodes, hconstants, hbatch]
  refine Outcome.bind_eq_ok_iff.mpr ⟨_, hinputs, Outcome.bind_eq_ok_iff.mpr ⟨_, hdescribe, ?_⟩⟩
  cases hr : r.inputs with
  | none => rfl
  | some given =>
    obtain ⟨bound, hbound⟩ := hgiven given hr
    exact Outcome.bind_eq_ok_iff.mpr ⟨bound, hbound, rfl⟩

theorem schedule_of_stages {r : Request} {order : List (Fin g.nodes.length)}
    (horder : g.ordered = .ok order) (houtputs : g.resolveOutputs r.outputs = .ok s.outputs)
    (hnodes : g.neededNodes order s.outputs = s.nodes)
    (hinputs : (s.nodes.filter (·.op = .placeholder)).mapM (g.inputSpec r) = .ok s.inputs)
    (hconstants : g.constantsOf s.nodes = s.constants)
    (hdescribe : describeNodes s.inputs s.constants .empty s.nodes = .ok s.descriptors)
    (hbatch : r.batch = s.batch) (hgiven : r.inputs = none) : g.schedule r = .ok s :=
  schedule_of_stages_given horder houtputs hnodes hinputs hconstants hdescribe hbatch
    fun given hr => by rw [hgiven] at hr; cases hr

end Graph

end TexelFlow
