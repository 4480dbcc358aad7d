import TexelFlow.Evaluate.Run
import TexelFlow.Proofs.Schedule.Linear

/-!
# What a graph means and what its schedule computes

A graph has a meaning of its own, read off its nodes as they were built: data nodes give their tensors,
an identity gives what it reads, and every other node applies its operation to what its inputs give.
This is a relation and mentions neither an order nor what a name stands for. It has one value at most
for each name, and a schedule that is evaluated arrives at that value.

What carries the run is that every value known so far is one that the graph gives. That the nodes are
in order is not needed for this: where an operand is not known yet there is no result.

## Main statements

* `Gives.unique` — a graph gives one value at most for each name.
* `evaluateNode_gives` — the step: a scheduled node is evaluated to what the graph gives.
* `evaluateNodes_gives` — the run.
* `evaluate_gives` — every output is what the graph gives for the node that it names.

## §1 — the meaning of a graph
## §2 — what binding binds
## §3 — evaluating a schedule
## §4 — outputs
-/

namespace TexelFlow

namespace Node

variable {m n : Node} {data data' : String → Option Tensor}

/-- What a node computes depends on its name, operation and attributes, its operands, and the data of
its second input. -/
theorem apply_congr (hname : m.name = n.name) (hop : m.op = n.op)
    (hattributes : m.attributes = n.attributes) (operands : List Values)
    (hdata : m.inputNames[1]?.bind data = n.inputNames[1]?.bind data') :
    m.apply operands data = n.apply operands data' := by
  obtain ⟨name, op, inputs, attributes, weights⟩ := m
  obtain ⟨name', op', inputs', attributes', weights'⟩ := n
  dsimp only at hname hop hattributes
  subst hname hop hattributes
  unfold apply
  cases op with
  | resize =>
    dsimp only
    rw [hdata]
    rfl
  | _ => rfl

/-- Data that agree on the inputs of a node agree for it. -/
theorem apply_eq_of_agree (operands : List Values) (h : ∀ x ∈ n.inputNames, data x = data' x) :
    n.apply operands data = n.apply operands data' := by
  refine apply_congr rfl rfl rfl operands ?_
  cases hx : n.inputNames[1]? with
  | none => rfl
  | some x => exact h x (List.mem_of_getElem? hx)

end Node

namespace Graph

variable {g : Graph} {bound : Tensors}

/-! ## §1 — the meaning of a graph -/

/-- The tensor that a node holds: a placeholder what is bound to it, a constant its own. -/
def held (g : Graph) (bound : Tensors) (n : Node) : Option Tensor :=
  match n.op with
  | .placeholder => bound.find? n.name
  | .const => g.constants.find? n.name
  | _ => none

/-- The tensor that a name reaches through identities, if it is one that a node holds. -/
inductive Carries (g : Graph) (bound : Tensors) : String → Option Tensor → Prop
  /-- A node that is no identity carries what it holds. -/
  | own {name : String} {n : Node} (hn : g.node? name = some n) (hop : n.op ≠ .identity) :
      Carries g bound name (g.held bound n)
  /-- An identity carries what it reads. -/
  | handed {name source : String} {t : Option Tensor} (h : g.Forwards name source)
      (ht : Carries g bound source t) : Carries g bound name t

/-- **What a graph gives for a name**, once tensors are bound to its placeholders. -/
inductive Gives (g : Graph) (bound : Tensors) : String → Values → Prop
  /-- A data node gives the values of the tensor it holds. -/
  | data {name : String} {n : Node} {t : Tensor} {v : Values} (hn : g.node? name = some n)
      (hop : n.op.isData) (ht : g.held bound n = some t) (hv : Values.ofTensor name t = .ok v) :
      Gives g bound name v
  /-- An identity gives what it reads. -/
  | identity {name source : String} {v : Values} (h : g.Forwards name source)
      (hv : Gives g bound source v) : Gives g bound name v
  /-- Any other node applies its operation to what its inputs give, in their order. -/
  | operation {name : String} {n : Node} {operands : List Values} {v : Values}
      {data : String → Option Tensor} (hn : g.node? name = some n) (hop : n.op.isData = false)
      (hid : n.op ≠ .identity) (hlen : n.inputNames.length = operands.length)
      (hoperands : ∀ p ∈ n.inputNames.zip operands, Gives g bound p.1 p.2)
      (hdata : ∀ x ∈ n.inputNames, Carries g bound x (data x))
      (hv : n.apply operands data = .ok v) : Gives g bound name v

/-- A name of a node that is no identity does not forward. -/
theorem Forwards.op_eq {name source : String} (h : g.Forwards name source) {n : Node}
    (hn : g.node? name = some n) : n.op = .identity := by
  obtain ⟨m, hm, rfl, hop, -⟩ := h
  rw [node?_name hm] at hn
  obtain rfl := Option.some.inj hn
  exact hop

/-- A name carries one thing. -/
theorem Carries.unique {name : String} {t u : Option Tensor} (ht : g.Carries bound name t)
    (hu : g.Carries bound name u) : t = u := by
  induction ht with
  | own hn hop =>
    cases hu with
    | own hn' _ => rw [Option.some.inj (hn.symm.trans hn')]
    | handed h _ => exact absurd (h.op_eq hn) hop
  | handed h _ ih =>
    cases hu with
    | own hn' hop => exact absurd (h.op_eq hn') hop
    | handed h' hu => exact ih (h.unique h' ▸ hu)

/-- Two lists beside the same names are equal when what stands beside a name is determined by it. -/
theorem eq_of_zip {names : List String} {S : String → Values → Prop} {xs ys : List Values}
    (hx : names.length = xs.length) (hy : names.length = ys.length)
    (hxs : ∀ p ∈ names.zip xs, ∀ w, S p.1 w → p.2 = w) (hys : ∀ p ∈ names.zip ys, S p.1 p.2) :
    xs = ys := by
  refine List.ext_getElem (hx.symm.trans hy) fun i hi hi' => ?_
  have hmem : (names[i], xs[i]) ∈ names.zip xs := by
    rw [← List.getElem_zip (h := by rw [List.length_zip]; omega)]
    exact List.getElem_mem _
  have hmem' : (names[i], ys[i]) ∈ names.zip ys := by
    rw [← List.getElem_zip (h := by rw [List.length_zip]; omega)]
    exact List.getElem_mem _
  exact hxs _ hmem _ (hys _ hmem')

/-- **A graph gives one value at most** for each name. -/
theorem Gives.unique {name : String} {v w : Values} (hv : g.Gives bound name v)
    (hw : g.Gives bound name w) : v = w := by
  induction hv generalizing w with
  | data hn hop ht hv =>
    cases hw with
    | data hn' _ ht' hv' =>
      obtain rfl := Option.some.inj (hn.symm.trans hn')
      obtain rfl := Option.some.inj (ht.symm.trans ht')
      exact Except.ok.inj (hv.symm.trans hv')
    | identity h _ =>
      rw [h.op_eq hn] at hop
      cases hop
    | operation hn' hop' _ _ _ _ _ =>
      obtain rfl := Option.some.inj (hn.symm.trans hn')
      rw [hop] at hop'
      cases hop'
  | identity h _ ih =>
    cases hw with
    | data hn hop _ _ =>
      rw [h.op_eq hn] at hop
      cases hop
    | identity h' hw => exact ih (h.unique h' ▸ hw)
    | operation hn _ hid _ _ _ _ => exact absurd (h.op_eq hn) hid
  | @operation name n operands v data hn hop hid hlen hoperands hdata hv ih =>
    cases hw with
    | data hn' hop' _ _ =>
      obtain rfl := Option.some.inj (hn.symm.trans hn')
      rw [hop] at hop'
      cases hop'
    | identity h _ => exact absurd (h.op_eq hn) hid
    | @operation _ _ operands' _ data' hn' _ _ hlen' hoperands' hdata' hv' =>
      obtain rfl := Option.some.inj (hn.symm.trans hn')
      have same : operands = operands' :=
        eq_of_zip hlen hlen' (fun p hp w hw => ih p hp hw) hoperands'
      subst same
      -- the operation is the same and so are its operands; its data agree where it looks at them
      have agree : n.apply operands data = n.apply operands data' :=
        Node.apply_eq_of_agree operands fun x hx => (hdata x hx).unique (hdata' x hx)
      exact Except.ok.inj (hv.symm.trans (agree.trans hv'))

/-- What the end of a chain of identities gives, its start gives. -/
theorem Gives.along {name source : String} (h : Relation.ReflTransGen g.Forwards name source)
    {v : Values} (hv : g.Gives bound source v) : g.Gives bound name v := by
  induction h using Relation.ReflTransGen.head_induction_on with
  | refl => exact hv
  | head hstep _ ih => exact .identity hstep ih

/-- What the end of a chain of identities carries, its start carries. -/
theorem Carries.along {name source : String} (h : Relation.ReflTransGen g.Forwards name source)
    {t : Option Tensor} (ht : g.Carries bound source t) : g.Carries bound name t := by
  induction h using Relation.ReflTransGen.head_induction_on with
  | refl => exact ht
  | head hstep _ ih => exact .handed hstep ih

/-! ## §2 — what binding binds -/

/-- Only nodes of inputs are bound. -/
theorem exists_input_of_bound {s : Schedule} {given : Tensors} (h : s.bind given = .ok bound)
    {name : String} {t : Tensor} (ht : bound.find? name = some t) :
    ∃ i ∈ s.inputs, i.node = name := by
  unfold Schedule.bind at h
  obtain ⟨-, h⟩ := Outcome.check_eq_ok_iff.mp h
  obtain ⟨entries, hentries, h⟩ := Outcome.bind_eq_ok_iff.mp h
  obtain rfl := Outcome.pure_eq_ok_iff.mp h
  obtain ⟨i, hi, hone⟩ := Outcome.exists_of_mem_results hentries (Named.mem_of_find?_ofList ht)
  refine ⟨i, hi, ?_⟩
  unfold Schedule.bindOne at hone
  obtain ⟨_, -, hone⟩ := Outcome.bind_eq_ok_iff.mp hone
  obtain ⟨_, -, hone⟩ := Outcome.bind_eq_ok_iff.mp hone
  obtain ⟨-, hone⟩ := Outcome.check_eq_ok_iff.mp hone
  exact (Prod.mk.inj (Outcome.pure_eq_ok_iff.mp hone)).1

/-! ## §3 — evaluating a schedule -/

/-- What is used of a schedule: its nodes are those that an order keeps, its constants are theirs, and
only placeholders among them are bound. -/
structure Runs (g : Graph) (bound : Tensors) (order : List (Fin g.nodes.length)) (s : Schedule) :
    Prop where
  /-- The graph was built. -/
  built : g.Built
  /-- The order goes forward. -/
  forward : g.dependencies.Forward order
  /-- The nodes are the needed ones. -/
  nodes : s.nodes = g.neededNodes order s.outputs
  /-- The constants are those of the nodes. -/
  constants : s.constants = g.constantsOf s.nodes
  /-- What is bound is a placeholder of the graph. -/
  bound : ∀ name t, bound.find? name = some t →
    ∃ n ∈ g.nodes, n.op = .placeholder ∧ n.name = name

/-- A schedule runs on what it binds. -/
theorem exists_runs (hb : g.Built) {r : Request} {s : Schedule} (hs : g.schedule r = .ok s)
    {given : Tensors} (h : s.bind given = .ok bound) : ∃ order, g.Runs bound order s := by
  obtain ⟨order, ho, -, hnodes, hinputs, hconstants, -⟩ := schedule_eq_ok hs
  refine ⟨order, hb, ho, hnodes, hconstants, fun name t ht => ?_⟩
  obtain ⟨i, hi, rfl⟩ := exists_input_of_bound h ht
  obtain ⟨n, hn, hspec⟩ := Outcome.exists_of_mem_results hinputs hi
  obtain ⟨hn, hop⟩ := List.mem_filter.mp hn
  rw [hnodes] at hn
  obtain ⟨v, -, rfl⟩ := mem_neededNodes_iff.mp hn
  exact ⟨_, nodeAt_mem v, of_decide_eq_true hop, (inputSpec_node hspec).symm⟩

variable {order : List (Fin g.nodes.length)} {s : Schedule}

/-- The constants of a schedule, read at the name of a scheduled node. -/
theorem Runs.find?_constants_iff (h : g.Runs bound order s) {v : Fin g.nodes.length}
    (hv : v ∈ g.keptVertices order s.outputs) {t : Tensor} :
    s.constants.find? (g.nodeAt v).name = some t ↔
      (g.nodeAt v).op = .const ∧ g.constants.find? (g.nodeAt v).name = some t := by
  rw [h.constants, find?_constantsOf_eq_some_iff, h.nodes]
  refine and_congr_left fun _ => ⟨?_, fun hop => ?_⟩
  · rintro ⟨n, hn, hop, hname⟩
    obtain ⟨u, -, rfl⟩ := mem_neededNodes_iff.mp hn
    obtain rfl := nodeAt_inj hname
    exact hop
  · exact ⟨_, mem_neededNodes_iff.mpr ⟨v, hv, rfl⟩, hop, rfl⟩

/-- Nothing is bound to a node that is no placeholder. -/
theorem Runs.find?_bound_eq_none (h : g.Runs bound order s) {v : Fin g.nodes.length}
    (hop : (g.nodeAt v).op ≠ .placeholder) : bound.find? (g.nodeAt v).name = none := by
  rw [Option.eq_none_iff_forall_ne_some]
  intro t ht
  obtain ⟨n, hn, hplaceholder, hname⟩ := h.bound _ t ht
  obtain rfl := eq_of_name_eq hn (nodeAt_mem v) hname
  exact hop hplaceholder

/-- **The data of a scheduled node** are the tensor it holds. -/
theorem Runs.data?_eq (h : g.Runs bound order s) {v : Fin g.nodes.length}
    (hv : v ∈ g.keptVertices order s.outputs) :
    s.data? bound (g.nodeAt v).name = g.held bound (g.nodeAt v) := by
  have bare : (g.nodeAt v).op ≠ .const → s.constants.find? (g.nodeAt v).name = none := by
    intro hop
    rw [Option.eq_none_iff_forall_ne_some]
    intro t ht
    exact hop ((h.find?_constants_iff hv).mp ht).1
  unfold Schedule.data? held
  by_cases hplaceholder : (g.nodeAt v).op = .placeholder
  · -- a placeholder has no constant, so what is bound decides
    rw [hplaceholder, bare (by rw [hplaceholder]; decide)]
    cases bound.find? (g.nodeAt v).name with
    | none => rfl
    | some t => rfl
  · rw [h.find?_bound_eq_none hplaceholder]
    by_cases hconst : (g.nodeAt v).op = .const
    · rw [hconst]
      ext t
      rw [h.find?_constants_iff hv]
      exact ⟨fun ht => ht.2, fun ht => ⟨hconst, ht⟩⟩
    · rw [bare hconst]
      dsimp only
      split
      · rename_i hop
        exact absurd hop hplaceholder
      · rename_i hop
        exact absurd hop hconst
      · rfl

/-- What an input of a scheduled node stands for has the data that the input carries. -/
theorem Runs.carries (h : g.Runs bound order s) {v : Fin g.nodes.length}
    (hv : v ∈ g.keptVertices order s.outputs) {x : String} (hx : x ∈ (g.nodeAt v).inputNames) :
    g.Carries bound x (s.data? bound (g.standsFor x)) := by
  obtain ⟨u, hu, hname, -⟩ := exists_kept_input h.forward h.built hv hx
  obtain ⟨hop, -⟩ := (mem_keptVertices_iff h.forward).mp hu
  rw [← hname, h.data?_eq hu]
  refine Carries.along ?_ (.own (node?_name (nodeAt_mem u)) hop)
  rw [hname]
  exact forwards_follow h.built _ x

/-- The values known so far are those that the graph gives. -/
def Sound (g : Graph) (bound : Tensors) (known : Named Values) : Prop :=
  ∀ name v, known.find? name = some v → g.Gives bound name v

theorem sound_empty : g.Sound bound .empty := by
  intro name v h
  rw [Named.find?_empty] at h
  cases h

theorem Sound.insert {known : Named Values} (h : g.Sound bound known) {name : String} {v : Values}
    (hv : g.Gives bound name v) : g.Sound bound (known.insert name v) := by
  intro key w hw
  rw [Named.find?_insert] at hw
  split at hw
  · rename_i hkey
    obtain rfl := Option.some.inj hw
    exact hkey ▸ hv
  · exact h key w hw

/-- **One step**: a scheduled node is evaluated to what the graph gives for it. -/
theorem Runs.evaluateNode_gives (h : g.Runs bound order s) {known : Named Values}
    (hknown : g.Sound bound known) {n : Node} (hn : n ∈ s.nodes) {w : Values}
    (hw : s.evaluateNode bound known n = .ok w) : g.Gives bound n.name w := by
  rw [h.nodes] at hn
  obtain ⟨v, hv, rfl⟩ := mem_neededNodes_iff.mp hn
  obtain ⟨hid, -⟩ := (mem_keptVertices_iff h.forward).mp hv
  have hnode : g.node? (g.nodeAt v).name = some (g.nodeAt v) := node?_name (nodeAt_mem v)
  unfold Schedule.evaluateNode at hw
  rw [repointed_name, repointed_op] at hw
  split at hw
  · rename_i hop
    rw [h.data?_eq hv] at hw
    split at hw
    · rename_i t ht
      exact .data hnode hop ht hw
    · cases hw
  · rename_i hop
    -- each operand is what an input stands for gave, which is what the input gives
    obtain ⟨operands, hoperands, hw⟩ := Outcome.bind_eq_ok_iff.mp hw
    rw [repointed_inputNames, Outcome.mapM_eq_ok_iff, List.forall₂_map_left_iff,
      List.forall₂_iff_zip] at hoperands
    obtain ⟨hlen, hoperands⟩ := hoperands
    -- the node as it was built reads the same operands and the same data
    have same : (g.repointed (g.nodeAt v)).apply operands (s.data? bound) =
        (g.nodeAt v).apply operands (fun x => s.data? bound (g.standsFor x)) := by
      refine Node.apply_congr (repointed_name _) (repointed_op _) (repointed_attributes _) operands ?_
      rw [repointed_inputNames, List.getElem?_map]
      cases (g.nodeAt v).inputNames[1]? with
      | none => rfl
      | some x => rfl
    rw [same] at hw
    refine .operation hnode (by simpa using hop) hid hlen ?_ (fun x hx => h.carries hv hx) hw
    rintro ⟨x, operand⟩ hp
    have hfind := hoperands hp
    split at hfind
    · rename_i w' hw'
      obtain rfl := Except.ok.inj hfind
      exact Gives.along (forwards_follow h.built _ x) (hknown _ _ hw')
    · cases hfind

/-- **The run**: evaluating scheduled nodes in order keeps all values those that the graph gives. -/
theorem Runs.evaluateNodes_gives (h : g.Runs bound order s) {nodes : List Node}
    (hsub : ∀ n ∈ nodes, n ∈ s.nodes) {known known' : Named Values} (hknown : g.Sound bound known)
    (hrun : s.evaluateNodes bound known nodes = .ok known') : g.Sound bound known' := by
  induction nodes generalizing known with
  | nil =>
    rw [Schedule.evaluateNodes] at hrun
    cases hrun
    exact hknown
  | cons n rest ih =>
    rw [Schedule.evaluateNodes] at hrun
    obtain ⟨v, hv, hrun⟩ := Outcome.bind_eq_ok_iff.mp hrun
    have hgives := h.evaluateNode_gives hknown (hsub n List.mem_cons_self) hv
    exact ih (fun m hm => hsub m (List.mem_cons_of_mem _ hm)) (hknown.insert hgives) hrun

/-! ## §4 — outputs -/

/-- An evaluation is a run over the nodes and what is taken from it for the outputs. -/
theorem evaluate_eq_ok {out : Tensors} (h : s.evaluate bound = .ok out) :
    ∃ known entries, s.evaluateNodes bound .empty s.nodes = .ok known ∧
      s.outputs.mapM (Schedule.takeOutput known) = .ok entries ∧ out = .ofList entries := by
  unfold Schedule.evaluate at h
  obtain ⟨known, hknown, h⟩ := Outcome.bind_eq_ok_iff.mp h
  obtain ⟨entries, hentries, h⟩ := Outcome.bind_eq_ok_iff.mp h
  exact ⟨known, entries, hknown, hentries, (Outcome.pure_eq_ok_iff.mp h).symm⟩

theorem takeOutput_eq_ok_iff {known : Named Values} {o : OutputSpec} {name : String} {t : Tensor} :
    Schedule.takeOutput known o = .ok (name, t) ↔
      o.name = name ∧ ∃ v, known.find? o.node = some v ∧ v.toTensor = .ok t := by
  unfold Schedule.takeOutput
  split
  · rename_i v hv
    rw [Outcome.bind_eq_ok_iff]
    constructor
    · rintro ⟨u, hu, he⟩
      obtain ⟨rfl, rfl⟩ := Prod.mk.inj (Outcome.pure_eq_ok_iff.mp he)
      exact ⟨rfl, v, hv, hu⟩
    · rintro ⟨rfl, w, hw, ht⟩
      obtain rfl := Option.some.inj (hv.symm.trans hw)
      exact ⟨t, ht, rfl⟩
  · rename_i hv
    simp [hv]

section Taken

variable {names : List String} {outputs : List OutputSpec} {known : Named Values}
  {entries : List (String × Tensor)}

/-- An entry that is taken is the value of the output that its name resolves to. -/
theorem eq_of_taken (hresolved : names.mapM g.resolveOutput = .ok outputs)
    (htaken : outputs.mapM (Schedule.takeOutput known) = .ok entries) {name : String} {t : Tensor}
    (h : (name, t) ∈ entries) : name ∈ names ∧
      ∃ o v, g.resolveOutput name = .ok o ∧ known.find? o.node = some v ∧ v.toTensor = .ok t := by
  obtain ⟨o, ho, htake⟩ := Outcome.exists_of_mem_results htaken h
  obtain ⟨rfl, v, hv, ht⟩ := takeOutput_eq_ok_iff.mp htake
  obtain ⟨name, hname, hresolve⟩ := Outcome.exists_of_mem_results hresolved ho
  obtain ⟨rfl, -⟩ := resolveOutput_eq_ok hresolve
  exact ⟨hname, o, v, hresolve, hv, ht⟩

/-- Entries of one name agree, however often it is asked for. -/
theorem taken_agree (hresolved : names.mapM g.resolveOutput = .ok outputs)
    (htaken : outputs.mapM (Schedule.takeOutput known) = .ok entries) (name : String)
    (t u : Tensor) (ht : (name, t) ∈ entries) (hu : (name, u) ∈ entries) : t = u := by
  obtain ⟨-, o, v, ho, hv, ht⟩ := eq_of_taken hresolved htaken ht
  obtain ⟨-, o', v', ho', hv', hu⟩ := eq_of_taken hresolved htaken hu
  obtain rfl := Except.ok.inj (ho.symm.trans ho')
  obtain rfl := Option.some.inj (hv.symm.trans hv')
  exact Except.ok.inj (ht.symm.trans hu)

/-- Every name that is asked for has an entry. -/
theorem exists_taken (hresolved : names.mapM g.resolveOutput = .ok outputs)
    (htaken : outputs.mapM (Schedule.takeOutput known) = .ok entries) {name : String}
    (h : name ∈ names) : ∃ t, (name, t) ∈ entries := by
  obtain ⟨o, ho, hresolve⟩ := Outcome.exists_result_of_mem hresolved h
  obtain ⟨⟨name', t⟩, hmem, htake⟩ := Outcome.exists_result_of_mem htaken ho
  obtain ⟨rfl, -⟩ := takeOutput_eq_ok_iff.mp htake
  obtain ⟨rfl, -⟩ := resolveOutput_eq_ok hresolve
  exact ⟨t, hmem⟩

end Taken

/-- **Scheduling preserves meaning.** Of a schedule that is evaluated on what it binds, the outputs
are those that are asked for, and each is the one value that the graph gives for the node it names. -/
theorem evaluate_gives (hb : g.Built) {r : Request} (hs : g.schedule r = .ok s) {given : Tensors}
    (hbind : s.bind given = .ok bound) {out : Tensors} (he : s.evaluate bound = .ok out) :
    (∀ name, (out.find? name).isSome ↔ name ∈ g.outputNames r.outputs) ∧
    ∀ name ∈ g.outputNames r.outputs, ∃ reference v t,
      Reference.parse (g.outputReference name) = .ok reference ∧
      (∀ w, g.Gives bound reference.node w ↔ w = v) ∧
      v.toTensor = .ok t ∧ out.find? name = some t := by
  obtain ⟨order, hruns⟩ := exists_runs hb hs hbind
  obtain ⟨-, -, houtputs, -⟩ := schedule_eq_ok hs
  have hresolved := resolveOutputs_eq_ok houtputs
  obtain ⟨known, entries, hknown, htaken, rfl⟩ := evaluate_eq_ok he
  have hsound : g.Sound bound known := hruns.evaluateNodes_gives (fun _ hn => hn) sound_empty hknown
  have hfind : ∀ {name t}, (Named.ofList entries).find? name = some t ↔ (name, t) ∈ entries :=
    Named.find?_ofList_eq_some_iff (taken_agree hresolved htaken)
  refine ⟨fun name => ⟨fun h => ?_, fun h => ?_⟩, fun name hname => ?_⟩
  · obtain ⟨t, ht⟩ := Option.isSome_iff_exists.mp h
    exact (eq_of_taken hresolved htaken (hfind.mp ht)).1
  · obtain ⟨t, ht⟩ := exists_taken hresolved htaken h
    rw [hfind.mpr ht]
    rfl
  · obtain ⟨t, ht⟩ := exists_taken hresolved htaken hname
    obtain ⟨-, o, v, ho, hv, htensor⟩ := eq_of_taken hresolved htaken ht
    obtain ⟨-, reference, n, hparse, hn, hnode, hstands⟩ := resolveOutput_eq_ok ho
    -- the run knows the node that the reference stands for
    have hgives : g.Gives bound reference.node v := by
      rw [← hnode]
      refine Gives.along ?_ (hsound _ _ hv)
      rw [hstands]
      exact forwards_follow hb _ _
    refine ⟨reference, v, t, hparse, fun w => ⟨fun hw => hw.unique hgives, ?_⟩, htensor, hfind.mpr ht⟩
    rintro rfl
    exact hgives

/-- What is bound to the sum. -/
def summedGiven : Tensors := .ofList [("x", ⟨[2], .float32 [.zero, .one], by decide⟩)]

theorem summed_bind : summedSchedule.bind summedGiven = .ok summedGiven := by cbv

/-- What the sum comes to. -/
def summedOutputs : Tensors :=
  .ofList [("out", ⟨[2], .float32 [.zero + .one, .one + .one], by decide⟩)]

theorem summed_evaluate : summedSchedule.evaluate summedGiven = .ok summedOutputs := rfl

/-- The output of the sum is the one value that its graph gives for the identity behind it. -/
theorem summed_gives : ∃ v t, (∀ w, summed.Gives summedGiven "out" w ↔ w = v) ∧
    v.toTensor = .ok t ∧ summedOutputs.find? "out" = some t := by
  obtain ⟨reference, v, t, hparse, hgives, htensor, hfind⟩ :=
    (evaluate_gives summed_built summed_schedule summed_bind summed_evaluate).2 "out" (by decide)
  have hout : Reference.parse (summed.outputReference "out") = .ok (.first "out") := by cbv
  obtain rfl := Except.ok.inj (hparse.symm.trans hout)
  exact ⟨v, t, hgives, htensor, hfind⟩

end Graph

end TexelFlow
