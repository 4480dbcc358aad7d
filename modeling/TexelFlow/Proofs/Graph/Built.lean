import TexelFlow.Graph.Build
import TexelFlow.Proofs.Outcome
import Mathlib.Data.List.Nodup

/-!
# Built graphs

A graph is built from a description, or from nodes that are given directly; both ways end in
`Graph.assemble`. What that check promises beyond the well-formedness of the type: every input reads
the first output of its node, and an identity reads exactly one.

## Main statements

* `node?_eq_some_iff` — a graph finds each of its nodes by name, and nothing else.
* `Built.identity_input` — an identity of a built graph has a single input.

## §1 — nodes by name
## §2 — assembling
-/

namespace TexelFlow.Graph

open Model (Signature Description)

/-! ## §1 — nodes by name -/

variable {g : Graph}

/-- Two nodes of one name are one node. -/
theorem eq_of_name_eq {m n : Node} (hm : m ∈ g.nodes) (hn : n ∈ g.nodes) (h : m.name = n.name) :
    m = n :=
  List.inj_on_of_nodup_map g.distinct hm hn h

/-- **A node is found by its name**, and what is found has the name it was looked for by. -/
theorem node?_eq_some_iff {name : String} {n : Node} :
    g.node? name = some n ↔ n ∈ g.nodes ∧ n.name = name := by
  unfold node?
  constructor
  · intro h
    have hname := List.find?_some h
    exact ⟨List.mem_of_find?_eq_some h, of_decide_eq_true hname⟩
  · rintro ⟨hn, rfl⟩
    cases hf : g.nodes.find? (fun m => m.name = n.name) with
    | none =>
      have := List.find?_eq_none.mp hf n hn
      simp at this
    | some m =>
      have hm := List.mem_of_find?_eq_some hf
      have hname := List.find?_some hf
      simp only [decide_eq_true_eq] at hname
      rw [eq_of_name_eq hm hn hname]

theorem node?_name {n : Node} (h : n ∈ g.nodes) : g.node? n.name = some n :=
  node?_eq_some_iff.mpr ⟨h, rfl⟩

theorem nodeAt_mem (v : Fin g.nodes.length) : g.nodeAt v ∈ g.nodes := List.getElem_mem v.isLt

/-- Nodes of one name stand at one place. -/
theorem nodeAt_inj {v w : Fin g.nodes.length} (h : (g.nodeAt v).name = (g.nodeAt w).name) : v = w := by
  have hn := eq_of_name_eq (nodeAt_mem v) (nodeAt_mem w) h
  exact Fin.ext ((List.Nodup.of_map _ g.distinct).getElem_inj_iff.mp hn)

/-- Every node stands at a place. -/
theorem exists_nodeAt {n : Node} (h : n ∈ g.nodes) : ∃ v : Fin g.nodes.length, g.nodeAt v = n := by
  obtain ⟨i, hi, rfl⟩ := List.mem_iff_getElem.mp h
  exact ⟨⟨i, hi⟩, rfl⟩

/-- The place of a name is that of the node which has it. -/
theorem place?_eq_some_iff {name : String} {i : Fin g.nodes.length} :
    g.place? name = some i ↔ (g.nodeAt i).name = name := by
  unfold place?
  rw [List.findFinIdx?_eq_some_iff]
  constructor
  · intro h
    exact of_decide_eq_true h.1
  · intro h
    -- names are distinct, so no earlier node has this one
    refine ⟨decide_eq_true h, fun j hj => ?_⟩
    have hne : (g.nodeAt j).name ≠ name := by
      intro he
      rw [nodeAt_inj (he.trans h.symm)] at hj
      omega
    rw [decide_eq_true_eq]
    exact hne

/-- An input of a node names a node. -/
theorem exists_node_of_input {n : Node} (h : n ∈ g.nodes) {r : Reference} (hr : r ∈ n.inputs) :
    ∃ m ∈ g.nodes, m.name = r.node := by
  obtain ⟨m, hm, hname⟩ := List.mem_map.mp (g.wired n h r hr)
  exact ⟨m, hm, hname⟩

/-! ## §2 — assembling -/

/-- Checked nodes become the nodes of the graph as they are. -/
theorem make_eq_ok {nodes : List Node} {constants : Tensors} {signature : Option Signature}
    (h : make nodes constants signature = .ok g) :
    g.nodes = nodes ∧ g.constants = constants ∧ g.signature = signature := by
  unfold make at h
  split at h
  · cases h
  · split at h
    · cases h
    · cases h
      exact ⟨rfl, rfl, rfl⟩

/-- Beyond names, a node is sound when it reads first outputs only and, as an identity, one of them. -/
theorem inputFault_eq_none_iff {n : Node} :
    inputFault n = none ↔
      (∀ r ∈ n.inputs, r.index = 0) ∧ (n.op = .identity → n.inputs.length = 1) := by
  unfold inputFault
  split
  · rename_i r hr
    have hindex := List.find?_some hr
    have hmem := List.mem_of_find?_eq_some hr
    simp only [decide_eq_true_eq] at hindex
    constructor
    · intro h
      cases h
    · rintro ⟨h, -⟩
      have := h r hmem
      omega
  · rename_i hfind
    have first : ∀ r ∈ n.inputs, r.index = 0 := by
      intro r hr
      have := List.find?_eq_none.mp hfind r hr
      simp only [decide_eq_true_eq] at this
      omega
    simp only [ite_eq_right_iff, reduceCtorEq, imp_false, not_and, not_not]
    exact ⟨fun h => ⟨first, h⟩, fun h => h.2⟩

/-- **What assembling promises** of every node. -/
theorem assemble_eq_ok {nodes : List Node} {constants : Tensors} {signature : Option Signature}
    (h : assemble nodes constants signature = .ok g) :
    g.nodes = nodes.map (Node.withWeights constants) ∧ g.constants = constants ∧
      g.signature = signature ∧ ∀ n ∈ g.nodes, inputFault n = none := by
  unfold assemble at h
  obtain ⟨_, -, h⟩ := Outcome.bind_eq_ok_iff.mp h
  obtain ⟨g', hmake, h⟩ := Outcome.bind_eq_ok_iff.mp h
  split at h
  · exact absurd h (by simp)
  · rename_i hfault
    obtain rfl := Outcome.pure_eq_ok_iff.mp h
    obtain ⟨hnodes, hconstants, hsignature⟩ := make_eq_ok hmake
    exact ⟨hnodes, hconstants, hsignature, fun n hn => List.findSome?_eq_none_iff.mp hfault n hn⟩

/-- A graph that was built: from a description with its weights, or from nodes given directly. -/
inductive Built (g : Graph) : Prop where
  /-- Built from a description. -/
  | described (d : Description) (weights : Tensors) (h : ofDescription d weights = .ok g)
  /-- Built from nodes. -/
  | assembled (nodes : List Node) (constants : Tensors) (signature : Option Signature)
      (h : assemble nodes constants signature = .ok g)

/-- The graph of a description is assembled with its signature. -/
theorem exists_assemble_of_description {d : Description} {weights : Tensors}
    (h : ofDescription d weights = .ok g) :
    ∃ nodes constants, assemble nodes constants d.signature = .ok g := by
  unfold ofDescription Builder.build at h
  split at h
  · unfold ofNodes at h
    obtain ⟨⟨nodes, constants⟩, -, h⟩ := Outcome.bind_eq_ok_iff.mp h
    exact ⟨_, _, h⟩
  · unfold ofLayers at h
    obtain ⟨pieces, -, h⟩ := Outcome.bind_eq_ok_iff.mp h
    exact ⟨_, _, h⟩

theorem signature_of_description {d : Description} {weights : Tensors}
    (h : ofDescription d weights = .ok g) : g.signature = d.signature := by
  obtain ⟨nodes, constants, h⟩ := exists_assemble_of_description h
  exact (assemble_eq_ok h).2.2.1

/-- Both ways end in assembling. -/
theorem Built.exists_assemble (h : g.Built) :
    ∃ nodes constants signature, assemble nodes constants signature = .ok g := by
  cases h with
  | assembled nodes constants signature h => exact ⟨nodes, constants, signature, h⟩
  | described d weights h =>
    obtain ⟨nodes, constants, h⟩ := exists_assemble_of_description h
    exact ⟨nodes, constants, d.signature, h⟩

/-- **An identity of a built graph has a single input.** -/
theorem Built.identity_input (h : g.Built) {n : Node} (hn : n ∈ g.nodes) (hop : n.op = .identity) :
    ∃ r, n.inputs = [r] := by
  obtain ⟨nodes, constants, signature, hasm⟩ := h.exists_assemble
  obtain ⟨-, -, -, sound⟩ := assemble_eq_ok hasm
  exact List.length_eq_one_iff.mp ((inputFault_eq_none_iff.mp (sound n hn)).2 hop)

end TexelFlow.Graph
