import TexelFlow.Schedule.Make
import TexelFlow.Proofs.Graph.Built
import TexelFlow.Proofs.Schedule.Order
import Mathlib.Data.Fintype.Card

/-!
# Data edges and identities

The nodes of a graph are told apart by their names, so what flows where is a relation on names. This
module ties it to the numbered vertices that are ordered, and shows what following identities arrives
at: along an order every step of `Graph.follow` goes to an earlier vertex, so there are enough steps to
leave the identities behind.

## Main statements

* `edge_iff`, `reaches_iff` — the edges and paths on vertices are those on names.
* `exists_standsFor` — a node stands for one that is no identity and hands its value on to it.

## §1 — relations on names
## §2 — vertices and names
## §3 — what a node stands for
-/

namespace TexelFlow.Graph

variable {g : Graph}

/-! ## §1 — relations on names -/

/-- The node of the second name reads the node of the first. -/
def Feeds (g : Graph) (source target : String) : Prop :=
  ∃ n ∈ g.nodes, n.name = target ∧ source ∈ n.inputNames

/-- One name reaches another along data edges; each reaches itself. -/
def Reaches (g : Graph) : String → String → Prop := Relation.ReflTransGen g.Feeds

/-- The first name is an identity, and the second is what it reads. -/
def Forwards (g : Graph) (name source : String) : Prop :=
  ∃ n ∈ g.nodes, n.name = name ∧ n.op = .identity ∧ n.inputNames = [source]

theorem Forwards.feeds {name source : String} (h : g.Forwards name source) : g.Feeds source name := by
  obtain ⟨n, hn, hname, -, hinputs⟩ := h
  exact ⟨n, hn, hname, by rw [hinputs]; exact List.mem_singleton_self source⟩

/-- A chain of identities is a path, read from its end. -/
theorem reaches_of_forwards {name source : String}
    (h : Relation.ReflTransGen g.Forwards name source) : g.Reaches source name := by
  induction h with
  | refl => exact Relation.ReflTransGen.refl
  | tail _ hstep ih => exact Relation.ReflTransGen.head hstep.feeds ih

/-- Only identities forward, and they forward one thing. -/
theorem Forwards.unique {name a b : String} (ha : g.Forwards name a) (hb : g.Forwards name b) :
    a = b := by
  obtain ⟨m, hm, hname, -, hinputs⟩ := ha
  obtain ⟨n, hn, hname', -, hinputs'⟩ := hb
  obtain rfl := eq_of_name_eq hm hn (hname.trans hname'.symm)
  rw [hinputs] at hinputs'
  exact List.singleton_inj.mp hinputs'

/-! ## §2 — vertices and names -/

/-- What a node reads stands at a vertex. -/
theorem exists_vertex_of_input {n : Node} (h : n ∈ g.nodes) {name : String}
    (hr : name ∈ n.inputNames) : ∃ v : Fin g.nodes.length, (g.nodeAt v).name = name := by
  obtain ⟨r, hmem, rfl⟩ := List.mem_map.mp hr
  obtain ⟨m, hm, hname⟩ := exists_node_of_input h hmem
  obtain ⟨v, rfl⟩ := exists_nodeAt hm
  exact ⟨v, hname⟩

/-- **The edges** of a graph go from what a node reads to the node. -/
theorem edge_iff {v w : Fin g.nodes.length} :
    g.dependencies.Edge v w ↔ (g.nodeAt v).name ∈ (g.nodeAt w).inputNames := by
  unfold Digraph.Edge dependencies
  rw [List.mem_flatMap]
  constructor
  · rintro ⟨n, hn, he⟩
    obtain ⟨u, rfl⟩ := exists_nodeAt hn
    unfold edgesInto at he
    rw [place?_eq_some_iff.mpr (rfl : (g.nodeAt u).name = _)] at he
    obtain ⟨input, hinput, he⟩ := List.mem_filterMap.mp he
    obtain ⟨source, hsource, he⟩ := Option.map_eq_some_iff.mp he
    obtain ⟨rfl, rfl⟩ := Prod.mk.inj he
    rw [place?_eq_some_iff.mp hsource]
    exact hinput
  · intro h
    refine ⟨g.nodeAt w, nodeAt_mem w, ?_⟩
    unfold edgesInto
    rw [place?_eq_some_iff.mpr (rfl : (g.nodeAt w).name = _)]
    refine List.mem_filterMap.mpr ⟨_, h, ?_⟩
    rw [place?_eq_some_iff.mpr (rfl : (g.nodeAt v).name = _)]
    rfl

theorem feeds_iff {v w : Fin g.nodes.length} :
    g.Feeds (g.nodeAt v).name (g.nodeAt w).name ↔ g.dependencies.Edge v w := by
  rw [edge_iff]
  constructor
  · rintro ⟨n, hn, hname, hinput⟩
    obtain rfl := eq_of_name_eq hn (nodeAt_mem w) hname
    exact hinput
  · intro h
    exact ⟨_, nodeAt_mem w, rfl, h⟩

/-- What reaches a node stands at a vertex from which the node is reached. -/
theorem exists_vertex_of_reaches {name : String} {w : Fin g.nodes.length}
    (h : g.Reaches name (g.nodeAt w).name) :
    ∃ v : Fin g.nodes.length, (g.nodeAt v).name = name ∧ g.dependencies.Reaches v w := by
  induction h using Relation.ReflTransGen.head_induction_on with
  | refl => exact ⟨w, rfl, Relation.ReflTransGen.refl⟩
  | head hstep _ ih =>
    obtain ⟨v, rfl, hv⟩ := ih
    obtain ⟨n, hn, hname, hinput⟩ := hstep
    obtain ⟨u, rfl⟩ := exists_vertex_of_input hn hinput
    exact ⟨u, rfl, Relation.ReflTransGen.head (feeds_iff.mp ⟨n, hn, hname, hinput⟩) hv⟩

/-- **The paths** on vertices are those on their names. -/
theorem reaches_iff {v w : Fin g.nodes.length} :
    g.dependencies.Reaches v w ↔ g.Reaches (g.nodeAt v).name (g.nodeAt w).name := by
  constructor
  · intro h
    exact Relation.ReflTransGen.lift (p := g.Feeds) (fun u => (g.nodeAt u).name)
      (fun a b hab => feeds_iff.mpr hab) v w h
  · intro h
    obtain ⟨u, hname, hu⟩ := exists_vertex_of_reaches h
    rw [nodeAt_inj hname] at hu
    exact hu

/-! ## §3 — what a node stands for -/

/-- Following identities only walks along them. -/
theorem forwards_follow (hb : g.Built) (steps : Nat) (name : String) :
    Relation.ReflTransGen g.Forwards name (g.follow steps name) := by
  induction steps generalizing name with
  | zero => exact Relation.ReflTransGen.refl
  | succ steps ih =>
    rw [follow]
    cases hnode : g.node? name with
    | none => exact Relation.ReflTransGen.refl
    | some n =>
      obtain ⟨hn, rfl⟩ := node?_eq_some_iff.mp hnode
      by_cases hop : n.op = .identity
      · obtain ⟨r, hr⟩ := hb.identity_input hn hop
        simp only [hop, hr, if_true]
        refine Relation.ReflTransGen.head ⟨n, hn, rfl, hop, ?_⟩ (ih r.node)
        rw [Node.inputNames, hr, List.map_singleton]
      · simp only [hop, if_false]
        exact Relation.ReflTransGen.refl

/-- With more steps than vertices before it in an order, a node is followed to its end. -/
theorem exists_follow {order : List (Fin g.nodes.length)} (ho : g.dependencies.Forward order)
    (hb : g.Built) {steps : Nat} {v : Fin g.nodes.length} (h : order.idxOf v < steps) :
    ∃ m ∈ g.nodes, m.op ≠ .identity ∧ m.name = g.follow steps (g.nodeAt v).name := by
  induction steps generalizing v with
  | zero => omega
  | succ steps ih =>
    rw [follow, node?_name (nodeAt_mem v)]
    by_cases hop : (g.nodeAt v).op = .identity
    · obtain ⟨r, hr⟩ := hb.identity_input (nodeAt_mem v) hop
      have hinput : r.node ∈ (g.nodeAt v).inputNames := by
        rw [Node.inputNames, hr]
        exact List.mem_singleton_self _
      obtain ⟨u, hu⟩ := exists_vertex_of_input (nodeAt_mem v) hinput
      -- what the identity reads stands before it, so one step less is enough
      have hlt : order.idxOf u < order.idxOf v := ho.before u v (edge_iff.mpr (hu ▸ hinput))
      obtain ⟨m, hm, hmop, hmname⟩ := ih (show order.idxOf u < steps by omega)
      simp only [hop, hr, if_true]
      exact ⟨m, hm, hmop, hmname.trans (by rw [hu])⟩
    · simp only [hop, if_false]
      exact ⟨_, nodeAt_mem v, hop, rfl⟩

/-- **What a node stands for** is a node, no identity, and the end of a chain of identities. -/
theorem exists_standsFor {order : List (Fin g.nodes.length)} (ho : g.dependencies.Forward order)
    (hb : g.Built) (v : Fin g.nodes.length) :
    ∃ m ∈ g.nodes, m.op ≠ .identity ∧ m.name = g.standsFor (g.nodeAt v).name ∧
      Relation.ReflTransGen g.Forwards (g.nodeAt v).name m.name := by
  have hidx : order.idxOf v < order.length := List.idxOf_lt_length_of_mem (ho.all v)
  have hlen : order.length ≤ g.nodes.length := by
    have := ho.once.length_le_card
    rwa [Fintype.card_fin] at this
  obtain ⟨m, hm, hop, hname⟩ :=
    exists_follow ho hb (show order.idxOf v < g.nodes.length by omega)
  refine ⟨m, hm, hop, hname, ?_⟩
  rw [hname]
  exact forwards_follow hb _ _

end TexelFlow.Graph
