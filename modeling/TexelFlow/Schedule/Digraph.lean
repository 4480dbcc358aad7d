/-!
# Directed graphs and their order

Vertices are numbered; edges are listed in the order they were added, and one edge may be listed
several times. The order of a graph puts the source of every edge before its target. It is found by
walking down from each vertex in turn: a vertex is finished when everything below it is, and the
vertices stand in the reverse of the order in which they are finished. Of the vertices below a vertex,
those of older edges are walked first.

A walk is a stack together with the vertices it has seen and those it has finished. Each step either
sees a new vertex or shortens the stack, so a walk ends.

## §1 — graphs
## §2 — walks
## §3 — the order
## §4 — ancestors
-/

namespace TexelFlow

/-! ## §1 — graphs -/

/-- A directed graph on `n` numbered vertices. -/
structure Digraph (n : Nat) where
  /-- Source and target of every edge, oldest edge first. -/
  edges : List (Fin n × Fin n)

namespace Digraph

variable {n : Nat}

/-- Targets of the edges out of a vertex, oldest edge first. -/
def successors (g : Digraph n) (v : Fin n) : List (Fin n) :=
  (g.edges.filter fun e => e.1 = v).map Prod.snd

/-- Sources of the edges into a vertex, oldest edge first. -/
def predecessors (g : Digraph n) (v : Fin n) : List (Fin n) :=
  (g.edges.filter fun e => e.2 = v).map Prod.fst

@[simp] theorem mem_successors {g : Digraph n} {v w : Fin n} :
    w ∈ g.successors v ↔ (v, w) ∈ g.edges := by
  simp [successors]

@[simp] theorem mem_predecessors {g : Digraph n} {v w : Fin n} :
    w ∈ g.predecessors v ↔ (w, v) ∈ g.edges := by
  simp [predecessors]

/-- Number of vertices that were not seen. -/
def unseen (seen : List (Fin n)) : Nat := (List.finRange n).countP fun v => v ∉ seen

theorem countP_lt_of_imp {α : Type} {p q : α → Bool} {l : List α} (hpq : ∀ x, q x → p x) {a : α}
    (ha : a ∈ l) (hp : p a) (hq : ¬ q a) : l.countP q < l.countP p := by
  induction l with
  | nil => cases ha
  | cons b l ih =>
    rcases List.mem_cons.1 ha with rfl | hmem
    · have := List.countP_mono_left (p := q) (q := p) (l := l) fun x _ h => hpq x h
      simp [hp, hq]
      omega
    · have := ih hmem
      by_cases hb : q b
      · simp [hb, hpq b hb]
        omega
      · simp [List.countP_cons, hb]
        omega

/-- Seeing a new vertex leaves fewer to be seen. -/
theorem unseen_cons_lt {seen : List (Fin n)} {v : Fin n} (h : v ∉ seen) :
    unseen (v :: seen) < unseen seen :=
  countP_lt_of_imp (a := v) (by simp) (List.mem_finRange v) (by simpa using h) (by simp)

/-! ## §2 — walks -/

/-- Walk until the stack is empty. The answer lists the vertices seen and, the last one first, those
finished; a vertex that is its own successor stops the walk. -/
def walk (g : Digraph n) (stack seen finished : List (Fin n)) :
    Except (Fin n) (List (Fin n) × List (Fin n)) :=
  match stack with
  | [] => .ok (seen, finished)
  | v :: rest =>
    if h : v ∈ seen then
      walk g rest seen (if v ∈ finished then finished else v :: finished)
    else if v ∈ g.successors v then .error v
    else
      have := unseen_cons_lt h
      walk g ((g.successors v).filter (· ∉ seen) ++ v :: rest) (v :: seen) finished
termination_by (unseen seen, stack.length)

/-- Walk down from each vertex that was not seen before. -/
def walkAll (g : Digraph n) : List (Fin n) → List (Fin n) → List (Fin n) →
    Except (Fin n) (List (Fin n))
  | [], _, finished => .ok finished
  | v :: rest, seen, finished =>
    if v ∈ seen then walkAll g rest seen finished
    else do
      let (seen, finished) ← g.walk [v] seen finished
      walkAll g rest seen finished

/-! ## §3 — the order -/

/-- The first vertex of a list with an edge from a vertex that does not stand before it: the source
of the oldest such edge. -/
def lateSource (g : Digraph n) (placed : List (Fin n)) : List (Fin n) → Option (Fin n)
  | [] => none
  | v :: rest =>
    match (g.predecessors v).find? fun u => u ∉ v :: placed with
    | some u => some u
    | none => lateSource g (v :: placed) rest

/-- **Order** the vertices so that every edge goes forward, or name a vertex of a cycle. -/
def order (g : Digraph n) : Except (Fin n) (List (Fin n)) := do
  let vertices ← g.walkAll (List.finRange n) [] []
  match g.lateSource [] vertices with
  | some u => throw u
  | none => return vertices

/-! ## §4 — ancestors -/

/-- The vertices on a stack, those seen, and all from which they can be reached by way of vertices
that were not seen. -/
def climb (g : Digraph n) (stack seen : List (Fin n)) : List (Fin n) :=
  match stack with
  | [] => seen
  | v :: rest =>
    if h : v ∈ seen then climb g rest seen
    else
      have := unseen_cons_lt h
      climb g (g.predecessors v ++ rest) (v :: seen)
termination_by (unseen seen, stack.length)

/-- The vertices from which one of the given vertices can be reached, those themselves included. -/
def ancestors (g : Digraph n) (vertices : List (Fin n)) : List (Fin n) := g.climb vertices []

end Digraph

end TexelFlow
