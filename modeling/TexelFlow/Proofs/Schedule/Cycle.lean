import TexelFlow.Proofs.Schedule.Refusal

/-!
# Cycles are reported exactly

Ordering a graph fails in two places: a walk stops at a vertex that is its own successor, and the check
at the end finds an edge whose source does not stand before its target. The first is a cycle as it
stands. For the second the walk carries one more promise: a vertex that was seen and is not finished
reaches everything above it on the stack. So when a vertex is finished, each of its successors is
finished already or reaches it, and an edge found to go back has a target that reaches its source.

Where there is no cycle, identities are left behind: each step along them goes to an earlier vertex of
the order, and there are as many steps as nodes.

## Main statements

* `Digraph.order_eq_error` — the vertex that is named lies on a cycle.
* `Digraph.exists_order_iff` — there is an order exactly where there is no cycle.
* `Graph.schedule_reportsCycles` — the same of schedules, for every graph and every request.

## §1 — what is above a vertex
## §2 — cycles of a numbered graph
## §3 — cycles of a graph
## §4 — the ends of identities
## §5 — exact reports
-/

namespace TexelFlow

namespace Digraph

variable {n : Nat} {g : Digraph n} {v u : Fin n} {rest stack seen finished : List (Fin n)}

/-! ## §1 — what is above a vertex -/

/-- What a walk keeps of a vertex that was seen and is not finished, where it first stands on the
stack, and of the vertices that are finished. -/
structure Descending (g : Digraph n) (stack seen finished : List (Fin n)) : Prop where
  /-- What stands above such a vertex is reached from it, and so much of what is below it in the graph
  as was not seen stands there. -/
  above : ∀ top v bottom, stack = top ++ v :: bottom → v ∉ top → v ∈ seen → v ∉ finished →
    (∀ w ∈ top, g.Reaches v w) ∧ ∀ w, g.Edge v w → w ∈ seen ∨ w ∈ top
  /-- A successor of a finished vertex was finished before it, or reaches it. -/
  back : ∀ later v earlier, finished = later ++ v :: earlier → ∀ w, g.Edge v w →
    w ∈ earlier ∨ g.Reaches w v

theorem Descending.start : g.Descending [] [] [] := by
  constructor
  · intro top v bottom h
    exact absurd h (by simp)
  · intro later v earlier h
    exact absurd h (by simp)

/-- A new vertex on an empty stack has nothing above it, and was not seen. -/
theorem Descending.enter (h : g.Descending [] seen finished) (hv : v ∉ seen) :
    g.Descending [v] seen finished := by
  refine ⟨fun top u bottom hstack _ hu _ => ?_, h.back⟩
  obtain ⟨rfl, huv⟩ : top = [] ∧ v = u := by
    cases top with
    | nil => exact ⟨rfl, (List.cons.inj hstack).1⟩
    | cons a top => exact absurd (List.cons.inj hstack).2 (by simp)
  exact absurd (huv ▸ hu) hv

/-- **Finishing the top of the stack**: its successors are finished, or stand below it and reach it. -/
theorem Descending.finish (h : g.Descending (v :: rest) seen finished)
    (hw : g.Walking (v :: rest) seen finished) (hv : v ∈ seen) :
    g.Descending rest seen (if v ∈ finished then finished else v :: finished) := by
  constructor
  case above =>
    intro top u bottom hstack hfirst hu hpending
    have hne : u ≠ v := by
      rintro rfl
      split at hpending
      · rename_i hfinished
        exact hpending hfinished
      · exact hpending List.mem_cons_self
    have hnot : u ∉ finished := by
      split at hpending
      · exact hpending
      · exact fun hmem => hpending (List.mem_cons_of_mem _ hmem)
    have hfirst' : u ∉ v :: top := by simp [hne, hfirst]
    obtain ⟨hreach, hbelow⟩ := h.above (v :: top) u bottom (by rw [hstack]; rfl) hfirst' hu hnot
    refine ⟨fun w hw => hreach w (List.mem_cons_of_mem _ hw), fun w he => ?_⟩
    rcases hbelow w he with hw | hw
    · exact .inl hw
    · rcases List.mem_cons.mp hw with rfl | hw
      · exact .inl hv
      · exact .inr hw
  case back =>
    split
    · exact h.back
    · rename_i hnot
      intro later u earlier hfinished w he
      cases later with
      | cons a later => exact h.back later u earlier (List.cons.inj hfinished).2 w he
      | nil =>
        obtain ⟨rfl, rfl⟩ := List.cons.inj hfinished
        have hseen := ((h.above [] v rest rfl List.not_mem_nil hv hnot).2 w he).resolve_right
          List.not_mem_nil
        by_cases hw' : w ∈ finished
        · exact .inl hw'
        -- the successor waits on the stack, and what stands above it is reached from it
        right
        rcases (List.mem_cons.mp ((hw.pending w hseen).resolve_left hw')) with rfl | hmem
        · exact Relation.ReflTransGen.refl
        · obtain ⟨top, bottom, rfl, hfirst⟩ := List.eq_append_cons_of_mem hmem
          have hne : w ≠ v := fun e => hw.loopless v hv (e ▸ he)
          exact (h.above (v :: top) w bottom rfl (by simp [hne, hfirst]) hseen hw').1 v
            List.mem_cons_self

/-- **Seeing a new vertex** puts above it what it reaches by one edge. -/
theorem Descending.see (h : g.Descending (v :: rest) seen finished) (hv : v ∉ seen)
    (hloop : v ∉ g.successors v) :
    g.Descending ((g.successors v).filter (· ∉ seen) ++ v :: rest) (v :: seen) finished := by
  have hnew : ∀ w, w ∈ (g.successors v).filter (· ∉ seen) ↔ g.Edge v w ∧ w ∉ seen := by
    intro w
    rw [List.mem_filter, mem_successors, decide_eq_true_eq]
    rfl
  refine ⟨fun top u bottom hstack hfirst hu hpending => ?_, h.back⟩
  generalize (g.successors v).filter (· ∉ seen) = new at hnew hstack
  by_cases huv : u = v
  · -- above `v` stand exactly its new successors
    subst huv
    have htop : top = new := by
      rcases List.append_eq_append_iff.mp hstack with ⟨more, rfl, hmore⟩ | ⟨more, rfl, hmore⟩
      · cases more with
        | nil => simp
        | cons a more => exact absurd ((List.cons.inj hmore).1 ▸ by simp) hfirst
      · cases more with
        | nil => simp
        | cons a more =>
          have : u ∈ top ++ a :: more := by simp [(List.cons.inj hmore).1]
          exact absurd (mem_successors.mpr ((hnew u).mp this).1) hloop
    subst htop
    refine ⟨fun w hw => Relation.ReflTransGen.single ((hnew w).mp hw).1, fun w he => ?_⟩
    by_cases hw : w ∈ seen
    · exact .inl (List.mem_cons_of_mem _ hw)
    · exact .inr ((hnew w).mpr ⟨he, hw⟩)
  · -- a vertex further down reached `v` before, and by way of `v` reaches what is new
    have hseen : u ∈ seen := (List.mem_cons.mp hu).resolve_left huv
    have hold : u ∉ new := fun hmem => ((hnew u).mp hmem).2 hseen
    obtain ⟨more, rfl, hrest⟩ : ∃ more, top = new ++ v :: more ∧ rest = more ++ u :: bottom := by
      rcases List.append_eq_append_iff.mp hstack with ⟨more, rfl, hmore⟩ | ⟨more, rfl, hmore⟩
      · cases more with
        | nil => exact absurd (List.cons.inj hmore).1.symm huv
        | cons a more =>
          obtain ⟨rfl, hrest⟩ := List.cons.inj hmore
          exact ⟨more, rfl, hrest⟩
      · cases more with
        | nil => exact absurd (List.cons.inj hmore).1 huv
        | cons a more => exact absurd (by simp [(List.cons.inj hmore).1]) hold
    have hfirst' : u ∉ v :: more := fun hmem => hfirst (List.mem_append_right _ hmem)
    obtain ⟨hreach, hbelow⟩ :=
      h.above (v :: more) u bottom (by rw [hrest]; rfl) hfirst' hseen hpending
    refine ⟨fun w hw => ?_, fun w he => ?_⟩
    · rcases List.mem_append.mp hw with hw | hw
      · exact (hreach v List.mem_cons_self).tail ((hnew w).mp hw).1
      · exact hreach w hw
    · exact (hbelow w he).imp (List.mem_cons_of_mem _) (List.mem_append_right _)

/-- A walk to its end keeps what it promises. -/
theorem Descending.walk {seen' finished' : List (Fin n)}
    (h : g.walk stack seen finished = .ok (seen', finished')) (hw : g.Walking stack seen finished)
    (hd : g.Descending stack seen finished) : g.Descending [] seen' finished' := by
  induction stack, seen, finished using walk.induct (g := g) with
  | case1 seen finished =>
    rw [Digraph.walk] at h
    cases h
    exact hd
  | case2 seen finished v rest hv ih =>
    rw [Digraph.walk, dif_pos hv] at h
    exact ih h hw.finish (hd.finish hw hv)
  | case3 seen finished v rest hv hloop =>
    rw [Digraph.walk, dif_neg hv, if_pos hloop] at h
    cases h
  | case4 seen finished v rest hv hloop _ ih =>
    rw [Digraph.walk, dif_neg hv, if_neg hloop] at h
    exact ih h (hw.see hloop) (hd.see hv hloop)

theorem Descending.walkAll {vertices finished' : List (Fin n)}
    (h : g.walkAll vertices seen finished = .ok finished') (hw : g.Walking [] seen finished)
    (hd : g.Descending [] seen finished) : ∃ seen', g.Descending [] seen' finished' := by
  induction vertices generalizing seen finished with
  | nil =>
    rw [Digraph.walkAll] at h
    cases h
    exact ⟨seen, hd⟩
  | cons v rest ih =>
    rw [Digraph.walkAll] at h
    split at h
    · exact ih h hw hd
    · rename_i hv
      obtain ⟨⟨seen₁, finished₁⟩, hwalk, h⟩ := Outcome.bind_eq_ok_iff.mp h
      exact ih h (walk_eq_ok hwalk (hw.enter v)).1 (Descending.walk hwalk (hw.enter v) (hd.enter hv))

/-! ## §2 — cycles of a numbered graph -/

/-- A walk stops at a vertex that is its own successor only. -/
theorem walk_eq_error (h : g.walk stack seen finished = .error u) : g.Edge u u := by
  induction stack, seen, finished using walk.induct (g := g) with
  | case1 seen finished =>
    rw [walk] at h
    cases h
  | case2 seen finished v rest hv ih =>
    rw [walk, dif_pos hv] at h
    exact ih h
  | case3 seen finished v rest hv hloop =>
    rw [walk, dif_neg hv, if_pos hloop] at h
    cases h
    exact mem_successors.mp hloop
  | case4 seen finished v rest hv hloop _ ih =>
    rw [walk, dif_neg hv, if_neg hloop] at h
    exact ih h

theorem walkAll_eq_error {vertices : List (Fin n)} (h : g.walkAll vertices seen finished = .error u) :
    g.Edge u u := by
  induction vertices generalizing seen finished with
  | nil =>
    rw [walkAll] at h
    cases h
  | cons v rest ih =>
    rw [walkAll] at h
    split at h
    · exact ih h
    · rcases Outcome.bind_eq_error_iff.mp h with h | ⟨_, -, h⟩
      · exact walk_eq_error h
      · exact ih h

/-- What the check finds is the source of an edge that does not stand before its target. -/
theorem lateSource_eq_some {placed vertices : List (Fin n)} (h : g.lateSource placed vertices = some u) :
    u ∉ placed ∧ ∃ before v after, vertices = before ++ v :: after ∧ g.Edge u v ∧ u ≠ v ∧ u ∉ before := by
  induction vertices generalizing placed with
  | nil => cases h
  | cons v rest ih =>
    rw [lateSource] at h
    split at h
    · rename_i w hfind
      cases h
      have hplaced := List.find?_some hfind
      have hedge := mem_predecessors.mp (List.mem_of_find?_eq_some hfind)
      simp only [decide_eq_true_eq, List.mem_cons, not_or] at hplaced
      exact ⟨hplaced.2, [], v, rest, rfl, hedge, hplaced.1, List.not_mem_nil⟩
    · obtain ⟨hplaced, before, w, after, rfl, hedge, hne, hbefore⟩ := ih h
      rw [List.mem_cons, not_or] at hplaced
      exact ⟨hplaced.2, v :: before, w, after, rfl, hedge, hne, by simp [hplaced.1, hbefore]⟩

/-- **The vertex that is named lies on a cycle.** -/
theorem order_eq_error (h : g.order = .error u) : Relation.TransGen g.Edge u u := by
  unfold order at h
  rcases Outcome.bind_eq_error_iff.mp h with h | ⟨finished, hall, h⟩
  · exact .single (walkAll_eq_error h)
  split at h
  · rename_i w hlate
    obtain rfl := Outcome.throw_eq_error_iff.mp h
    obtain ⟨-, before, v, after, rfl, hedge, hne, hbefore⟩ := lateSource_eq_some hlate
    obtain ⟨seen, hend, -, hseen⟩ := walkAll_eq_ok hall Walking.start
    obtain ⟨_, hd⟩ := Descending.walkAll hall Walking.start Descending.start
    -- the source was finished before its target, which therefore reaches it
    have hmem : w ∈ before ++ v :: after :=
      (hend.pending w (hseen w (List.mem_finRange w))).resolve_right List.not_mem_nil
    have hafter : w ∈ after := by
      rcases List.mem_append.mp hmem with hmem | hmem
      · exact absurd hmem hbefore
      · exact (List.mem_cons.mp hmem).resolve_left hne
    obtain ⟨between, earlier, rfl, -⟩ := List.eq_append_cons_of_mem hafter
    have hv : v ∉ earlier := by
      intro hv
      have := (List.nodup_cons.mp hend.once.of_append_right).1
      exact this (by simp [hv])
    have hsplit : before ++ v :: (between ++ w :: earlier) = (before ++ v :: between) ++ w :: earlier := by
      simp
    have hback := (hd.back _ w earlier hsplit v hedge).resolve_left hv
    exact Relation.TransGen.head' hedge hback
  · exact absurd h (by simp)

/-- In an order every path goes forward. -/
theorem Forward.lt_of_transGen {vertices : List (Fin n)} (h : g.Forward vertices) {w : Fin n}
    (hp : Relation.TransGen g.Edge v w) : vertices.idxOf v < vertices.idxOf w := by
  induction hp with
  | single he => exact h.before _ _ he
  | tail _ he ih => exact ih.trans (h.before _ _ he)

/-- **There is an order** exactly where there is no cycle. -/
theorem exists_order_iff : (∃ vertices, g.order = .ok vertices) ↔ ¬ ∃ v, Relation.TransGen g.Edge v v := by
  constructor
  · rintro ⟨vertices, h⟩ ⟨v, hv⟩
    exact Nat.lt_irrefl _ ((order_eq_ok h).lt_of_transGen hv)
  · intro h
    cases ho : g.order with
    | ok vertices => exact ⟨vertices, rfl⟩
    | error u => exact absurd ⟨u, order_eq_error ho⟩ h

end Digraph

namespace Graph

variable {g : Graph}

/-! ## §3 — cycles of a graph -/

/-- A name lies on a cycle when it reaches itself along one data edge or more. -/
def OnCycle (g : Graph) (name : String) : Prop := Relation.TransGen g.Feeds name name

/-- The cycles on vertices are those on their names. -/
theorem onCycle_iff {v : Fin g.nodes.length} :
    g.OnCycle (g.nodeAt v).name ↔ Relation.TransGen g.dependencies.Edge v v := by
  unfold OnCycle
  rw [Relation.TransGen.head'_iff, Relation.TransGen.head'_iff]
  constructor
  · rintro ⟨name, hfeeds, hreach⟩
    obtain ⟨w, rfl, hw⟩ := exists_vertex_of_reaches hreach
    exact ⟨w, feeds_iff.mp hfeeds, hw⟩
  · rintro ⟨w, hedge, hw⟩
    exact ⟨(g.nodeAt w).name, feeds_iff.mpr hedge, reaches_iff.mp hw⟩

/-- What lies on a cycle is a node. -/
theorem OnCycle.exists_vertex {name : String} (h : g.OnCycle name) :
    ∃ v : Fin g.nodes.length, (g.nodeAt v).name = name := by
  obtain ⟨_, ⟨n, hn, -, hinput⟩, -⟩ := Relation.TransGen.head'_iff.mp h
  exact exists_vertex_of_input hn hinput

/-- **The nodes of a graph are ordered** exactly where none lies on a cycle. -/
theorem exists_ordered_iff : (∃ order, g.ordered = .ok order) ↔ ¬ ∃ name, g.OnCycle name := by
  have hnames : (∃ name, g.OnCycle name) ↔ ∃ v, Relation.TransGen g.dependencies.Edge v v := by
    constructor
    · rintro ⟨name, h⟩
      obtain ⟨v, rfl⟩ := h.exists_vertex
      exact ⟨v, onCycle_iff.mp h⟩
    · rintro ⟨v, h⟩
      exact ⟨_, onCycle_iff.mpr h⟩
  rw [hnames, ← Digraph.exists_order_iff]
  unfold ordered
  constructor
  · rintro ⟨order, h⟩
    split at h
    · rename_i vertices hv
      exact ⟨vertices, hv⟩
    · cases h
  · rintro ⟨vertices, h⟩
    exact ⟨vertices, by rw [h]⟩

/-! ## §4 — the ends of identities -/

/-- The first name is an identity, and the second is what it passes on: the first thing it reads. -/
def Passes (g : Graph) (name source : String) : Prop :=
  ∃ n ∈ g.nodes, n.name = name ∧ n.op = .identity ∧ n.inputNames.head? = some source

theorem Passes.feeds {name source : String} (h : g.Passes name source) : g.Feeds source name := by
  obtain ⟨n, hn, hname, -, hhead⟩ := h
  exact ⟨n, hn, hname, List.mem_of_mem_head? hhead⟩

theorem Passes.exists_vertex {name source : String} (h : g.Passes name source) :
    ∃ v : Fin g.nodes.length, (g.nodeAt v).name = name := by
  obtain ⟨n, hn, rfl, -⟩ := h
  obtain ⟨v, rfl⟩ := exists_nodeAt hn
  exact ⟨v, rfl⟩

/-- Following identities takes a step where one passes something on, and otherwise stops. -/
theorem follow_succ (steps : Nat) (name : String) :
    (∃ source, g.Passes name source ∧ g.follow (steps + 1) name = g.follow steps source) ∨
    (∀ source, ¬ g.Passes name source) ∧ g.follow (steps + 1) name = name := by
  rw [follow]
  cases hnode : g.node? name with
  | none =>
    refine .inr ⟨?_, rfl⟩
    rintro source ⟨n, hn, rfl, -⟩
    rw [node?_name hn] at hnode
    cases hnode
  | some n =>
    obtain ⟨hn, rfl⟩ := node?_eq_some_iff.mp hnode
    have only : ∀ source, g.Passes n.name source → n.op = .identity ∧ n.inputNames.head? = some source := by
      rintro source ⟨m, hm, hname, hop, hhead⟩
      obtain rfl := eq_of_name_eq hm hn hname
      exact ⟨hop, hhead⟩
    by_cases hop : n.op = .identity
    · simp only [hop, if_true]
      cases hinputs : n.inputs with
      | nil =>
        refine .inr ⟨fun source h => ?_, rfl⟩
        have := (only source h).2
        simp [Node.inputNames, hinputs] at this
      | cons r inputs =>
        exact .inl ⟨r.node, ⟨n, hn, rfl, hop, by simp [Node.inputNames, hinputs]⟩, rfl⟩
    · simp only [hop, if_false]
      exact .inr ⟨fun source h => hop (only source h).1, trivial⟩

/-- Following identities only walks along them. -/
theorem passes_follow (steps : Nat) (name : String) :
    Relation.ReflTransGen g.Passes name (g.follow steps name) := by
  induction steps generalizing name with
  | zero => exact .refl
  | succ steps ih =>
    rcases follow_succ steps name with ⟨source, hpass, heq⟩ | ⟨-, heq⟩
    · rw [heq]
      exact .head hpass (ih source)
    · rw [heq]

/-- Where the vertices are ordered, an identity passes on something that stands before it. -/
theorem Passes.idxOf_lt {order : List (Fin g.nodes.length)} (ho : g.dependencies.Forward order)
    {v : Fin g.nodes.length} {source : String} (h : g.Passes (g.nodeAt v).name source) :
    ∃ u : Fin g.nodes.length, (g.nodeAt u).name = source ∧ order.idxOf u < order.idxOf v := by
  obtain ⟨n, hn, -, hinput⟩ := h.feeds
  obtain ⟨u, rfl⟩ := exists_vertex_of_input hn hinput
  exact ⟨u, rfl, ho.before u v (feeds_iff.mp h.feeds)⟩

/-- With more steps than vertices before it in an order, a name is followed to an end. -/
theorem follow_ends {order : List (Fin g.nodes.length)} (ho : g.dependencies.Forward order) {steps : Nat}
    {name : String} (h : ∀ v : Fin g.nodes.length, (g.nodeAt v).name = name → order.idxOf v < steps)
    (source : String) : ¬ g.Passes (g.follow steps name) source := by
  induction steps generalizing name with
  | zero =>
    -- no node has this name
    intro hpass
    obtain ⟨v, hv⟩ := hpass.exists_vertex
    exact absurd (h v hv) (Nat.not_lt_zero _)
  | succ steps ih =>
    rcases follow_succ steps name with ⟨next, hpass, heq⟩ | ⟨hend, heq⟩
    · rw [heq]
      obtain ⟨v, rfl⟩ := hpass.exists_vertex
      obtain ⟨u, rfl, hlt⟩ := Passes.idxOf_lt ho hpass
      refine ih fun w hw => ?_
      rw [nodeAt_inj hw]
      have := h v rfl
      omega
    · rw [heq]
      exact hend source

/-- Where a name stands in an order; in front where it is no node. -/
def rank (g : Graph) (order : List (Fin g.nodes.length)) (name : String) : Nat :=
  ((g.place? name).map order.idxOf).getD 0

theorem rank_nodeAt (order : List (Fin g.nodes.length)) (v : Fin g.nodes.length) :
    g.rank order (g.nodeAt v).name = order.idxOf v := by
  unfold rank
  rw [place?_eq_some_iff.mpr (rfl : (g.nodeAt v).name = _)]
  rfl

/-- Chains of identities end where the vertices are ordered. -/
theorem wellFounded_passes {order : List (Fin g.nodes.length)} (ho : g.dependencies.Forward order) :
    WellFounded fun source name => g.Passes name source := by
  refine Subrelation.wf (r := fun a b => g.rank order a < g.rank order b) ?_
    (measure (g.rank order)).wf
  intro source name h
  obtain ⟨v, rfl⟩ := h.exists_vertex
  obtain ⟨u, rfl, hlt⟩ := Passes.idxOf_lt ho h
  rw [rank_nodeAt, rank_nodeAt]
  exact hlt

/-! ## §5 — exact reports -/

/-- **A graph reports its cycles** when scheduling it fails for a cycle exactly where there is one, with
a node on a cycle, and otherwise every chain of identities ends at what it is taken to stand for. -/
structure ReportsCycles (g : Graph) : Prop where
  /-- A cycle anywhere, and nothing else, is reported as one, whatever is asked for. -/
  exact : ∀ r, (∃ name, g.schedule r = .error (.graph (.cycle name))) ↔ ∃ name, g.OnCycle name
  /-- The reported node lies on a cycle. -/
  named : ∀ r name, g.schedule r = .error (.graph (.cycle name)) → g.OnCycle name
  /-- Without cycles no chain of identities goes on forever. -/
  ends : (¬ ∃ name, g.OnCycle name) → WellFounded fun source name => g.Passes name source
  /-- Without cycles a name stands for the end of its chain of identities. -/
  standsFor : (¬ ∃ name, g.OnCycle name) → ∀ name,
    Relation.ReflTransGen g.Passes name (g.standsFor name) ∧
      ∀ source, ¬ g.Passes (g.standsFor name) source

/-- **Cycles are reported exactly.** -/
theorem schedule_reportsCycles (g : Graph) : g.ReportsCycles := by
  have named : ∀ r name, g.schedule r = .error (.graph (.cycle name)) → g.OnCycle name := by
    intro r name h
    rcases schedule_eq_error h with h | h
    · obtain ⟨v, hv, he⟩ := ordered_eq_error h
      obtain rfl : name = (g.nodeAt v).name := by simpa using he
      exact onCycle_iff.mpr (Digraph.order_eq_error hv)
    · exact absurd h (by simp [Error.isPlain])
  constructor
  case named => exact named
  case exact =>
    refine fun r => ⟨fun ⟨name, h⟩ => ⟨name, named r name h⟩, fun hcycle => ?_⟩
    -- without an order nothing else is looked at
    cases ho : g.ordered with
    | ok order => exact absurd hcycle (exists_ordered_iff.mp ⟨order, ho⟩)
    | error e =>
      obtain ⟨v, -, rfl⟩ := ordered_eq_error ho
      exact ⟨_, Outcome.bind_eq_error_iff.mpr (.inl ho)⟩
  case ends =>
    intro h
    obtain ⟨order, ho⟩ := exists_ordered_iff.mpr h
    exact wellFounded_passes (ordered_eq_ok ho)
  case standsFor =>
    intro h name
    obtain ⟨order, ho⟩ := exists_ordered_iff.mpr h
    have hforward := ordered_eq_ok ho
    refine ⟨passes_follow _ name, follow_ends hforward fun v _ => ?_⟩
    have hidx := List.idxOf_lt_length_of_mem (hforward.all v)
    have hlen := hforward.once.length_le_card
    rw [Fintype.card_fin] at hlen
    omega

/-- Two identities that read each other, beside a node that reads neither. -/
def ring : Graph where
  nodes :=
    [⟨"x", .placeholder, [], .empty, []⟩, ⟨"y", .relu, [.first "x"], .empty, []⟩,
     ⟨"a", .identity, [.first "b"], .empty, []⟩, ⟨"b", .identity, [.first "a"], .empty, []⟩]
  constants := .empty
  signature := none
  named := by decide
  distinct := by decide
  wired := by decide
  given := by decide

/-- The identities are reported even where only the other node is asked for. -/
theorem ring_refused : ring.OnCycle "a" ∧ ∀ batch shapes,
    ∃ name, ring.schedule ⟨["y"], batch, shapes, none⟩ = .error (.graph (.cycle name)) ∧
      ring.OnCycle name := by
  have hb : ring.Feeds "b" "a" := ⟨⟨"a", .identity, [.first "b"], .empty, []⟩, by decide, rfl, by decide⟩
  have ha : ring.Feeds "a" "b" := ⟨⟨"b", .identity, [.first "a"], .empty, []⟩, by decide, rfl, by decide⟩
  have hcycle : ring.OnCycle "a" := .head ha (.single hb)
  refine ⟨hcycle, fun batch shapes => ?_⟩
  obtain ⟨name, h⟩ := ((schedule_reportsCycles ring).exact _).mpr ⟨"a", hcycle⟩
  exact ⟨name, h, (schedule_reportsCycles ring).named _ name h⟩

end Graph

end TexelFlow
