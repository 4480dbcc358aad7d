import TexelFlow.Schedule.Digraph
import TexelFlow.Proofs.Outcome
import Mathlib

/-!
# The order of a graph and the ancestors of its vertices

A walk carries two promises: what it has seen is finished or still on its stack, and nothing it has
seen is its own successor. Once the stack is empty all that was seen is finished, so walking down from
every vertex finishes all of them. That no edge goes backward is not read off the walks: it is what the
check at their end says of the list they leave.

## Main statements

* `order_eq_ok` — an order lists every vertex once and every edge goes forward in it.
* `mem_ancestors_iff` — the ancestors of some vertices are all from which one of them can be reached.

## §1 — walks
## §2 — the order
## §3 — ancestors
-/

namespace TexelFlow.Digraph

variable {n : Nat} {g : Digraph n}

/-- One edge of a graph. -/
def Edge (g : Digraph n) (v w : Fin n) : Prop := (v, w) ∈ g.edges

/-! ## §1 — walks -/

/-- What a walk keeps: all that was seen is finished or on the stack, nothing is finished twice, and
no vertex seen is its own successor. -/
structure Walking (g : Digraph n) (stack seen finished : List (Fin n)) : Prop where
  /-- What was seen is finished or waits on the stack. -/
  pending : ∀ v ∈ seen, v ∈ finished ∨ v ∈ stack
  /-- Nothing is finished twice. -/
  once : finished.Nodup
  /-- Nothing seen is its own successor. -/
  loopless : ∀ v ∈ seen, ¬ g.Edge v v

theorem Walking.start : g.Walking [] [] [] :=
  ⟨fun _ h => absurd h List.not_mem_nil, List.nodup_nil, fun _ h => absurd h List.not_mem_nil⟩

/-- A vertex put on an empty stack waits there. -/
theorem Walking.enter {seen finished : List (Fin n)} (h : g.Walking [] seen finished) (v : Fin n) :
    g.Walking [v] seen finished :=
  ⟨fun w hw => (h.pending w hw).imp_right (fun hw => absurd hw List.not_mem_nil), h.once, h.loopless⟩

/-- Finishing the top of the stack, if it is not finished already. -/
theorem Walking.finish {v : Fin n} {rest seen finished : List (Fin n)}
    (h : g.Walking (v :: rest) seen finished) :
    g.Walking rest seen (if v ∈ finished then finished else v :: finished) := by
  have now : v ∈ (if v ∈ finished then finished else v :: finished) := by
    split
    · assumption
    · exact List.mem_cons_self
  have kept : ∀ w ∈ finished, w ∈ (if v ∈ finished then finished else v :: finished) := by
    intro w hw
    split
    · exact hw
    · exact List.mem_cons_of_mem _ hw
  refine ⟨fun w hw => ?_, ?_, h.loopless⟩
  · rcases h.pending w hw with hf | hs
    · exact .inl (kept w hf)
    · rcases List.mem_cons.mp hs with rfl | hs
      · exact .inl now
      · exact .inr hs
  · split
    · exact h.once
    · rename_i hv
      exact List.nodup_cons.mpr ⟨hv, h.once⟩

/-- Seeing a new vertex puts what is below it on the stack, in front of itself. -/
theorem Walking.see {v : Fin n} {rest seen finished : List (Fin n)}
    (h : g.Walking (v :: rest) seen finished) (hloop : v ∉ g.successors v) :
    g.Walking ((g.successors v).filter (· ∉ seen) ++ v :: rest) (v :: seen) finished := by
  refine ⟨fun w hw => ?_, h.once, fun w hw => ?_⟩
  · rcases List.mem_cons.mp hw with rfl | hw
    · exact .inr (List.mem_append_right _ List.mem_cons_self)
    · exact (h.pending w hw).imp_right (List.mem_append_right _)
  · rcases List.mem_cons.mp hw with rfl | hw
    · exact fun he => hloop (mem_successors.mpr he)
    · exact h.loopless w hw

/-- **A walk ends with an empty stack**, keeps what it had seen and has seen what was on the stack. -/
theorem walk_eq_ok {stack seen finished seen' finished' : List (Fin n)}
    (h : g.walk stack seen finished = .ok (seen', finished')) (hw : g.Walking stack seen finished) :
    g.Walking [] seen' finished' ∧ (∀ v ∈ seen, v ∈ seen') ∧ ∀ v ∈ stack, v ∈ seen' := by
  induction stack, seen, finished using walk.induct (g := g) with
  | case1 seen finished =>
    rw [walk] at h
    cases h
    exact ⟨hw, fun _ hv => hv, fun _ hv => absurd hv List.not_mem_nil⟩
  | case2 seen finished v rest hv ih =>
    -- the top of the stack was seen before, so all below it is done and it is finished
    rw [walk, dif_pos hv] at h
    obtain ⟨hend, hseen, hstack⟩ := ih h hw.finish
    refine ⟨hend, hseen, fun w hw' => ?_⟩
    rcases List.mem_cons.mp hw' with rfl | hw'
    · exact hseen _ hv
    · exact hstack w hw'
  | case3 seen finished v rest hv hloop =>
    rw [walk, dif_neg hv, if_pos hloop] at h
    cases h
  | case4 seen finished v rest hv hloop _ ih =>
    -- `v` stays on the stack behind its successors, which is what keeps it pending
    rw [walk, dif_neg hv, if_neg hloop] at h
    obtain ⟨hend, hseen, hstack⟩ := ih h (hw.see hloop)
    refine ⟨hend, fun w hw' => hseen w (List.mem_cons_of_mem _ hw'), fun w hw' => ?_⟩
    exact hstack w (List.mem_append_right _ hw')

/-- Walking down from every vertex of a list finishes them all. -/
theorem walkAll_eq_ok {vertices seen finished finished' : List (Fin n)}
    (h : g.walkAll vertices seen finished = .ok finished') (hw : g.Walking [] seen finished) :
    ∃ seen', g.Walking [] seen' finished' ∧ (∀ v ∈ seen, v ∈ seen') ∧ ∀ v ∈ vertices, v ∈ seen' := by
  induction vertices generalizing seen finished with
  | nil =>
    rw [walkAll] at h
    cases h
    exact ⟨seen, hw, fun _ hv => hv, fun _ hv => absurd hv List.not_mem_nil⟩
  | cons v rest ih =>
    rw [walkAll] at h
    split at h
    · rename_i hv
      obtain ⟨seen', hend, hseen, hrest⟩ := ih h hw
      refine ⟨seen', hend, hseen, fun w hw' => ?_⟩
      rcases List.mem_cons.mp hw' with rfl | hw'
      · exact hseen _ hv
      · exact hrest w hw'
    · obtain ⟨⟨seen₁, finished₁⟩, hwalk, h⟩ := Outcome.bind_eq_ok_iff.mp h
      obtain ⟨hmid, hseen₁, hstack₁⟩ := walk_eq_ok hwalk (hw.enter v)
      obtain ⟨seen', hend, hseen, hrest⟩ := ih h hmid
      refine ⟨seen', hend, fun w hw' => hseen w (hseen₁ w hw'), fun w hw' => ?_⟩
      rcases List.mem_cons.mp hw' with rfl | hw'
      · exact hseen _ (hstack₁ _ List.mem_cons_self)
      · exact hrest w hw'

/-! ## §2 — the order -/

/-- A list passes the check only if no edge goes from a later vertex to an earlier one. -/
theorem pairwise_of_lateSource_eq_none {placed vertices : List (Fin n)}
    (hnew : ∀ v ∈ vertices, v ∉ placed) (hd : vertices.Nodup)
    (h : g.lateSource placed vertices = none) :
    vertices.Pairwise fun v w => ¬ g.Edge w v := by
  induction vertices generalizing placed with
  | nil => exact List.Pairwise.nil
  | cons v rest ih =>
    obtain ⟨hv, hrest⟩ := List.nodup_cons.mp hd
    rw [lateSource] at h
    split at h
    · cases h
    · rename_i hfind
      refine List.pairwise_cons.mpr ⟨fun w hw he => ?_, ih (fun w hw hmem => ?_) hrest h⟩
      · -- the source of an edge into `v` stands before it, and `w` stands behind
        have hplaced := List.find?_eq_none.mp hfind w (mem_predecessors.mpr he)
        simp only [decide_not, Bool.not_eq_true', decide_eq_false_iff_not, not_not] at hplaced
        rcases List.mem_cons.mp hplaced with rfl | hplaced
        · exact hv hw
        · exact hnew w (List.mem_cons_of_mem _ hw) hplaced
      · rcases List.mem_cons.mp hmem with rfl | hmem
        · exact hv hw
        · exact hnew w (List.mem_cons_of_mem _ hw) hmem

/-- A list of all vertices in which every edge goes forward. -/
structure Forward (g : Digraph n) (vertices : List (Fin n)) : Prop where
  /-- No vertex is listed twice. -/
  once : vertices.Nodup
  /-- Every vertex is listed. -/
  all : ∀ v, v ∈ vertices
  /-- The source of an edge stands before its target. -/
  before : ∀ v w, g.Edge v w → vertices.idxOf v < vertices.idxOf w

/-- **An order lists every vertex once, and every edge goes forward in it.** -/
theorem order_eq_ok {vertices : List (Fin n)} (h : g.order = .ok vertices) : g.Forward vertices := by
  unfold order at h
  obtain ⟨finished, hall, h⟩ := Outcome.bind_eq_ok_iff.mp h
  obtain ⟨seen, hend, -, hseen⟩ := walkAll_eq_ok hall Walking.start
  split at h
  · exact absurd h (by simp)
  · rename_i hlate
    obtain rfl := Outcome.pure_eq_ok_iff.mp h
    have all : ∀ v, v ∈ finished := fun v =>
      (hend.pending v (hseen v (List.mem_finRange v))).resolve_right List.not_mem_nil
    -- the check excludes edges that go back; an edge from a vertex to itself never gets this far
    have noBack := pairwise_of_lateSource_eq_none (fun _ _ => List.not_mem_nil) hend.once hlate
    refine ⟨hend.once, all, fun v w he => ?_⟩
    by_contra hle
    have hv := List.idxOf_lt_length_of_mem (all v)
    have hw := List.idxOf_lt_length_of_mem (all w)
    rcases Nat.lt_or_eq_of_le (Nat.not_lt.mp hle) with hlt | heq
    · have := List.pairwise_iff_getElem.mp noBack _ _ hw hv hlt
      rw [List.getElem_idxOf, List.getElem_idxOf] at this
      exact this he
    · obtain rfl := (List.idxOf_inj (all w)).mp heq
      exact hend.loopless _ (hseen _ (List.mem_finRange _)) he

/-! ## §3 — ancestors -/

/-- One vertex can be reached from another along edges. -/
def Reaches (g : Digraph n) : Fin n → Fin n → Prop := Relation.ReflTransGen g.Edge

/-- Climbing keeps what it has seen and sees what is on its stack. -/
theorem subset_climb (stack seen : List (Fin n)) :
    (∀ v ∈ seen, v ∈ g.climb stack seen) ∧ ∀ v ∈ stack, v ∈ g.climb stack seen := by
  induction stack, seen using climb.induct (g := g) with
  | case1 seen =>
    rw [climb]
    exact ⟨fun _ hv => hv, fun _ hv => absurd hv List.not_mem_nil⟩
  | case2 seen v rest hv ih =>
    rw [climb, dif_pos hv]
    refine ⟨ih.1, fun w hw => ?_⟩
    rcases List.mem_cons.mp hw with rfl | hw
    · exact ih.1 _ hv
    · exact ih.2 w hw
  | case3 seen v rest hv _ ih =>
    rw [climb, dif_neg hv]
    refine ⟨fun w hw => ih.1 w (List.mem_cons_of_mem _ hw), fun w hw => ?_⟩
    rcases List.mem_cons.mp hw with rfl | hw
    · exact ih.1 _ List.mem_cons_self
    · exact ih.2 w (List.mem_append_right _ hw)

/-- What climbing sees was seen before or reaches something on the stack. -/
theorem reaches_of_mem_climb {stack seen : List (Fin n)} {v : Fin n} (h : v ∈ g.climb stack seen) :
    v ∈ seen ∨ ∃ w ∈ stack, g.Reaches v w := by
  induction stack, seen using climb.induct (g := g) with
  | case1 seen => rw [climb] at h; exact .inl h
  | case2 seen u rest hu ih =>
    rw [climb, dif_pos hu] at h
    exact (ih h).imp_right fun ⟨w, hw, hr⟩ => ⟨w, List.mem_cons_of_mem _ hw, hr⟩
  | case3 seen u rest hu _ ih =>
    rw [climb, dif_neg hu] at h
    rcases ih h with hseen | ⟨w, hw, hr⟩
    · rcases List.mem_cons.mp hseen with rfl | hseen
      · exact .inr ⟨_, List.mem_cons_self, Relation.ReflTransGen.refl⟩
      · exact .inl hseen
    · rcases List.mem_append.mp hw with hw | hw
      · exact .inr ⟨u, List.mem_cons_self, hr.tail (mem_predecessors.mp hw)⟩
      · exact .inr ⟨w, List.mem_cons_of_mem _ hw, hr⟩

/-- Climbing leaves nothing out: if the sources of edges into what was seen are seen or on the stack,
they are seen in the end. -/
theorem climb_closed {stack seen : List (Fin n)}
    (h : ∀ v w, g.Edge v w → w ∈ seen → v ∈ seen ∨ v ∈ stack) :
    ∀ v w, g.Edge v w → w ∈ g.climb stack seen → v ∈ g.climb stack seen := by
  induction stack, seen using climb.induct (g := g) with
  | case1 seen =>
    intro v w he hw
    rw [climb] at hw ⊢
    exact (h v w he hw).resolve_right List.not_mem_nil
  | case2 seen u rest hu ih =>
    rw [climb, dif_pos hu]
    refine ih fun v w he hw => ?_
    rcases h v w he hw with hv | hv
    · exact .inl hv
    · rcases List.mem_cons.mp hv with rfl | hv
      · exact .inl hu
      · exact .inr hv
  | case3 seen u rest hu _ ih =>
    rw [climb, dif_neg hu]
    refine ih fun v w he hw => ?_
    -- the sources of edges into the vertex just seen are put on the stack
    rcases List.mem_cons.mp hw with rfl | hw
    · exact .inr (List.mem_append_left _ (mem_predecessors.mpr he))
    · rcases h v w he hw with hv | hv
      · exact .inl (List.mem_cons_of_mem _ hv)
      · rcases List.mem_cons.mp hv with rfl | hv
        · exact .inl List.mem_cons_self
        · exact .inr (List.mem_append_right _ hv)

/-- **The ancestors** of some vertices are exactly those from which one of them can be reached. -/
theorem mem_ancestors_iff {vertices : List (Fin n)} {v : Fin n} :
    v ∈ g.ancestors vertices ↔ ∃ w ∈ vertices, g.Reaches v w := by
  unfold ancestors
  constructor
  · intro h
    exact (reaches_of_mem_climb h).resolve_left List.not_mem_nil
  · rintro ⟨w, hw, hr⟩
    have closed : ∀ u w, g.Edge u w → w ∈ g.climb vertices [] → u ∈ g.climb vertices [] :=
      climb_closed fun _ _ _ h => absurd h List.not_mem_nil
    induction hr using Relation.ReflTransGen.head_induction_on with
    | refl => exact (subset_climb vertices []).2 w hw
    | head he _ ih => exact closed _ _ he ih

end TexelFlow.Digraph
