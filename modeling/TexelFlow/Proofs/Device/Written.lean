import TexelFlow.Proofs.Device.Nesting

/-!
# Which shapes are written

Nested arrays that are written follow a shape when at each of its depths stand arrays of its extent, and at
its end the elements. Elements are cut into rows as long as the extents behind count, and where these count
nothing there is no row to cut: the array is left empty, whatever its extent. So a tensor without elements
keeps its shape in writing only if the first extent is the one that is zero, and if words count the extents
behind it, which nothing has counted before. One with elements always keeps it.

## Main statements

* `nest_of_empty` — without elements the outermost array is empty.
* `followsShape_iff` — what is written follows the shape.
-/

namespace TexelFlow.HostTensor

variable {t : HostTensor} {shape : Shape} {extent : Nat} {j : Json}

/-- The elements in a document, in row-major order. -/
def jsonElements (t : HostTensor) : List Json :=
  match t.data with
  | .float32 v => v.map jsonOfReal
  | .int32 v => v.map fun n => Json.int n.toInt

theorem toNested_eq (t : HostTensor) : t.toNested = nest t.jsonElements t.shape := by
  unfold toNested jsonElements
  cases t.data with
  | float32 _ => rfl
  | int32 _ => rfl

theorem length_jsonElements (t : HostTensor) : t.jsonElements.length = t.shape.prod := by
  rw [t.prod_shape]
  unfold jsonElements
  cases t.data with
  | float32 _ => exact List.length_map _
  | int32 _ => exact List.length_map _

/-- **What is written follows the shape.** -/
structure Follows (t : HostTensor) (j : Json) : Prop extends Json.Layered t.shape j where
  /-- At the end of the shape stand the elements, in row-major order. -/
  elements : j.level t.shape.length = t.jsonElements

/-- A tensor is written, and what is written follows its shape. -/
def FollowsShape (t : HostTensor) : Prop := ∃ j, t.toNested = .ok j ∧ Follows t j

/-- Without elements the outermost array is empty, and nothing stands below it. -/
theorem nest_of_empty : nest [] (extent :: shape) = .ok j ↔ shape.Counted ∧ j = .array [] := by
  rw [nest_cons_eq_ok_iff, pieces_nil, List.mapM_nil]
  refine and_congr_right' ⟨?_, fun h => ⟨[], rfl, h⟩⟩
  rintro ⟨items, hitems, rfl⟩
  rw [← Outcome.pure_eq_ok_iff.mp hitems]

/-- An empty array follows exactly the shapes that begin with an extent of zero. -/
theorem layered_empty_iff : (Json.array []).Layered (extent :: shape) ↔ extent = 0 := by
  rw [Json.layered_cons_iff]
  constructor
  · rintro ⟨items, hitems, rfl, -⟩
    rw [← Json.array.inj hitems]
    rfl
  · rintro rfl
    exact ⟨[], rfl, rfl, fun v hv => absurd hv List.not_mem_nil⟩

/-- **Where there are no elements**, the shape is followed exactly if its first extent is zero and words count
the others. -/
theorem followsShape_iff_of_prod_eq_zero (h : t.shape.prod = 0) :
    FollowsShape t ↔ t.shape.head? = some 0 ∧ Shape.Counted t.shape.tail := by
  have hnone : t.jsonElements = [] := List.length_eq_zero_iff.mp ((length_jsonElements t).trans h)
  cases hshape : t.shape with
  | nil =>
    rw [hshape] at h
    exact absurd h Nat.one_ne_zero
  | cons extent shape =>
    have hwritten : ∀ j, t.toNested = .ok j ↔ Shape.Counted shape ∧ j = .array [] := by
      intro j
      rw [toNested_eq, hnone, hshape, nest_of_empty]
    rw [List.head?_cons, List.tail_cons, Option.some.injEq]
    constructor
    · rintro ⟨j, hj, hfollows⟩
      obtain ⟨hcounted, rfl⟩ := (hwritten j).mp hj
      exact ⟨layered_empty_iff.mp (hshape ▸ hfollows.toLayered), hcounted⟩
    · rintro ⟨hzero, hcounted⟩
      refine ⟨_, (hwritten _).mpr ⟨hcounted, rfl⟩, hshape ▸ layered_empty_iff.mpr hzero, ?_⟩
      rw [hnone, hshape]
      rfl

/-- **Where there are elements**, the shape is followed. -/
theorem followsShape_of_prod_pos (h : 0 < t.shape.prod) : FollowsShape t := by
  obtain ⟨j, hj, hlayered, hlevel⟩ :=
    nest_layered (Shape.pos_of_prod_pos h) t.counted_shape.prod_lt (length_jsonElements t)
  exact ⟨j, (toNested_eq t).trans hj, hlayered, hlevel⟩

/-- **What is written follows the shape** exactly when there are elements, or the first extent is zero and
words count the others. -/
theorem followsShape_iff (t : HostTensor) : FollowsShape t ↔
    0 < t.shape.prod ∨ t.shape.head? = some 0 ∧ Shape.Counted t.shape.tail := by
  rcases Nat.eq_zero_or_pos t.shape.prod with hzero | hpos
  · rw [followsShape_iff_of_prod_eq_zero hzero, hzero, or_iff_right (lt_irrefl 0)]
  · exact iff_of_true (followsShape_of_prod_pos hpos) (.inl hpos)

/-- Two rows without elements. -/
def hollow : HostTensor := ⟨[2, 0], .float32 [], rfl⟩

/-- **Empty rows are not written**: two arrays without items follow the shape and are read as the tensor, but
a single array without items is written for it. -/
theorem hollow_not_followed : make [2, 0] (.float32 []) = .ok hollow ∧
    (Json.array [.array [], .array []]).Layered hollow.shape ∧
    ofNested (.array [.array [], .array []]) = .ok hollow ∧
    hollow.toNested = .ok (.array []) ∧ ¬ FollowsShape hollow := by
  have hread : ofNested (.array [.array [], .array []]) = .ok hollow := rfl
  refine ⟨make_eq_ok_iff.mpr ⟨rfl, rfl⟩, (ofNested_eq_ok_iff.mp hread).1.toLayered, hread, ?_, ?_⟩
  · exact nest_of_empty.mpr ⟨Shape.counted_of_eq_ok rfl, rfl⟩
  · exact fun h => absurd ((followsShape_iff_of_prod_eq_zero rfl).mp h).1 (by decide)

end TexelFlow.HostTensor
