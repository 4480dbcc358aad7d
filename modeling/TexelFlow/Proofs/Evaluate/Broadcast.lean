import TexelFlow.Proofs.Evaluate.RowMajor
import TexelFlow.Proofs.Operator.Aligned

/-!
# Pairwise operations by indices

A pairwise operation counts through the positions of its result, takes each apart into coordinates and
forms a position in either operand out of them. Said with indices it is the usual broadcasting: the element
at an index of the result is made of one element of each operand, the one at the same index less the leading
coordinates that the operand has no axes for, and with zero where it has one element only.

Strides are counted before any element is looked at. Where there are elements this takes no more than room
for them; but behind an extent of zero strides can be too large for a word though there is nothing to make.

## Main statements

* `Shape.position?_reduced` — the position that coordinates have in an operand is that of an index.
* `Pairwise.at?_of_apply` — the element of a result at an index.
* `Pairwise.apply_broadcasts` — when there is a result, and what it is.
* `Pairwise.vacant_not_applied` — operands without elements whose strides are too large.

## §1 — reduced indices
## §2 — results
-/

namespace TexelFlow

/-! ## §1 — reduced indices -/

namespace Shape

/-- The index at which an operand is read: the last coordinates, one for each of its axes, and zero along
the axes with one element. -/
def reduced (shape : Shape) (index : List Nat) : List Nat :=
  List.zipWith (fun d i => if d = 1 then 0 else i) shape (index.drop (index.length - shape.length))

variable {dims operand shape : Shape} {coords index : List Nat}

/-- Aligned coordinates have the position of the index without the coordinates along axes of one. -/
theorem position?_aligned (h : List.Forall₂ (fun c d => d = 1 ∨ c < d) coords dims) :
    dims.position? (List.zipWith (fun d i => if d = 1 then 0 else i) dims coords) =
      some (Pairwise.alignedPosition coords dims) := by
  induction h with
  | nil => rfl
  | @cons c d coords dims hcd _ ih =>
    have hinside : (if d = 1 then 0 else c) < d := by
      split <;> omega
    rw [List.zipWith_cons_cons, position?_cons, if_pos hinside, ih, Option.map_some,
      Pairwise.alignedPosition, count_eq_prod]
    congr 2
    split
    · rw [Nat.zero_mul]
    · rfl

/-- **The position that coordinates have in an operand** is that of their reduced index. -/
theorem position?_reduced (hfits : operand.Fits shape) (h : List.Forall₂ (· < ·) index shape) :
    operand.position? (operand.reduced index) = some (Pairwise.operandPosition index operand) := by
  unfold reduced Pairwise.operandPosition
  rw [h.length_eq]
  exact position?_aligned (Pairwise.forall₂_of_fits (List.forall₂_drop _ h) hfits.2)

end Shape

/-! ## §2 — results -/

namespace Pairwise

variable {op : Binary32 → Binary32 → Binary32} {a b v : Values} {index : List Nat}

/-- An element is made of one element of each operand. -/
theorem element_eq_ok {shape : Shape} {position : Nat} {z : Binary32}
    (h : element op shape a b position = .ok z) :
    ∃ x y, a.read (operandPosition (coordinates shape.strides position) a.shape) = .ok x ∧
      b.read (operandPosition (coordinates shape.strides position) b.shape) = .ok y ∧ z = op x y := by
  obtain ⟨x, hx, h⟩ := Outcome.bind_eq_ok_iff.mp h
  obtain ⟨y, hy, h⟩ := Outcome.bind_eq_ok_iff.mp h
  exact ⟨x, y, hx, hy, (Outcome.pure_eq_ok_iff.mp h).symm⟩

/-- **The element of a result at an index** is made of what the operands have at the reduced index. -/
theorem at?_of_apply (h : apply op a b = .ok v) (hindex : List.Forall₂ (· < ·) index v.shape) :
    ∃ x y, a.at? (a.shape.reduced index) = some x ∧ b.at? (b.shape.reduced index) = some y ∧
      v.at? index = some (op x y) := by
  obtain ⟨hshape, -, helements⟩ := apply_eq_ok_iff.mp h
  obtain ⟨hafits, hbfits⟩ := Shape.broadcast_eq_ok hshape
  obtain ⟨position, hposition⟩ := Shape.exists_position?_iff.mpr hindex
  have hrange := List.getElem?_range (Shape.position?_lt hposition)
  obtain ⟨z, hz, helement⟩ := Outcome.getElem?_of_mapM helements hrange
  obtain ⟨x, y, hx, hy, rfl⟩ := element_eq_ok helement
  rw [Shape.coordinates_of_position? hposition] at hx hy
  refine ⟨x, y, ?_, ?_, ?_⟩
  · rw [Values.at?_eq (Shape.position?_reduced hafits hindex), Values.read_eq_ok_iff.mp hx]
  · rw [Values.at?_eq (Shape.position?_reduced hbfits hindex), Values.read_eq_ok_iff.mp hy]
  · rw [Values.at?_eq hposition, ← hz, Array.getElem?_toList]

/-- **Pairwise operations broadcast.** There is a result exactly when the operands' extents, counted from
the last axis, are equal or one of them is one, and all strides and the elements of the result are counted. It
has the joined shape and fills it, and the element at each index is made of what the operands have there. -/
theorem apply_broadcasts (op : Binary32 → Binary32 → Binary32) (ha : a.Filled) (hb : b.Filled) :
    ((∃ v, apply op a b = .ok v) ↔ a.shape.Together b.shape ∧
      ∀ shape, a.shape.Joined b.shape shape → Countable shape a.shape b.shape) ∧
    ∀ v, apply op a b = .ok v → a.shape.Joined b.shape v.shape ∧ v.Filled ∧
      ∀ index, List.Forall₂ (· < ·) index v.shape →
        ∃ x y, a.at? (a.shape.reduced index) = some x ∧ b.at? (b.shape.reduced index) = some y ∧
          v.at? index = some (op x y) := by
  constructor
  · rw [← Shape.exists_broadcast_iff]
    constructor
    · rintro ⟨v, hv⟩
      obtain ⟨hshape, hcountable, -⟩ := apply_eq_ok_iff.mp hv
      refine ⟨⟨v.shape, hshape⟩, fun shape hjoined => ?_⟩
      rwa [hjoined.eq (Shape.joined_of_broadcast hshape)]
    · rintro ⟨⟨shape, hshape⟩, hcountable⟩
      exact (exists_apply_iff hshape ha hb).mpr (hcountable shape (Shape.joined_of_broadcast hshape))
  · intro v hv
    exact ⟨Shape.joined_of_broadcast (apply_eq_ok_iff.mp hv).1, filled_of_apply hv,
      fun index hindex => at?_of_apply hv hindex⟩

/-- A column of two elements. -/
def column : Values := ⟨[2, 1], #[.one, .half]⟩

/-- A row of three elements. -/
def row : Values := ⟨[3], #[.one, .half, .six]⟩

/-- A column and a row are multiplied to a table. -/
theorem table_broadcasts : ∃ v, apply (· * ·) column row = .ok v ∧ v.shape = [2, 3] ∧ v.Filled ∧
    v.at? [1, 2] = some (.half * .six) := by
  have hbroadcast : column.shape.broadcast row.shape = .ok [2, 3] := rfl
  have htogether : column.shape.Together row.shape := Shape.exists_broadcast_iff.mp ⟨_, hbroadcast⟩
  have hcountable : Countable [2, 3] column.shape row.shape := by
    obtain ⟨hcolumn, hrow⟩ := Shape.broadcast_eq_ok hbroadcast
    exact (countable_iff_of_pos hcolumn hrow (by decide)).mpr ⟨Shape.counted_of_eq_ok rfl, by decide⟩
  obtain ⟨hexists, hresult⟩ := apply_broadcasts (· * ·) (a := column) (b := row) rfl rfl
  obtain ⟨v, hv⟩ := hexists.mpr ⟨htogether, fun shape hjoined =>
    hjoined.eq (Shape.joined_of_broadcast hbroadcast) ▸ hcountable⟩
  obtain ⟨hjoined, hfilled, hat⟩ := hresult v hv
  have hshape : v.shape = [2, 3] := hjoined.eq (Shape.joined_of_broadcast hbroadcast)
  obtain ⟨x, y, hx, hy, hxy⟩ := hat [1, 2] (by rw [hshape]; simp)
  have hx : x = .half := (Option.some.inj hx).symm
  have hy : y = .six := (Option.some.inj hy).symm
  exact ⟨v, hv, hshape, hfilled, by rw [hxy, hx, hy]⟩

/-- No tables of two to the fortieth rows and columns. -/
def vacant : Values := ⟨[0, 1099511627776, 1099511627776], #[]⟩

/-- **No elements cannot be added** to themselves: the elements of a table are more than a word holds. -/
theorem vacant_not_applied : vacant.Filled ∧ vacant.shape.Together vacant.shape ∧
    apply (· + ·) vacant vacant = .error (.breach .overflow) :=
  ⟨rfl, fun _ => .inl rfl, rfl⟩

end Pairwise

end TexelFlow
