import TexelFlow.Proofs.Evaluate.Elements

/-!
# Values by their indices

The elements of a value stand in a list, and operations find them at positions that they compute. What
these positions mean is said here: the position of an index counts the elements in front of it in row-major
order, an index outside the shape has none, and reading an index is reading its position. Statements about
operations can then speak of indices alone.

## Main statements

* `Shape.position?_cons_eq_some_iff`, `Shape.exists_position?_iff` — which indices have positions, and which.
* `Shape.coordinates_of_position?` — the coordinates of a position are its index.
* `Values.at?_eq` — reading an index is reading its position.
* `Outcome.getElem?_of_grid` — the results of a grid, one behind the other, are in row-major order.

## §1 — positions
## §2 — elements
## §3 — grids
-/

namespace TexelFlow

/-! ## §1 — positions -/

namespace Shape

/-- The row-major position of an index inside a shape. -/
def position? : Shape → List Nat → Option Nat
  | [], [] => some 0
  | d :: dims, i :: index =>
    if i < d then (position? dims index).map fun rest => i * dims.prod + rest else none
  | _, _ => none

variable {shape dims : Shape} {index : List Nat} {d i position : Nat}

theorem position?_cons : position? (d :: dims) (i :: index) =
    if i < d then (position? dims index).map fun rest => i * dims.prod + rest else none := rfl

/-- The position of an index is a row's first one and a position in the row. -/
theorem position?_cons_eq_some_iff : position? (d :: dims) (i :: index) = some position ↔
    i < d ∧ ∃ rest, position? dims index = some rest ∧ position = i * dims.prod + rest := by
  rw [position?_cons]
  split
  · rename_i hi
    rw [Option.map_eq_some_iff]
    simp only [hi, true_and, eq_comm]
  · rename_i hi
    simp [hi]

/-- **An index has a position** exactly when it is inside the shape along every axis. -/
theorem exists_position?_iff :
    (∃ position, position? shape index = some position) ↔ List.Forall₂ (· < ·) index shape := by
  induction shape generalizing index with
  | nil =>
    cases index with
    | nil => exact iff_of_true ⟨0, rfl⟩ .nil
    | cons i index => exact iff_of_false (by simp [position?]) (by simp)
  | cons d dims ih =>
    cases index with
    | nil => exact iff_of_false (by simp [position?]) (by simp)
    | cons i index =>
      rw [List.forall₂_cons, ← ih]
      simp only [position?_cons_eq_some_iff]
      constructor
      · rintro ⟨_, hi, rest, hrest, -⟩
        exact ⟨hi, rest, hrest⟩
      · rintro ⟨hi, rest, hrest⟩
        exact ⟨_, hi, rest, hrest, rfl⟩

theorem position?_lt (h : position? shape index = some position) : position < shape.prod := by
  induction shape generalizing index position with
  | nil =>
    cases index with
    | nil =>
      obtain rfl := Option.some.inj h
      exact Nat.one_pos
    | cons i index => cases h
  | cons d dims ih =>
    cases index with
    | nil => cases h
    | cons i index =>
      obtain ⟨hi, rest, hrest, rfl⟩ := position?_cons_eq_some_iff.mp h
      rw [List.prod_cons]
      exact Size.mul_add_lt hi (ih hrest)

/-- **The coordinates of a position** are its index. -/
theorem coordinates_of_position? (h : position? shape index = some position) :
    Pairwise.coordinates shape.strides position = index := by
  induction shape generalizing index position with
  | nil =>
    cases index with
    | nil => rfl
    | cons i index => cases h
  | cons d dims ih =>
    cases index with
    | nil => cases h
    | cons i index =>
      obtain ⟨hi, rest, hrest, rfl⟩ := position?_cons_eq_some_iff.mp h
      have hlt := position?_lt hrest
      rw [strides, Pairwise.coordinates, count_eq_prod, Size.mul_add_div hlt, Size.mul_add_mod hlt, ih hrest]

/-- Extents of one in front have one index each. -/
theorem position?_ones (k : Nat) :
    position? (List.replicate k 1 ++ shape) (List.replicate k 0 ++ index) = position? shape index := by
  induction k with
  | zero => rfl
  | succ k ih =>
    rw [List.replicate_succ, List.replicate_succ, List.cons_append, List.cons_append, position?_cons, ih]
    simp

/-- Positions in an image. -/
theorem position?_image {height width channels y x c : Nat} (hy : y < height) (hx : x < width)
    (hc : c < channels) :
    position? [height, width, channels] [y, x, c] = some ((y * width + x) * channels + c) := by
  simp only [position?, hy, hx, hc, if_true, Option.map_some, List.prod_cons, List.prod_nil]
  congr 1
  ring

end Shape

/-! ## §2 — elements -/

namespace Values

variable {v : Values} {index : List Nat} {position : Nat}

/-- The element at an index. -/
def at? (v : Values) (index : List Nat) : Option Binary32 :=
  (v.shape.position? index).bind fun position => v.elements[position]?

theorem read_eq_ok_iff {x : Binary32} : v.read position = .ok x ↔ v.elements[position]? = some x := by
  unfold read
  split
  · rename_i h
    rw [Array.getElem?_eq_getElem h, Option.some.injEq]
    exact ⟨Except.ok.inj, congrArg Except.ok⟩
  · rename_i h
    rw [Array.getElem?_eq_none (Nat.not_lt.mp h)]
    simp

/-- Reading an index is reading its position. -/
theorem at?_eq (h : v.shape.position? index = some position) : v.at? index = v.elements[position]? := by
  unfold at?
  rw [h, Option.bind_some]

end Values

/-! ## §3 — grids -/

namespace Outcome

variable {ε α β γ δ : Type}

/-- The result of a member stands where the member stands. -/
theorem getElem?_of_mapM {f : α → Except ε β} {xs : List α} {ys : List β} (h : xs.mapM f = .ok ys)
    {i : Nat} {x : α} (hx : xs[i]? = some x) : ∃ y, ys[i]? = some y ∧ f x = .ok y := by
  have hforall := mapM_eq_ok_iff.mp h
  have hi : i < ys.length := hforall.length_eq ▸ (List.getElem?_eq_some_iff.mp hx).1
  refine ⟨ys[i], List.getElem?_eq_getElem hi, ?_⟩
  obtain ⟨hi', rfl⟩ := List.getElem?_eq_some_iff.mp hx
  exact hforall.get hi' hi

/-- Rows of one length, one behind the other. -/
theorem getElem?_flatten {rows : List (List α)} {n : Nat} (h : ∀ row ∈ rows, row.length = n) {i j : Nat}
    (hj : j < n) {row : List α} (hrow : rows[i]? = some row) : rows.flatten[i * n + j]? = row[j]? := by
  induction rows generalizing i with
  | nil => simp at hrow
  | cons first rows ih =>
    have hfirst : first.length = n := h first List.mem_cons_self
    rw [List.flatten_cons]
    cases i with
    | zero =>
      obtain rfl : first = row := Option.some.inj hrow
      rw [Nat.zero_mul, Nat.zero_add, List.getElem?_append_left (by omega)]
    | succ i =>
      have hskip : (i + 1) * n + j - first.length = i * n + j := by
        rw [hfirst, Nat.succ_mul]
        omega
      rw [List.getElem?_append_right (by rw [hfirst, Nat.succ_mul]; omega), hskip]
      exact ih (fun row' hrow' => h row' (List.mem_cons_of_mem _ hrow')) hrow

/-- **The results of a grid**, one behind the other, are in row-major order. -/
theorem getElem?_of_grid {f : Nat → Nat → Nat → Except ε δ} {height width channels : Nat}
    {rows : List (List (List δ))}
    (h : grid f (List.range height) (List.range width) (List.range channels) = .ok rows) {y x c : Nat}
    (hy : y < height) (hx : x < width) (hc : c < channels) :
    ∃ d, rows.flatten.flatten[(y * width + x) * channels + c]? = some d ∧ f y x c = .ok d := by
  obtain ⟨row, hrow, hcolumns⟩ := getElem?_of_mapM h (List.getElem?_range hy)
  obtain ⟨column, hcolumn, hlayers⟩ := getElem?_of_mapM hcolumns (List.getElem?_range hx)
  obtain ⟨d, hd, hf⟩ := getElem?_of_mapM hlayers (List.getElem?_range hc)
  have hwidth : ∀ row ∈ rows, row.length = width := by
    intro row hrow
    obtain ⟨y, -, hy⟩ := exists_of_mem_results h hrow
    rw [length_of_mapM hy, List.length_range]
  have hchannels : ∀ column ∈ rows.flatten, column.length = channels := by
    intro column hcolumn
    obtain ⟨row, hrow, hcolumn⟩ := List.mem_flatten.mp hcolumn
    obtain ⟨y, -, hy⟩ := exists_of_mem_results h hrow
    obtain ⟨x, -, hx⟩ := exists_of_mem_results hy hcolumn
    rw [length_of_mapM hx, List.length_range]
  refine ⟨d, ?_, hf⟩
  rw [getElem?_flatten hchannels hc ((getElem?_flatten hwidth hx hrow).trans hcolumn), hd]

end Outcome

end TexelFlow
