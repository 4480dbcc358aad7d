import TexelFlow.Proofs.Outcome
import TexelFlow.Tensor.Basic
import Mathlib.Algebra.BigOperators.Group.List.Basic
import Mathlib.Algebra.BigOperators.Ring.List
import Mathlib.Algebra.Order.BigOperators.GroupWithZero.List
import Mathlib.Algebra.Order.Ring.Nat
import Mathlib.Data.List.Infix

/-!
# What words hold of a shape

The elements of a shape are counted from the left, so the count has a result exactly when every product of
leading extents fits a word (`Shape.Counted`), and the result is the product of all of them. Where no extent
is zero the products grow, and only the last one matters; behind an extent of zero everything fits. Strides
are counted from the right, and have a result exactly when each of them fits. Room for elements is asked for
as soon as they are counted (`Shape.HasRoom`).

## Main statements

* `Shape.counted_eq_ok_iff` — when elements are counted, and as how many.
* `Shape.counted_iff_of_pos` — without empty extents only the product of all of them matters.
* `Shape.reserve_eq_ok_iff` — when there is room for the elements.
* `Shape.strided_eq_ok_iff` — when strides are counted.

## §1 — counting
## §2 — room
## §3 — strides
-/

namespace TexelFlow

namespace Shape

/-! ## §1 — counting -/

variable {shape front rest : Shape} {n extent : Nat} {e : Error}

/-- The elements of a shape are as many as the product of its extents. -/
theorem count_eq_prod (shape : Shape) : shape.count = shape.prod := by
  unfold count
  rw [← List.prod_eq_foldl]

/-- A shape whose elements can be counted: words hold all products of leading extents. -/
def Counted (shape : Shape) : Prop := ∀ front, front <+: shape → front.prod < Size.modulus

/-- Counting goes on from what is counted so far. -/
theorem foldlM_mul_eq_ok_iff {m : Nat} (hm : m < Size.modulus) : shape.foldlM Size.mul m = .ok n ↔
    (∀ front, front <+: shape → m * front.prod < Size.modulus) ∧ m * shape.prod = n := by
  induction shape generalizing m with
  | nil =>
    rw [List.foldlM_nil, Outcome.pure_eq_ok_iff, List.prod_nil, Nat.mul_one]
    refine ⟨fun h => ⟨fun front hfront => ?_, h⟩, And.right⟩
    rw [List.prefix_nil.mp hfront, List.prod_nil, Nat.mul_one]
    exact hm
  | cons extent rest ih =>
    rw [List.foldlM_cons, Outcome.bind_eq_ok_iff, List.prod_cons, ← Nat.mul_assoc]
    constructor
    · rintro ⟨next, hnext, h⟩
      obtain ⟨hlt, rfl⟩ := Size.mul_eq_ok_iff.mp hnext
      obtain ⟨hfronts, hn⟩ := (ih hlt).mp h
      refine ⟨fun front hfront => ?_, hn⟩
      rcases List.prefix_cons_iff.mp hfront with rfl | ⟨front, rfl, hfront⟩
      · rwa [List.prod_nil, Nat.mul_one]
      · rw [List.prod_cons, ← Nat.mul_assoc]
        exact hfronts front (List.cons_prefix_cons.mp hfront).2
    · rintro ⟨hfronts, hn⟩
      have hlt : m * extent < Size.modulus := by
        have := hfronts [extent] (List.prefix_append [extent] rest)
        rwa [List.prod_singleton] at this
      refine ⟨m * extent, Size.mul_eq_ok_iff.mpr ⟨hlt, rfl⟩, (ih hlt).mpr ⟨fun front hfront => ?_, hn⟩⟩
      have := hfronts (extent :: front) (List.cons_prefix_cons.mpr ⟨rfl, hfront⟩)
      rwa [List.prod_cons, ← Nat.mul_assoc] at this

/-- **Elements are counted** exactly where words hold all products of leading extents, and then they are as
many as the product of all of them. -/
theorem counted_eq_ok_iff : shape.counted = .ok n ↔ shape.Counted ∧ shape.prod = n := by
  unfold counted Counted
  have hone : 1 < Size.modulus := by decide
  rw [foldlM_mul_eq_ok_iff hone, Nat.one_mul]
  simp only [Nat.one_mul]

theorem Counted.counted (h : shape.Counted) : shape.counted = .ok shape.prod :=
  counted_eq_ok_iff.mpr ⟨h, rfl⟩

theorem counted_of_eq_ok (h : shape.counted = .ok n) : shape.Counted := (counted_eq_ok_iff.mp h).1

theorem prod_of_counted (h : shape.counted = .ok n) : shape.prod = n := (counted_eq_ok_iff.mp h).2

theorem Counted.prod_lt (h : shape.Counted) : shape.prod < Size.modulus := h shape (List.prefix_refl shape)

/-- A product that goes wrong is one that no word holds. -/
theorem foldlM_mul_eq_error {m : Nat} (h : shape.foldlM Size.mul m = .error e) : e = .breach .overflow := by
  induction shape generalizing m with
  | nil => exact absurd h nofun
  | cons extent rest ih =>
    rw [List.foldlM_cons] at h
    rcases Outcome.bind_eq_error_iff.mp h with h | ⟨next, -, h⟩
    · exact (Size.mul_eq_error_iff.mp h).2
    · exact ih h

/-- Counting fails only by a number that no word holds. -/
theorem counted_eq_error_iff : shape.counted = .error e ↔ ¬ shape.Counted ∧ e = .breach .overflow := by
  constructor
  · intro h
    refine ⟨fun hcounted => ?_, foldlM_mul_eq_error h⟩
    rw [hcounted.counted] at h
    cases h
  · rintro ⟨hnot, rfl⟩
    cases h : shape.counted with
    | ok n => exact absurd (counted_of_eq_ok h) hnot
    | error e => exact congrArg _ (foldlM_mul_eq_error h)

/-- Leading extents can be counted where all can. -/
theorem Counted.leading (h : (front ++ rest).Counted) : front.Counted :=
  fun _ hfront => h _ (hfront.trans (List.prefix_append front rest))

/-- One more extent behind a counted shape. -/
theorem counted_concat_iff :
    (front ++ [n]).Counted ↔ front.Counted ∧ front.prod * n < Size.modulus := by
  have hprod : (front ++ [n]).prod = front.prod * n := by rw [List.prod_append, List.prod_singleton]
  constructor
  · exact fun h => ⟨h.leading, hprod ▸ h.prod_lt⟩
  · rintro ⟨h, hlt⟩ part hpart
    rcases List.prefix_concat_iff.mp hpart with rfl | hpart
    · exact hprod ▸ hlt
    · exact h part hpart

/-- An axis of one element in front changes nothing. -/
theorem counted_one_cons (shape : Shape) : counted (1 :: shape) = shape.counted := by
  show Size.mul 1 1 >>= _ = _
  rfl

theorem counted_nil : Counted [] := counted_of_eq_ok rfl

theorem counted_one_cons_iff : Counted (1 :: shape) ↔ shape.Counted := by
  have hiff : ∀ shape : Shape, shape.Counted ↔ shape.counted = .ok shape.prod :=
    fun shape => ⟨Counted.counted, counted_of_eq_ok⟩
  rw [hiff, hiff, counted_one_cons, List.prod_cons, Nat.one_mul]

/-- **Without empty extents** only the product of all of them has to fit. -/
theorem counted_iff_of_pos (hpos : ∀ n ∈ shape, 0 < n) : shape.Counted ↔ shape.prod < Size.modulus := by
  refine ⟨Counted.prod_lt, fun h front hfront => Nat.lt_of_le_of_lt ?_ h⟩
  obtain ⟨rest, rfl⟩ := hfront
  rw [List.prod_append]
  exact Nat.le_mul_of_pos_right _ (List.prod_pos fun n hn => hpos n (List.mem_append_right _ hn))

/-- Where the product of all extents is not zero, none of them is. -/
theorem pos_of_prod_pos (h : 0 < shape.prod) : ∀ n ∈ shape, 0 < n := by
  intro n hn
  refine Nat.pos_of_ne_zero fun hzero => h.ne' ?_
  exact List.prod_eq_zero_iff.mpr (hzero ▸ hn)

theorem counted_of_prod_pos (hpos : 0 < shape.prod) (h : shape.prod < Size.modulus) : shape.Counted :=
  (counted_iff_of_pos (pos_of_prod_pos hpos)).mpr h

/-! ## §2 — room -/

/-- There is room for the elements of a shape: they are counted, and their bytes can be addressed. -/
def HasRoom (shape : Shape) : Prop := shape.Counted ∧ shape.prod * elementRoom ≤ Size.addressable

section Room

variable {α : Type} {f : Nat → Outcome α}

/-- Where there is room, the elements are as many as the product of the extents. -/
theorem reserve_of_hasRoom (h : shape.HasRoom) :
    (shape.counted >>= fun count => Size.reserve count elementRoom >>= fun _ => f count) = f shape.prod := by
  rw [Outcome.bind_of_eq_ok h.1.counted, Outcome.bind_of_eq_ok (Size.reserve_eq_ok_iff.mpr h.2)]

/-- Where there is none, nothing else happens. -/
theorem reserve_of_not_hasRoom (h : ¬ shape.HasRoom) : ∃ breach,
    (shape.counted >>= fun count => Size.reserve count elementRoom >>= fun _ => f count) =
      .error (.breach breach) := by
  cases hcount : shape.counted with
  | error e =>
    obtain ⟨-, rfl⟩ := counted_eq_error_iff.mp hcount
    exact ⟨.overflow, rfl⟩
  | ok count =>
    obtain ⟨hcounted, rfl⟩ := counted_eq_ok_iff.mp hcount
    have hfull : Size.addressable < shape.prod * elementRoom :=
      Nat.not_le.mp fun hroom => h ⟨hcounted, hroom⟩
    refine ⟨.capacity, ?_⟩
    rw [Outcome.bind_of_eq_ok rfl, Size.reserve_eq_error_iff.mpr ⟨hfull, rfl⟩]
    rfl

/-- **Elements that room is asked for** give what follows exactly where there is room. -/
theorem reserve_eq_ok_iff {a : α} :
    (shape.counted >>= fun count => Size.reserve count elementRoom >>= fun _ => f count) = .ok a ↔
      shape.HasRoom ∧ f shape.prod = .ok a := by
  by_cases h : shape.HasRoom
  · rw [reserve_of_hasRoom h, and_iff_right h]
  · obtain ⟨breach, hbreach⟩ := reserve_of_not_hasRoom (f := f) h
    rw [hbreach]
    exact iff_of_false nofun fun h' => h h'.1

end Room

/-! ## §3 — strides -/

theorem length_strides (shape : Shape) : shape.strides.length = shape.length := by
  induction shape with
  | nil => rfl
  | cons d rest ih => rw [strides, List.length_cons, ih, List.length_cons]

/-- A shape whose strides can be counted: words hold each of them. -/
def Strided (shape : Shape) : Prop := ∀ stride ∈ shape.strides, stride < Size.modulus

/-- **Strides are counted** exactly where words hold each of them. -/
theorem strided_eq_ok_iff {strides : List Nat} :
    shape.strided = .ok strides ↔ shape.Strided ∧ shape.strides = strides := by
  unfold strided Strided
  generalize shape.strides = all
  rw [Outcome.mapM_eq_ok_iff]
  constructor
  · intro h
    have hsame := h.imp fun _ _ hfit => (Size.fit_eq_ok_iff.mp hfit).2
    refine ⟨fun stride hstride => ?_, List.forall₂_eq_eq_eq ▸ hsame⟩
    obtain ⟨_, -, hfit⟩ := Outcome.exists_of_forall₂ h hstride
    exact (Size.fit_eq_ok_iff.mp hfit).1
  · rintro ⟨h, rfl⟩
    exact List.forall₂_same.mpr fun stride hstride => Size.fit_of_lt (h stride hstride)

/-- Strides of several shapes are counted exactly where those of each are. -/
theorem exists_strided_iff {shapes : List Shape} :
    (∃ strides, shapes.mapM strided = .ok strides) ↔ ∀ shape ∈ shapes, shape.Strided := by
  constructor
  · rintro ⟨strides, h⟩ shape hshape
    obtain ⟨_, -, hstrided⟩ := Outcome.exists_result_of_mem h hshape
    exact (strided_eq_ok_iff.mp hstrided).1
  · exact fun h => Outcome.exists_mapM_eq_ok fun shape hshape =>
      ⟨_, strided_eq_ok_iff.mpr ⟨h shape hshape, rfl⟩⟩

/-- Strides of a shape with elements are no longer than the shape. -/
theorem strides_le (hpos : 0 < shape.prod) : ∀ stride ∈ shape.strides, 0 < stride ∧ stride ≤ shape.prod := by
  induction shape with
  | nil => exact fun stride h => absurd h List.not_mem_nil
  | cons d rest ih =>
    rw [List.prod_cons] at hpos ⊢
    have hrest : 0 < rest.prod := Nat.pos_of_mul_pos_left hpos
    have hle : rest.prod ≤ d * rest.prod := Nat.le_mul_of_pos_left _ (Nat.pos_of_mul_pos_right hpos)
    intro stride hstride
    rcases List.mem_cons.mp hstride with rfl | hstride
    · rw [count_eq_prod]
      exact ⟨hrest, hle⟩
    · have := ih hrest stride hstride
      omega

/-- A shape with elements that are counted has strides that are counted. -/
theorem strided_of_prod_pos (hpos : 0 < shape.prod) (h : shape.prod < Size.modulus) : shape.Strided :=
  fun stride hstride => (strides_le hpos stride hstride).2.trans_lt h

end Shape

end TexelFlow
