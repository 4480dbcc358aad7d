import TexelFlow.Size
import Mathlib.Data.List.Basic
import Mathlib.Order.Bounds.Defs
import Mathlib.Tactic.Ring

/-!
# Quotients, remainders and grids of numbers

A number below `m · n` is a row below `m` and a column below `n`. Layouts cut numbers apart this way
several times over, and count blocks by quotients that are rounded up.

## Main statements

* `lt_divCeil_iff` — a block is counted exactly when it has a member.
* `isLeast_divCeil`, `isLeast_divCeil_mul` — no fewer blocks have room for all.
* `flatMap_range_mul`, `map_range_mul` — walking a grid row by row is walking its numbers.

## §1 — quotients rounded up
## §2 — rows and columns
-/

namespace TexelFlow.Size

/-! ## §1 — quotients rounded up -/

variable {n d k : Nat}

/-- **A block is counted** by a quotient rounded up exactly when its first member is below `n`. -/
theorem lt_divCeil_iff (hd : 0 < d) : k < divCeil n d ↔ k * d < n := by
  unfold divCeil
  have hn := Nat.div_add_mod n d
  rw [Nat.mul_comm] at hn
  have hr := Nat.mod_lt n hd
  split
  · -- no remainder: the quotient counts every block
    rw [Nat.add_zero]
    constructor
    · intro hk
      have hmul := Nat.mul_lt_mul_of_pos_right hk hd
      omega
    · intro hk
      by_contra hle
      have hmul := Nat.mul_le_mul_right d (Nat.not_lt.mp hle)
      omega
  · -- a remainder: one more block, which is not full
    constructor
    · intro hk
      have hmul := Nat.mul_le_mul_right d (Nat.le_of_lt_succ hk)
      omega
    · intro hk
      by_contra hle
      have hmul := Nat.mul_le_mul_right d (show n / d + 1 ≤ k by omega)
      rw [Nat.add_mul] at hmul
      omega

/-- The counted blocks have room for all. -/
theorem le_divCeil_mul (hd : 0 < d) : n ≤ divCeil n d * d := by
  by_contra h
  have := (lt_divCeil_iff hd).mpr (Nat.not_le.mp h)
  omega

/-- **No fewer blocks** have room for all. -/
theorem isLeast_divCeil (hd : 0 < d) : IsLeast {k | n ≤ d * k} (divCeil n d) := by
  constructor
  · show n ≤ d * divCeil n d
    rw [Nat.mul_comm]
    exact le_divCeil_mul hd
  · intro k (hk : n ≤ d * k)
    by_contra hlt
    have hmember := (lt_divCeil_iff hd).mp (Nat.not_le.mp hlt)
    rw [Nat.mul_comm] at hmember
    omega

/-- No smaller multiple has room for all. -/
theorem isLeast_divCeil_mul (hd : 0 < d) : IsLeast {m | d ∣ m ∧ n ≤ m} (divCeil n d * d) := by
  constructor
  · exact ⟨Nat.dvd_mul_left _ _, le_divCeil_mul hd⟩
  · rintro _ ⟨⟨k, rfl⟩, hk⟩
    rw [Nat.mul_comm]
    exact Nat.mul_le_mul_left d ((isLeast_divCeil hd).2 hk)

/-- The last counted block is not empty. -/
theorem divCeil_mul_lt (hd : 0 < d) (hn : 0 < n) : divCeil n d * d < n + d := by
  have hpos : 0 < divCeil n d := (lt_divCeil_iff hd).mpr (by omega)
  have hlast := (lt_divCeil_iff (n := n) hd).mp (show divCeil n d - 1 < divCeil n d by omega)
  have hsplit : divCeil n d * d = (divCeil n d - 1) * d + d := by
    rw [← Nat.succ_mul, show (divCeil n d - 1).succ = divCeil n d from by omega]
  omega

/-- There are no more blocks than members. -/
theorem divCeil_le (hd : 0 < d) : divCeil n d ≤ n := by
  by_contra h
  have hmember := (lt_divCeil_iff hd).mp (Nat.not_le.mp h)
  have hle : n ≤ n * d := Nat.le_mul_of_pos_right n hd
  omega

theorem divCeil_pos (hd : 0 < d) (hn : 0 < n) : 0 < divCeil n d :=
  (lt_divCeil_iff hd).mpr (by omega)

/-- One block is enough exactly for what is not above it. -/
theorem divCeil_eq_one_iff (hd : 0 < d) (hn : 0 < n) : divCeil n d = 1 ↔ n ≤ d := by
  have hfirst := lt_divCeil_iff (n := n) (k := 0) hd
  have hsecond := lt_divCeil_iff (n := n) (k := 1) hd
  omega

/-- Blocks without a remainder. -/
theorem divCeil_mul_self (hd : 0 < d) : divCeil (k * d) d = k := by
  unfold divCeil
  rw [Nat.mul_mod_left, if_pos rfl, Nat.mul_div_cancel _ hd, Nat.add_zero]

/-- A root rounded up is no more than what it is the root of. -/
theorem ceilSqrt_le : ceilSqrt n ≤ n := by
  have hroot : n.sqrt * n.sqrt ≤ n := Nat.sqrt_le n
  have hself : n.sqrt ≤ n.sqrt * n.sqrt := Nat.le_mul_self _
  unfold ceilSqrt
  dsimp only
  split
  · omega
  · omega

theorem ceilSqrt_pos (hn : 0 < n) : 0 < ceilSqrt n := by
  have hroot := Nat.sqrt_pos.mpr hn
  unfold ceilSqrt
  dsimp only
  split
  · exact hroot
  · omega

/-- A square on the root has room for all. -/
theorem le_ceilSqrt_mul_self : n ≤ ceilSqrt n * ceilSqrt n := by
  have hnext := Nat.lt_succ_sqrt n
  unfold ceilSqrt
  dsimp only
  split
  · omega
  · exact hnext.le

/-! ## §2 — rows and columns -/

variable {i j m : Nat}

/-- The numbers of a grid stay below its area. -/
theorem mul_add_lt (hi : i < m) (hj : j < n) : i * n + j < m * n := by
  have h := Nat.mul_le_mul_right n (show i + 1 ≤ m from hi)
  rw [Nat.succ_mul] at h
  omega

theorem mul_add_div (hj : j < n) : (i * n + j) / n = i := by
  rw [Nat.add_comm, Nat.add_mul_div_right _ _ (by omega), Nat.div_eq_of_lt hj, Nat.zero_add]

theorem mul_add_mod (hj : j < n) : (i * n + j) % n = j := by
  rw [Nat.add_comm, Nat.add_mul_mod_self_right, Nat.mod_eq_of_lt hj]

theorem div_mul_add_mod (k n : Nat) : k / n * n + k % n = k := by
  rw [Nat.mul_comm]
  exact Nat.div_add_mod k n

/-- **The rows of a grid**, one behind the other, are its numbers in order. -/
theorem flatMap_range_rows (m n : Nat) :
    ((List.range m).flatMap fun i => (List.range n).map fun j => i * n + j) = List.range (m * n) := by
  induction m with
  | zero => rw [Nat.zero_mul]; rfl
  | succ m ih =>
    rw [List.range_succ, List.flatMap_append, ih, List.flatMap_singleton, Nat.succ_mul,
      List.range_add]

/-- Walking a grid row by row is walking its numbers. -/
theorem flatMap_range_mul {α : Type} (m n : Nat) (f : Nat → List α) :
    ((List.range m).flatMap fun i => (List.range n).flatMap fun j => f (i * n + j)) =
      (List.range (m * n)).flatMap f := by
  rw [← flatMap_range_rows, List.flatMap_assoc]
  simp only [List.flatMap_map]

theorem map_range_mul {α : Type} (m n : Nat) (f : Nat → α) :
    ((List.range m).flatMap fun i => (List.range n).map fun j => f (i * n + j)) =
      (List.range (m * n)).map f := by
  rw [← flatMap_range_rows, List.map_flatMap]
  simp only [List.map_map]
  rfl

end TexelFlow.Size
