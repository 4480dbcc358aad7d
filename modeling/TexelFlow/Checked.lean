import TexelFlow.Error

/-!
# Arithmetic that can overflow

Where a count, an extent or an offset is formed, a word has to hold it. A number that is too large for a word
is a breach, and so are one below zero and a request for more room than can be addressed.

A product of extents is formed from the left, factor by factor, so every product of leading extents has to
fit (`Shape.counted`), also where an extent of zero would bring it down again. Strides are formed from the
right (`Shape.strided`). Sums of products that say where an element stands are numbers: no sequence has more
elements than a word counts, so a place that no word holds is past the end of all of them.
-/

namespace TexelFlow

namespace Size

/-- A number, if a word holds it. -/
def fit (n : Nat) : Outcome Nat := if n < modulus then .ok n else .error (.breach .overflow)

/-- Sum. -/
def add (a b : Nat) : Outcome Nat := fit (a + b)

/-- Product. -/
def mul (a b : Nat) : Outcome Nat := fit (a * b)

/-- Difference, if it is not below zero. -/
def sub (a b : Nat) : Outcome Nat := if b ≤ a then .ok (a - b) else .error (.breach .underflow)

/-- Ask for room for so many items of so many bytes. -/
def reserve (count bytes : Nat) : Outcome Unit :=
  if addressable < count * bytes then .error (.breach .capacity) else .ok ()

variable {a b m n : Nat} {e : Error}

theorem fit_of_lt (h : n < modulus) : fit n = .ok n := if_pos h

theorem fit_of_le (h : modulus ≤ n) : fit n = .error (.breach .overflow) := if_neg (Nat.not_lt.mpr h)

theorem fit_eq_ok_iff : fit n = .ok m ↔ n < modulus ∧ n = m := by
  by_cases h : n < modulus
  · simp [fit_of_lt h, h]
  · simp [fit_of_le (Nat.not_lt.mp h), h]

theorem fit_eq_error_iff : fit n = .error e ↔ modulus ≤ n ∧ e = .breach .overflow := by
  by_cases h : n < modulus
  · simp [fit_of_lt h, Nat.not_le.mpr h]
  · simp [fit_of_le (Nat.not_lt.mp h), Nat.not_lt.mp h, eq_comm]

theorem add_eq_ok_iff : add a b = .ok n ↔ a + b < modulus ∧ a + b = n := fit_eq_ok_iff

theorem mul_eq_ok_iff : mul a b = .ok n ↔ a * b < modulus ∧ a * b = n := fit_eq_ok_iff

theorem mul_eq_error_iff : mul a b = .error e ↔ modulus ≤ a * b ∧ e = .breach .overflow :=
  fit_eq_error_iff

theorem sub_of_le (h : b ≤ a) : sub a b = .ok (a - b) := if_pos h

theorem sub_eq_ok_iff : sub a b = .ok n ↔ b ≤ a ∧ a - b = n := by
  by_cases h : b ≤ a
  · simp [sub_of_le h, h]
  · simp [sub, h]

theorem reserve_eq_ok_iff : reserve a b = .ok () ↔ a * b ≤ addressable := by
  by_cases h : addressable < a * b
  · simp [reserve, h]
  · simp [reserve, h, Nat.not_lt.mp h]

theorem reserve_eq_error_iff : reserve a b = .error e ↔ addressable < a * b ∧ e = .breach .capacity := by
  by_cases h : addressable < a * b
  · simp [reserve, h, eq_comm]
  · simp [reserve, h]

end Size

namespace Shape

/-- Number of elements, if words hold it and all products of leading extents. -/
def counted (shape : Shape) : Outcome Nat := shape.foldlM Size.mul 1

/-- Strides, if words hold them. -/
def strided (shape : Shape) : Outcome (List Nat) := shape.strides.mapM Size.fit

end Shape

end TexelFlow
