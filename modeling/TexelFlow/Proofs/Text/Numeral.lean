import TexelFlow.Size

/-!
# Numerals of words

A word is read from its decimal digits, one or more, with or without a plus sign in front. Zeros may lead, so a
word has many numerals, and the digits are the only limit: their value must be one that a word holds. The
reader adds digit by digit and refuses the first value that is too large, which is the same because values only
grow.

## Main statements

* `parse_eq_ok_iff` — a word is read exactly from its numerals.
* `numeral_toString` — its digits without leading zeros are one.
-/

namespace TexelFlow.Size

variable {digits text : List Char} {n value : Nat}

/-- Decimal digits of a word: what they are worth, the most significant one first, is `n`. -/
structure Digits (digits : List Char) (n : Nat) : Prop where
  /-- There is one. -/
  ne_nil : digits ≠ []
  /-- Nothing else stands among them. -/
  digit : ∀ c ∈ digits, c.isDigit
  /-- What they are worth. -/
  worth : Nat.ofDigitChars 10 digits 0 = n
  /-- A word holds it. -/
  fits : n < modulus

/-- The numerals of a word. -/
inductive Numeral : List Char → Nat → Prop
  /-- Digits alone. -/
  | unsigned {digits : List Char} {n : Nat} (h : Digits digits n) : Numeral digits n
  /-- Digits behind a plus sign. -/
  | signed {digits : List Char} {n : Nat} (h : Digits digits n) : Numeral ('+' :: digits) n

/-- Digits that follow make no number smaller. -/
theorem le_ofDigitChars (digits : List Char) (value : Nat) : value ≤ Nat.ofDigitChars 10 digits value := by
  rw [Nat.ofDigitChars_eq_ofDigitChars_zero]
  calc
    value ≤ 10 ^ digits.length * value := Nat.le_mul_of_pos_left _ (Nat.pow_pos (by decide))
    _ ≤ 10 ^ digits.length * value + Nat.ofDigitChars 10 digits 0 := Nat.le_add_right _ _

/-- **Digits are read** behind those that were read before when all of them are digits and a word holds what
they come to. -/
theorem readDigits_eq_ok_iff (hvalue : value < modulus) : readDigits digits value = .ok n ↔
    (∀ c ∈ digits, c.isDigit) ∧ Nat.ofDigitChars 10 digits value = n ∧ n < modulus := by
  induction digits generalizing value with
  | nil =>
    rw [readDigits, Nat.ofDigitChars_nil]
    constructor
    · intro h
      obtain rfl := Except.ok.inj h
      exact ⟨fun c hc => absurd hc List.not_mem_nil, rfl, hvalue⟩
    · rintro ⟨-, rfl, -⟩
      rfl
  | cons c rest ih =>
    have hstep : 10 * value + (c.toNat - '0'.toNat) = value * 10 + (c.toNat - 48) := by
      rw [Nat.mul_comm]
      rfl
    rw [readDigits, List.forall_mem_cons, Nat.ofDigitChars_cons, hstep]
    by_cases hc : c.isDigit = true
    · rw [if_neg (by simp [hc])]
      dsimp only
      split
      · rename_i hnext
        rw [ih hnext]
        simp only [hc, true_and]
      · -- what follows makes the number no smaller, so no word holds it in the end
        rename_i hnext
        have hle := le_ofDigitChars rest (value * 10 + (c.toNat - 48))
        constructor
        · intro h
          cases h
        · rintro ⟨-, rfl, hfits⟩
          omega
    · rw [if_pos (by simp [hc])]
      constructor
      · intro h
        cases h
      · rintro ⟨⟨hdigit, -⟩, -⟩
        exact absurd hdigit hc

theorem readDigits_eq_ok_iff_digits (hne : digits ≠ []) : readDigits digits 0 = .ok n ↔ Digits digits n := by
  rw [readDigits_eq_ok_iff (by decide)]
  constructor
  · rintro ⟨hdigit, hworth, hfits⟩
    exact ⟨hne, hdigit, hworth, hfits⟩
  · intro h
    exact ⟨h.digit, h.worth, h.fits⟩

theorem not_digits_plus : ¬ Digits ('+' :: digits) n := by
  intro h
  have := h.digit '+' List.mem_cons_self
  cases this

/-- A text that begins with a plus sign is a numeral if the rest of it are digits. -/
theorem numeral_plus_iff : Numeral ('+' :: digits) n ↔ Digits digits n := by
  constructor
  · intro h
    cases h with
    | unsigned h => exact absurd h not_digits_plus
    | signed h => exact h
  · exact .signed

/-- A text that begins otherwise is a numeral if it is digits. -/
theorem numeral_iff_digits (h : ∀ rest, text ≠ '+' :: rest) : Numeral text n ↔ Digits text n := by
  constructor
  · intro hn
    cases hn with
    | unsigned hn => exact hn
    | signed hn => exact absurd rfl (h _)
  · exact .unsigned

/-- **A word is read** exactly from its numerals. -/
theorem parse_eq_ok_iff {text : String} : parse text = .ok n ↔ Numeral text.toList n := by
  unfold parse
  split
  case h_1 htext =>
    rw [htext, numeral_iff_digits (by simp)]
    exact iff_of_false (by simp) fun h => h.ne_nil rfl
  case h_2 htext =>
    rw [htext, numeral_plus_iff]
    exact iff_of_false (by simp) fun h => h.ne_nil rfl
  case h_3 hne htext =>
    rw [htext, numeral_plus_iff]
    exact readDigits_eq_ok_iff_digits hne
  case h_4 hne _ hplus =>
    rw [numeral_iff_digits hplus]
    exact readDigits_eq_ok_iff_digits hne

/-- A numeral is made of digits and the plus sign. -/
theorem Numeral.not_mem {c : Char} (h : Numeral text n) (hdigit : c.isDigit = false) (hplus : c ≠ '+') :
    c ∉ text := by
  have hdigits : ∀ {digits : List Char}, Digits digits n → c ∉ digits := by
    intro digits h hmem
    have := h.digit c hmem
    rw [hdigit] at this
    cases this
  cases h with
  | unsigned h => exact hdigits h
  | signed h => exact List.not_mem_cons_of_ne_of_not_mem hplus (hdigits h)

/-- A word written in decimal is a numeral of it. -/
theorem numeral_toString (h : n < modulus) : Numeral (toString n).toList n := by
  rw [Nat.toString_eq_repr, Nat.toList_repr]
  exact .unsigned ⟨Nat.toDigits_ne_nil, fun c hc => Nat.isDigit_of_mem_toDigits (by decide) (by decide) hc,
    Nat.ofDigitChars_ten_toDigits, h⟩

end TexelFlow.Size
