import TexelFlow.Text.Pieces
import Mathlib.Data.List.DropRight

/-!
# Pieces found again

A text determines its pieces: they are the only texts without a separator that are joined to it. There is one
more of them than separators, and the last one is what stands behind the last separator.

## Main statements

* `pieces_eq_iff` — the pieces of a text are what it is joined from.
* `length_pieces` — how many there are.
-/

namespace TexelFlow.Text

variable {separator : Char} {piece text : List Char} {ps : List (List Char)}

theorem pieces_of_not_mem (h : separator ∉ piece) : pieces separator piece = [piece] := by
  induction piece with
  | nil => rfl
  | cons c rest ih =>
    obtain ⟨hc, hrest⟩ := List.ne_and_not_mem_of_not_mem_cons h
    rw [pieces, if_neg hc.symm, ih hrest]

theorem pieces_append (h : separator ∉ piece) :
    pieces separator (piece ++ separator :: text) = piece :: pieces separator text := by
  induction piece with
  | nil => rw [List.nil_append, pieces, if_pos rfl]
  | cons c rest ih =>
    obtain ⟨hc, hrest⟩ := List.ne_and_not_mem_of_not_mem_cons h
    rw [List.cons_append, pieces, if_neg hc.symm, ih hrest]

/-- Pieces do not contain what they are cut at. -/
theorem not_mem_of_mem_pieces (h : piece ∈ pieces separator text) : separator ∉ piece := by
  induction text generalizing piece with
  | nil =>
    obtain rfl := List.mem_singleton.mp h
    exact List.not_mem_nil
  | cons c rest ih =>
    rw [pieces] at h
    split at h
    · rcases List.mem_cons.mp h with rfl | h
      · exact List.not_mem_nil
      · exact ih h
    · rename_i hc
      split at h
      · obtain rfl := List.mem_singleton.mp h
        exact fun hmem => hc (List.mem_singleton.mp hmem).symm
      · rename_i first others hpieces
        rw [hpieces] at ih
        rcases List.mem_cons.mp h with rfl | h
        · have := ih List.mem_cons_self
          simp [this, Ne.symm hc]
        · exact ih (List.mem_cons_of_mem _ h)

theorem join_cons_cons (first second : List Char) (others : List (List Char)) :
    join separator (first :: second :: others) = first ++ separator :: join separator (second :: others) :=
  rfl

theorem join_eq_intercalate (separator : Char) (ps : List (List Char)) :
    join separator ps = [separator].intercalate ps := by
  induction ps with
  | nil => rfl
  | cons first rest ih =>
    cases rest with
    | nil => exact List.intercalate_singleton.symm
    | cons second others => rw [join_cons_cons, ih, List.intercalate_cons_cons, List.append_assoc,
        List.singleton_append]

/-- **Pieces are found again** in what they are joined to. -/
theorem pieces_join (h : ∀ piece ∈ ps, separator ∉ piece) (hne : ps ≠ []) :
    pieces separator (join separator ps) = ps := by
  induction ps with
  | nil => exact absurd rfl hne
  | cons first rest ih =>
    obtain ⟨hfirst, hrest⟩ := List.forall_mem_cons.mp h
    cases rest with
    | nil => exact pieces_of_not_mem hfirst
    | cons second others =>
      rw [join_cons_cons, pieces_append hfirst, ih hrest (List.cons_ne_nil _ _)]

/-- **The pieces of a text** are the texts without a separator that are joined to it. -/
theorem pieces_eq_iff :
    pieces separator text = ps ↔ ps ≠ [] ∧ (∀ piece ∈ ps, separator ∉ piece) ∧ join separator ps = text := by
  constructor
  · rintro rfl
    exact ⟨pieces_ne_nil _ _, fun _ => not_mem_of_mem_pieces, join_pieces _ _⟩
  · rintro ⟨hne, hplain, rfl⟩
    exact pieces_join hplain hne

/-- There is one more piece than separators. -/
theorem length_pieces (separator : Char) (text : List Char) :
    (pieces separator text).length = text.count separator + 1 := by
  induction text with
  | nil => rfl
  | cons c rest ih =>
    rw [pieces]
    split
    · rename_i hc
      rw [List.length_cons, ih, hc, List.count_cons_self]
    · rename_i hc
      rw [List.count_cons_of_ne hc, ← ih]
      split
      · rename_i hpieces
        exact absurd hpieces (pieces_ne_nil _ _)
      · rename_i hpieces
        rw [hpieces, List.length_cons, List.length_cons]

/-- What stands behind the last separator. -/
theorem rtakeWhile_append (text : List Char) (h : separator ∉ piece) :
    (text ++ separator :: piece).rtakeWhile (· ≠ separator) = piece := by
  have hplain : ∀ c ∈ piece.reverse, decide (c ≠ separator) = true := by
    intro c hc
    exact decide_eq_true fun heq => h (heq ▸ List.mem_reverse.mp hc)
  rw [List.rtakeWhile, List.reverse_append, List.reverse_cons, List.append_assoc, List.singleton_append,
    List.takeWhile_append_of_pos hplain, List.takeWhile_cons_of_neg (by simp), List.append_nil,
    List.reverse_reverse]

/-- The last piece stands behind a separator. -/
theorem join_append_singleton (hne : ps ≠ []) (piece : List Char) :
    join separator (ps ++ [piece]) = join separator ps ++ separator :: piece := by
  induction ps with
  | nil => exact absurd rfl hne
  | cons first rest ih =>
    cases rest with
    | nil => rfl
    | cons second others =>
      have ih := ih (List.cons_ne_nil _ _)
      rw [List.cons_append] at ih
      rw [List.cons_append, List.cons_append, join_cons_cons, ih, join_cons_cons, List.append_assoc,
        List.cons_append]

/-- What pieces are joined to ends as the last piece does. -/
theorem getLast?_join (hne : piece ≠ []) :
    (join separator (ps ++ [piece])).getLast? = piece.getLast? := by
  cases ps with
  | nil => rfl
  | cons first rest =>
    rw [join_append_singleton (List.cons_ne_nil _ _), List.append_cons, List.getLast?_append_of_ne_nil _ hne]

end TexelFlow.Text
