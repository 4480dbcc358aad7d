/-!
# Pieces of a text

A text is cut at every occurrence of a separator; joining the pieces gives it back. Blanks at the two
ends of a piece may be taken away.
-/

namespace TexelFlow.Text

/-- The pieces of a text between separators. -/
def pieces (separator : Char) : List Char → List (List Char)
  | [] => [[]]
  | c :: rest =>
    if c = separator then [] :: pieces separator rest
    else
      match pieces separator rest with
      | [] => [[c]]
      | piece :: others => (c :: piece) :: others

/-- Pieces with a separator between them. -/
def join (separator : Char) : List (List Char) → List Char
  | [] => []
  | [piece] => piece
  | piece :: others => piece ++ separator :: join separator others

theorem pieces_ne_nil (separator : Char) (text : List Char) : pieces separator text ≠ [] := by
  cases text with
  | nil => simp [pieces]
  | cons c rest =>
    simp only [pieces]
    split
    · simp
    · split <;> simp

/-- Joining the pieces of a text gives it back. -/
theorem join_pieces (separator : Char) (text : List Char) :
    join separator (pieces separator text) = text := by
  induction text with
  | nil => rfl
  | cons c rest ih =>
    have hne := pieces_ne_nil separator rest
    simp only [pieces]
    split
    · rename_i h
      cases hp : pieces separator rest with
      | nil => exact absurd hp hne
      | cons piece others => simp [join, ← hp, ih, h]
    · cases hp : pieces separator rest with
      | nil => exact absurd hp hne
      | cons piece others =>
        cases others with
        | nil => simpa [join, hp] using ih
        | cons second more => simpa [join, hp] using ih

/-- A line without the return that belongs to its line break. -/
def dropReturn (line : List Char) : List Char :=
  if line.getLast? = some '\r' then line.dropLast else line

/-- The lines of a text. A line break may have a return in front of it, and the last line may or may
not end with a line break; a return at its end is part of it if there is none. -/
def lines (text : String) : List String :=
  let all := pieces '\n' text.toList
  let ended := all.dropLast.map dropReturn
  match all.getLast? with
  | none => []
  | some [] => ended.map String.ofList
  | some last => (ended ++ [last]).map String.ofList

/-- Ranges of the characters with the property of white space. -/
def blankRanges : List (Nat × Nat) :=
  [(0x9, 0xd), (0x20, 0x20), (0x85, 0x85), (0xa0, 0xa0), (0x1680, 0x1680), (0x2000, 0x200a),
   (0x2028, 0x2029), (0x202f, 0x202f), (0x205f, 0x205f), (0x3000, 0x3000)]

/-- Whether a character is a blank. -/
def isBlank (c : Char) : Bool := blankRanges.any fun (lo, hi) => lo ≤ c.toNat && c.toNat ≤ hi

/-- A text without the blanks at its ends. -/
def trim (text : List Char) : List Char :=
  ((text.dropWhile isBlank).reverse.dropWhile isBlank).reverse

end TexelFlow.Text
