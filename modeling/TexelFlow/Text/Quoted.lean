import TexelFlow.Text.Hidden

/-!
# Quoted text and lists in messages

Messages show a list between brackets with a comma and a blank between its items; an item that is a
text stands between double quotes. Quotes, backslashes and the common control characters have short
escapes, every other hidden character is shown by its number.
-/

namespace TexelFlow.Text

/-- A character by its number. -/
def byNumber (c : Char) : List Char :=
  '\\' :: 'u' :: '\x7b' :: Nat.toDigits 16 c.toNat ++ ['\x7d']

/-- A character between double quotes. -/
def escape (c : Char) : List Char :=
  if c = '"' then ['\\', '"']
  else if c = '\\' then ['\\', '\\']
  else if c = '\n' then ['\\', 'n']
  else if c = '\t' then ['\\', 't']
  else if c = '\r' then ['\\', 'r']
  else if c.toNat = 0 then ['\\', '0']
  else if 32 ≤ c.toNat && c.toNat < 127 then [c]
  else if isHidden c then byNumber c
  else [c]

/-- A text between double quotes. -/
def quote (s : String) : String := String.ofList ('"' :: s.toList.flatMap escape ++ ['"'])

/-- A list of items that are already text. -/
def list (items : List String) : String := "[" ++ ", ".intercalate items ++ "]"

/-- A list of numbers. -/
def numbers (items : List Nat) : String := list (items.map toString)

/-- A list of integers. -/
def integers (items : List Int) : String := list (items.map toString)

/-- A list of texts. -/
def quotes (items : List String) : String := list (items.map quote)

end TexelFlow.Text
