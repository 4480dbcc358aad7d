/-!
# Bytes as text

A byte sequence is a text when it is the UTF-8 form of one. Where it is not, the report names the
first byte of the character that cannot be read and how many bytes of it are wrong for certain; a
character that the end of the sequence cuts off has no such count.
-/

namespace TexelFlow.Utf8

/-- Why bytes are no text. -/
inductive Fault where
  /-- So many bytes from an index begin no character. -/
  | invalid (length index : Nat)
  /-- The character at an index is cut off. -/
  | incomplete (index : Nat)
  deriving DecidableEq, Repr

/-- Wording of a fault. -/
def Fault.message : Fault → String
  | .invalid n i => s!"invalid utf-8 sequence of {n} bytes from index {i}"
  | .incomplete i => s!"incomplete utf-8 byte sequence from index {i}"

/-- The bytes that may follow a leading byte, and how many more tails come after; none for a byte
that leads nothing. -/
def lead? (b : UInt8) : Option (UInt8 × UInt8 × Nat) :=
  if 0xc2 ≤ b && b ≤ 0xdf then some (0x80, 0xbf, 0)
  else if b = 0xe0 then some (0xa0, 0xbf, 1)
  else if b = 0xed then some (0x80, 0x9f, 1)
  else if 0xe1 ≤ b && b ≤ 0xef then some (0x80, 0xbf, 1)
  else if b = 0xf0 then some (0x90, 0xbf, 2)
  else if 0xf1 ≤ b && b ≤ 0xf3 then some (0x80, 0xbf, 2)
  else if b = 0xf4 then some (0x80, 0x8f, 2)
  else none

/-- Where the scan stands inside a character: the bounds of the next byte, the tails after it and the
bytes already read; none between characters. -/
abbrev Place := Option (UInt8 × UInt8 × Nat × Nat)

/-- The first fault of a byte sequence, from the index where the current character starts. -/
def fault? (place : Place) (start : Nat) : List UInt8 → Option Fault
  | [] =>
    match place with
    | none => none
    | some _ => some (.incomplete start)
  | b :: rest =>
    match place with
    | none =>
      if b < 0x80 then fault? none (start + 1) rest
      else
        match lead? b with
        | none => some (.invalid 1 start)
        | some (lo, hi, more) => fault? (some (lo, hi, more, 1)) start rest
    | some (lo, hi, more, seen) =>
      if lo ≤ b && b ≤ hi then
        match more with
        | 0 => fault? none (start + seen + 1) rest
        | more' + 1 => fault? (some (0x80, 0xbf, more', seen + 1)) start rest
      else some (.invalid seen start)

/-- The text of a byte sequence. -/
def decode (bytes : List UInt8) : Except Fault String :=
  match String.fromUTF8? ⟨bytes.toArray⟩ with
  | some s => .ok s
  | none => .error ((fault? none 0 bytes).getD (.incomplete 0))

/-- The bytes of a text. -/
def encode (s : String) : List UInt8 := s.toUTF8.toList

end TexelFlow.Utf8
