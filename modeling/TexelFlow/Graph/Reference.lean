import TexelFlow.Error
import TexelFlow.Text.Pieces

/-!
# Node references

A node names what it reads by a reference: the node alone, the node and the index of an output, or
the node, the name of an output and its index, with colons between the parts. The first output is
meant where no index is given.

A `Memo` remembers the references of one build. It holds only what reading gives, so asking it is the
same as reading.
-/

namespace TexelFlow

/-- One output of a node. -/
structure Reference where
  /-- The node. -/
  node : String
  /-- Index of the output. -/
  index : Nat
  /-- Name of the output, where one is given. -/
  output : Option String
  deriving DecidableEq, Repr

namespace Reference

/-- The first output of a node. -/
def first (node : String) : Reference := ⟨node, 0, none⟩

/-- Read the index part of a reference. -/
def readIndex (text : String) (index : List Char) : Outcome Nat :=
  match Size.parse (String.ofList index) with
  | .ok n => .ok n
  | .error _ => .error (.graph (.badReference text .index))

/-- Read a reference. -/
def parse (text : String) : Outcome Reference :=
  match Text.pieces ':' text.toList with
  | [node] => .ok (first (String.ofList node))
  | [node, index] => do return ⟨String.ofList node, ← readIndex text index, none⟩
  | [node, output, index] => do
    return ⟨String.ofList node, ← readIndex text index, some (String.ofList output)⟩
  | _ => .error (.graph (.badReference text .parts))

/-- Text of a reference. -/
def print (r : Reference) : String :=
  match r.output with
  | some output => r.node ++ ":" ++ output ++ ":" ++ toString r.index
  | none => r.node ++ ":" ++ toString r.index

/-- References that were read before, by their text. -/
structure Memo where
  /-- What was read. -/
  known : Named Reference
  /-- It is what reading gives. -/
  faithful : ∀ text r, known.find? text = some r → parse text = .ok r

namespace Memo

/-- Nothing was read yet. -/
def empty : Memo := ⟨.empty, by simp⟩

/-- Number of references read. -/
def size (m : Memo) : Nat := m.known.size

/-- Read a reference through the memo. What cannot be read is not remembered. -/
def parse (m : Memo) (text : String) : Outcome Reference × Memo :=
  match m.known.find? text with
  | some r => (.ok r, m)
  | none =>
    match h : Reference.parse text with
    | .error e => (.error e, m)
    | .ok r =>
      (.ok r, ⟨m.known.insert text r, by
        intro key s hs
        by_cases hk : text = key
        · subst hk
          simp at hs
          exact hs ▸ h
        · simp [hk] at hs
          exact m.faithful key s hs⟩)

/-- Asking the memo is the same as reading. -/
theorem parse_fst (m : Memo) (text : String) : (m.parse text).1 = Reference.parse text := by
  unfold Memo.parse
  split
  · rename_i r h
    exact (m.faithful text r h).symm
  · split <;> simp [*]

end Memo

end Reference

end TexelFlow
