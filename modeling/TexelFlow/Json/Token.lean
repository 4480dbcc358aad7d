import TexelFlow.Json.Numeral

/-!
# Tokens of a document

A document is cut into tokens up to the first place where no token can be made. A token that is
looked at must satisfy more than one that is passed over: the surrogates of a string have to pair up
and a number has to fit its format. So a broken token carries two faults, one for each use. It also
says what has begun where it breaks off, because some readers decide by the first character alone.
-/

namespace TexelFlow.Json

/-- What has begun where a text breaks off. -/
inductive Stub where
  /-- No value at all. -/
  | nothing
  /-- The null value. -/
  | null
  /-- A truth value or a number. -/
  | scalar
  /-- A string. -/
  | text
  deriving DecidableEq, Repr

/-- A token. -/
inductive Token where
  /-- An opening bracket. -/
  | openArray
  /-- A closing bracket. -/
  | closeArray
  /-- An opening brace. -/
  | openObject
  /-- A closing brace. -/
  | closeObject
  /-- A comma. -/
  | comma
  /-- A colon. -/
  | colon
  /-- The null value. -/
  | null
  /-- A truth value. -/
  | bool (b : Bool)
  /-- A number; none when it is out of range. -/
  | number (n : Option Number)
  /-- A string; none when its surrogates do not pair up. -/
  | string (s : Option String)
  /-- A string without an end. -/
  | brokenString (looked passed : Fault)
  /-- Anything else that is no token. -/
  | broken (stub : Stub) (looked passed : Fault)

namespace Token

/-- Blanks between tokens. -/
def isBlank (c : Char) : Bool := c = ' ' || c = '\n' || c = '\t' || c = '\r'

/-- The character after a backslash, other than `u`, by what it stands for. -/
def escaped? (c : Char) : Option Char :=
  if c = '"' || c = '\\' || c = '/' then some c
  else if c = 'b' then some (Char.ofNat 8)
  else if c = 'f' then some (Char.ofNat 12)
  else if c = 'n' then some '\n'
  else if c = 'r' then some '\r'
  else if c = 't' then some '\t'
  else none

/-- The value of a hexadecimal digit. -/
def hexValue? (c : Char) : Option Nat :=
  if '0' ≤ c && c ≤ '9' then some (c.toNat - 48)
  else if 'a' ≤ c && c ≤ 'f' then some (c.toNat - 87)
  else if 'A' ≤ c && c ≤ 'F' then some (c.toNat - 55)
  else none

/-- The code unit written by the next four characters. Fewer than four bytes are a text cut short. -/
def unit (cs : List Char) : Except Fault Nat :=
  if (cs.take 4).foldl (fun n c => n + c.utf8Size) 0 < 4 then .error .cutShort
  else
    match (cs.take 4).mapM hexValue? with
    | some [a, b, c, d] => .ok (((a * 16 + b) * 16 + c) * 16 + d)
    | _ => .error .malformed

/-- Whether a code unit is the first of a pair. -/
def isLead (n : Nat) : Bool := 0xd800 ≤ n && n ≤ 0xdbff

/-- Whether a code unit is the second of a pair. -/
def isTrail (n : Nat) : Bool := 0xdc00 ≤ n && n ≤ 0xdfff

/-- What follows the first code unit of a pair. -/
inductive Follower where
  /-- The second unit of the pair. -/
  | trail (n : Nat)
  /-- Something else. -/
  | other
  /-- The text ends before that is clear. -/
  | cut

/-- Look at what follows the first code unit of a pair. -/
def follower : List Char → Follower
  | [] => .cut
  | ['\\'] => .cut
  | '\\' :: 'u' :: hex =>
    match unit hex with
    | .ok n => if isTrail n then .trail n else .other
    | .error .cutShort => .cut
    | .error _ => .other
  | _ => .other

/-- The fault of literal text that differs from a word, or stops inside it. -/
def literalFault : List Char → List Char → Fault
  | _ :: _, [] => .cutShort
  | w :: word, c :: cs => if w = c then literalFault word cs else .malformed
  | [], _ => .malformed

/-- The rest of a text after a word. -/
def after? : List Char → List Char → Option (List Char)
  | [], cs => some cs
  | w :: word, c :: cs => if w = c then after? word cs else none
  | _ :: _, [] => none

theorem length_after {word cs rest : List Char} (h : after? word cs = some rest) :
    rest.length ≤ cs.length := by
  induction word generalizing cs with
  | nil => simp [after?] at h; simp [h]
  | cons w word ih =>
    cases cs with
    | nil => simp [after?] at h
    | cons c cs =>
      simp only [after?] at h
      split at h
      · exact Nat.le_succ_of_le (ih h)
      · cases h

/-- A broken numeral: a text cut short is noticed as such only when the number is looked at. -/
def numeralFault (rest : List Char) : Token :=
  if rest.isEmpty then .broken .scalar .cutShort .malformed else .broken .scalar .malformed .malformed

/-- The numeral at the start of a text, without its sign, and the number of characters it takes. -/
def numeral (minus : Bool) (cs : List Char) : Except Token (Numeral × Nat) :=
  let whole := cs.takeWhile Char.isDigit
  let cs₁ := cs.drop whole.length
  match whole with
  | [] => .error (numeralFault cs₁)
  | '0' :: _ :: _ => .error (.broken .scalar .malformed .malformed)
  | _ =>
    let fraction : Except Token (Option (List Char) × Nat) :=
      match cs₁ with
      | '.' :: cs₂ =>
        let digits := cs₂.takeWhile Char.isDigit
        if digits.isEmpty then .error (numeralFault cs₂) else .ok (some digits, digits.length + 1)
      | _ => .ok (none, 0)
    match fraction with
    | .error t => .error t
    | .ok (digits, taken) =>
      let taken := whole.length + taken
      let close : Except Token (Numeral × Nat) := .ok (⟨minus, whole, digits, none⟩, taken)
      let exponent (negative : Bool) (mark : Nat) (cs₄ : List Char) : Except Token (Numeral × Nat) :=
        let power := cs₄.takeWhile Char.isDigit
        if power.isEmpty then .error (numeralFault cs₄)
        else .ok (⟨minus, whole, digits, some (negative, power)⟩, taken + mark + power.length)
      match cs.drop taken with
      | e :: '+' :: cs₄ => if e = 'e' || e = 'E' then exponent false 2 cs₄ else close
      | e :: '-' :: cs₄ => if e = 'e' || e = 'E' then exponent true 2 cs₄ else close
      | e :: cs₄ => if e = 'e' || e = 'E' then exponent false 1 cs₄ else close
      | [] => close

/-- The literal that starts with a character, what has begun with it, and the rest of its word. -/
def keyword? (c : Char) : Option (Token × Stub × List Char) :=
  if c = 'n' then some (.null, .null, ['u', 'l', 'l'])
  else if c = 't' then some (.bool true, .scalar, ['r', 'u', 'e'])
  else if c = 'f' then some (.bool false, .scalar, ['a', 'l', 's', 'e'])
  else none

/-- Where the scan stands: between tokens, or inside a string with the characters so far, last one
first, and whether all its surrogates have paired up. -/
inductive Place where
  /-- Between tokens. -/
  | ground
  /-- Inside a string. -/
  | inside (text : List Char) (paired : Bool)

/-- Cut a text into tokens. The last token is a broken one if the text has a place where no token
can be made. -/
def scan (place : Place) (cs : List Char) : List Token :=
  match place, cs with
  | .ground, [] => []
  | .ground, c :: cs =>
    if isBlank c then scan .ground cs
    else if c = '[' then .openArray :: scan .ground cs
    else if c = ']' then .closeArray :: scan .ground cs
    else if c = '\x7b' then .openObject :: scan .ground cs
    else if c = '\x7d' then .closeObject :: scan .ground cs
    else if c = ',' then .comma :: scan .ground cs
    else if c = ':' then .colon :: scan .ground cs
    else if c = '"' then scan (.inside [] true) cs
    else if c = '-' then
      match numeral true cs with
      | .ok (n, taken) => .number n.value :: scan .ground (cs.drop taken)
      | .error t => [t]
    else if c.isDigit then
      match numeral false (c :: cs) with
      | .ok (n, taken) => .number n.value :: scan .ground (cs.drop (taken - 1))
      | .error t => [t]
    else
      match keyword? c with
      | none => [.broken .nothing .malformed .malformed]
      | some (token, stub, word) =>
        match h : after? word cs with
        | some rest =>
          have := length_after h
          token :: scan .ground rest
        | none => let f := literalFault word cs; [.broken stub f f]
  | .inside _ paired, [] => [.brokenString (if paired then .cutShort else .malformed) .cutShort]
  | .inside text paired, c :: cs =>
    let looked (f : Fault) : Fault := if paired then f else .malformed
    if c = '"' then
      .string (if paired then some (String.ofList text.reverse) else none) :: scan .ground cs
    else if c = '\\' then
      match cs with
      | [] => [.brokenString (looked .cutShort) .cutShort]
      | 'u' :: hex =>
        match unit hex with
        | .error f => [.brokenString (looked f) f]
        | .ok n =>
          if isLead n then
            match follower (hex.drop 4) with
            | .trail low =>
              let code := 0x10000 + (n - 0xd800) * 0x400 + (low - 0xdc00)
              scan (.inside (Char.ofNat code :: text) paired) (hex.drop 10)
            | .other => scan (.inside text false) (hex.drop 4)
            | .cut => [.brokenString (looked .cutShort) .cutShort]
          else if isTrail n then scan (.inside text false) (hex.drop 4)
          else scan (.inside (Char.ofNat n :: text) paired) (hex.drop 4)
      | e :: cs' =>
        match escaped? e with
        | some d => scan (.inside (d :: text) paired) cs'
        | none => [.brokenString .malformed .malformed]
    else if c.toNat < 32 then [.brokenString .malformed .malformed]
    else scan (.inside (c :: text) paired) cs
termination_by cs.length
decreasing_by all_goals simp_wf <;> omega

end Token

end TexelFlow.Json
