import TexelFlow.Json.Token

/-!
# Drafts — documents before they are looked at

A document is read for a purpose, in the order of its text, and the first thing that does not serve
the purpose is the fault: a member of the wrong type wins over a missing brace that follows it. So
the text is first put into a `Draft`, a tree that keeps order and repetitions and in which a fault of
the text is a leaf or the end of a container, to be met only by a reader that gets there. Members
nobody asks for are passed over, which overlooks numbers out of range and unpaired surrogates.

## §1 — drafts
## §2 — from text to draft
## §3 — passing over and taking as a value
-/

namespace TexelFlow.Json

/-! ## §1 — drafts -/

/-- How a container ends. -/
inductive Ending where
  /-- By its closing bracket. -/
  | closed
  /-- By a fault of the text, behind a comma or not; the faults of looking at it and of passing over
  it. -/
  | broken (looked passed : Fault) (afterComma : Bool)

/-- A document before it is looked at. -/
inductive Draft where
  /-- The null value. -/
  | null
  /-- A truth value. -/
  | bool (b : Bool)
  /-- A number; none when it is out of range. -/
  | number (n : Option Number)
  /-- A string; none when its surrogates do not pair up. -/
  | string (s : Option String)
  /-- An array up to its end. -/
  | array (items : List Draft) (ending : Ending)
  /-- An object up to its end. -/
  | object (members : List (Option String × Draft)) (ending : Ending)
  /-- No value: what has begun, and the faults of looking at it and of passing over it. -/
  | broken (stub : Stub) (looked passed : Fault)
  /-- A container nested too deep to be looked at. -/
  | buried (inner : Draft)

/-- Containers may be nested less deep than this to be looked at. -/
def depthLimit : Nat := 128

/-! ## §2 — from text to draft -/

namespace Draft

/-- A container that is not closed yet, its parts in reverse order. -/
inductive Frame where
  /-- An array. -/
  | array (items : List Draft)
  /-- An object, with the name of the member that is under way. -/
  | object (members : List (Option String × Draft)) (name : Option String)

/-- What the text has to go on with. -/
inductive Want where
  /-- A value. -/
  | value
  /-- A value behind a comma, or the end of the array where there is no comma. -/
  | item (afterComma : Bool)
  /-- A name behind a comma, or the end of the object where there is no comma. -/
  | name (afterComma : Bool)
  /-- The colon behind a name. -/
  | colon
  /-- A comma or the end of the container. -/
  | more
  /-- Nothing. -/
  | nothing

/-- The draft of a container nested inside `outer` others. -/
def atDepth (outer : Nat) (d : Draft) : Draft := if depthLimit ≤ outer + 1 then .buried d else d

/-- Put a finished value into the container around it. -/
def Frame.put (d : Draft) : Frame → Frame
  | .array items => .array (d :: items)
  | .object members name => .object ((name, d) :: members) none

/-- Finish a container. -/
def Frame.finish (ending : Ending) : Frame → Draft
  | .array items => .array items.reverse ending
  | .object members _ => .object members.reverse ending

/-- Finish all containers around a value after which nothing can be read. -/
def collapse (d : Draft) : List Frame → Draft
  | [] => d
  | frame :: outer =>
    collapse (atDepth outer.length ((frame.put d).finish (.broken .malformed .malformed false))) outer

/-- Finish a container by a fault, then all containers around it. -/
def breakOff (looked passed : Fault) (afterComma : Bool) : List Frame → Draft
  | [] => .broken .nothing looked passed
  | frame :: outer =>
    collapse (atDepth outer.length (frame.finish (.broken looked passed afterComma))) outer

/-- A value that cannot begin with a token. -/
def misplaced : Draft := .broken .nothing .malformed .malformed

/-- The draft of a sequence of tokens: the containers under way, what is wanted next, and the value
so far. -/
def assemble (stack : List Frame) (want : Want) (done : Draft) : List Token → Draft × Bool
  | [] =>
    match want with
    | .nothing => (done, true)
    | .value => (collapse (.broken .nothing .cutShort .cutShort) stack, true)
    | .colon => (collapse (.broken .nothing .cutShort .cutShort) stack, true)
    | .item comma => (breakOff .cutShort .cutShort comma stack, true)
    | .name comma => (breakOff .cutShort .cutShort comma stack, true)
    | .more => (breakOff .cutShort .cutShort false stack, true)
  | token :: rest =>
    let put (d : Draft) : Draft × Bool :=
      match stack with
      | [] => assemble [] .nothing d rest
      | frame :: outer => assemble (frame.put d :: outer) .more d rest
    let close (frame : Frame) (outer : List Frame) : Draft × Bool :=
      let d := atDepth outer.length (frame.finish .closed)
      match outer with
      | [] => assemble [] .nothing d rest
      | next :: outer' => assemble (next.put d :: outer') .more d rest
    let value (afterComma : Bool) (inArray : Bool) : Draft × Bool :=
      match token with
      | .null => put .null
      | .bool b => put (.bool b)
      | .number n => put (.number n)
      | .string s => put (.string s)
      | .openArray => assemble (.array [] :: stack) (.item false) done rest
      | .openObject => assemble (.object [] none :: stack) (.name false) done rest
      | .broken stub looked passed => (collapse (.broken stub looked passed) stack, true)
      | .brokenString looked passed => (collapse (.broken .text looked passed) stack, true)
      | .closeArray =>
        if inArray && afterComma then (breakOff .malformed .malformed true stack, true)
        else (collapse misplaced stack, true)
      | .closeObject => (collapse misplaced stack, true)
      | .comma => (collapse misplaced stack, true)
      | .colon => (collapse misplaced stack, true)
    match want with
    | .nothing => (done, false)
    | .value => value false false
    | .item afterComma =>
      match afterComma, token, stack with
      | false, .closeArray, frame :: outer => close frame outer
      | _, _, _ => value afterComma true
    | .name afterComma =>
      match token, stack with
      | .string s, .object members _ :: outer =>
        assemble (.object members s :: outer) .colon done rest
      | .brokenString looked passed, _ => (breakOff looked passed afterComma stack, true)
      | .closeObject, frame :: outer =>
        if afterComma then (breakOff .malformed .malformed true stack, true) else close frame outer
      | _, _ => (breakOff .malformed .malformed afterComma stack, true)
    | .colon =>
      match token with
      | .colon => assemble stack .value done rest
      | _ => (collapse misplaced stack, true)
    | .more =>
      match token, stack with
      | .comma, .array items :: outer => assemble (.array items :: outer) (.item true) done rest
      | .comma, .object members name :: outer =>
        assemble (.object members name :: outer) (.name true) done rest
      | .closeArray, .array items :: outer => close (.array items) outer
      | .closeObject, .object members name :: outer => close (.object members name) outer
      | _, _ => (breakOff .malformed .malformed false stack, true)

/-- The draft of a text, and whether the text ends with it. -/
def ofText (text : String) : Draft × Bool :=
  assemble [] .value (.broken .nothing .cutShort .cutShort) (Token.scan .ground text.toList)

/-! ## §3 — passing over and taking as a value -/

/-- Pass over the end of a container. -/
def passEnding : Ending → Except Fault Unit
  | .closed => .ok ()
  | .broken _ passed _ => .error passed

/-- Look at the end of a container. -/
def lookEnding : Ending → Except Fault Unit
  | .closed => .ok ()
  | .broken looked _ _ => .error looked

mutual

/-- Pass over a value. -/
def pass : Draft → Except Fault Unit
  | .null => .ok ()
  | .bool _ => .ok ()
  | .number _ => .ok ()
  | .string _ => .ok ()
  | .array items ending => do passItems items; passEnding ending
  | .object members ending => do passMembers members; passEnding ending
  | .broken _ _ passed => .error passed
  | .buried inner => pass inner

/-- Pass over the items of an array. -/
def passItems : List Draft → Except Fault Unit
  | [] => .ok ()
  | d :: rest => do pass d; passItems rest

/-- Pass over the members of an object. -/
def passMembers : List (Option String × Draft) → Except Fault Unit
  | [] => .ok ()
  | (_, d) :: rest => do pass d; passMembers rest

end

/-- A part that must be there to be looked at. -/
def demand {α : Type} : Option α → Except Fault α
  | some a => .ok a
  | none => .error .malformed

mutual

/-- Take a draft as a value. -/
def value : Draft → Except Fault Json
  | .null => .ok .null
  | .bool b => .ok (.bool b)
  | .number n => do return .number (← demand n)
  | .string s => do return .string (← demand s)
  | .array items ending => do
    let values ← valueItems items
    lookEnding ending
    return .array values
  | .object members ending => do
    let values ← valueMembers members
    lookEnding ending
    return .object (Named.ofList values).entries
  | .broken _ looked _ => .error looked
  | .buried _ => .error .malformed

/-- Take the items of an array as values. -/
def valueItems : List Draft → Except Fault (List Json)
  | [] => .ok []
  | d :: rest => do return (← value d) :: (← valueItems rest)

/-- Take the members of an object as values. -/
def valueMembers : List (Option String × Draft) → Except Fault (List (String × Json))
  | [] => .ok []
  | (name, d) :: rest => do
    let name ← demand name
    let j ← value d
    return (name, j) :: (← valueMembers rest)

end

end Draft

/-- Read a whole document for a purpose. -/
def read {α : Type} (reader : Draft → Except Fault α) (text : String) : Except Fault α := do
  let (draft, whole) := Draft.ofText text
  let a ← reader draft
  if whole then return a else .error .malformed

/-- Read a whole document as a value. -/
def parse (text : String) : Except Fault Json := read Draft.value text

end TexelFlow.Json
