import TexelFlow.Json.Draft

/-!
# Readers — drafts taken as typed data

A reader asks a draft for data of one type. Scalars of another type do not fit; a container of
another kind does not fit either, and nothing inside it is looked at. A record is an object whose
members are its fields in any order, or an array of its fields in their own order.

## §1 — scalars
## §2 — containers
## §3 — records
-/

namespace TexelFlow.Json

/-- A way to take a draft as an `α`. -/
abbrev Reader (α : Type) := Draft → Except Fault α

namespace Reader

/-! ## §1 — scalars -/

/-- The fault of a draft that is not of the type asked for. -/
def mismatch : Draft → Fault
  | .broken _ looked _ => looked
  | .number none => .malformed
  | .string none => .malformed
  | _ => .unfit

/-- The fault of a draft that is not of the container type asked for. -/
def containerMismatch : Draft → Fault
  | .buried _ => .malformed
  | d => mismatch d

/-- A truth value. -/
def bool : Reader Bool
  | .bool b => .ok b
  | d => .error (mismatch d)

/-- A text. -/
def string : Reader String
  | .string (some s) => .ok s
  | d => .error (mismatch d)

/-- A word: an integer written as such, not negative. -/
def natural : Reader Nat
  | .number (some (.natural n)) => .ok n
  | d => .error (mismatch d)

/-- A signed word: an integer written as such. -/
def integer : Reader Int
  | .number (some (.natural n)) => if n < Size.signedModulus then .ok n else .error .unfit
  | .number (some (.negative m)) => .ok (-m)
  | d => .error (mismatch d)

/-- A binary32 word: an integer is rounded once, any other number by way of binary64. -/
def real32 : Reader Binary32
  | .number (some (.natural n)) => .ok (.ofNat n)
  | .number (some (.negative m)) => .ok (.ofInt (-m))
  | .number (some (.real x)) => .ok x.toBinary32
  | .number (some (.single x)) => .ok x
  | d => .error (mismatch d)

/-- One of several names, given as a text, or as an object with that one name and a null. The first
character shows which of the two it is, so where another value begins nothing more is read. -/
def variant {α : Type} (names : List (String × α)) : Reader α
  | .string (some s) =>
    match Named.lookup s names with
    | some a => .ok a
    | none => .error .unfit
  | .broken .nothing looked _ => .error looked
  | .broken .text looked _ => .error looked
  | .object [] ending => do
    Draft.lookEnding ending
    .error .malformed
  | .object ((name, d) :: rest) ending => do
    let name ← Draft.demand name
    match Named.lookup name names, d, rest, ending with
    | none, _, _, _ => .error .unfit
    | some a, .null, [], .closed => .ok a
    | some _, .null, [], .broken looked _ afterComma =>
      .error (if afterComma then .malformed else looked)
    | some _, .null, _ :: _, _ => .error .malformed
    | some _, d, _, _ => .error (mismatch d)
  | _ => .error .malformed

/-! ## §2 — containers -/

/-- Null or an `α`. -/
def optional {α : Type} (r : Reader α) : Reader (Option α)
  | .null => .ok none
  | .broken .null looked _ => .error looked
  | d => (r d).map some

/-- A sequence. -/
def list {α : Type} (r : Reader α) : Reader (List α)
  | .array items ending => do
    let values ← items.mapM r
    Draft.lookEnding ending
    return values
  | d => .error (containerMismatch d)

/-- Values under names; of two members with one name the later one counts. -/
def named {α : Type} (r : Reader α) : Reader (Named α)
  | .object members ending => do
    let m ← members.foldlM (fun (m : Named α) (name, d) => do
      let name ← Draft.demand name
      return m.insert name (← r d)) Named.empty
    Draft.lookEnding ending
    return m
  | d => .error (containerMismatch d)

/-! ## §3 — records -/

/-- One field of a record that is being gathered in `σ`. -/
structure Field (σ : Type) where
  /-- Name of the member. -/
  name : String
  /-- Whether the field has been read. -/
  isSet : σ → Bool
  /-- Read the field. -/
  set : Draft → σ → Except Fault σ
  /-- Whether the field may be missing. -/
  mayMiss : Bool

/-- A field by its place in the gathered record. -/
def Field.of {σ β : Type} (name : String) (mayMiss : Bool) (r : Reader β) (get : σ → Option β)
    (put : σ → β → σ) : Field σ :=
  { name, mayMiss
    isSet := fun s => (get s).isSome
    set := fun d s => do return put s (← r d) }

/-- A field that must have been read. -/
def need {α : Type} : Option α → Except Fault α
  | some a => .ok a
  | none => .error .unfit

/-- Gather the fields of an array, in their order. -/
def gatherItems {σ : Type} (ending : Ending) : List (Field σ) → List Draft → σ → Except Fault σ
  | [], [], s =>
    match ending with
    | .closed => .ok s
    | .broken looked _ afterComma => .error (if afterComma then .malformed else looked)
  | [], _ :: _, _ => .error .malformed
  | f :: fields, d :: items, s => do gatherItems ending fields items (← f.set d s)
  | f :: fields, [], s => do
    Draft.lookEnding ending
    if f.mayMiss then gatherItems ending fields [] s else .error .unfit

/-- A record with the given fields. Members of other names are passed over, a field may not come
twice, and whether a field is missing is asked at the end. -/
def record {σ α : Type} (fields : List (Field σ)) (start : σ) (finish : σ → Except Fault α) :
    Reader α
  | .object members ending => do
    let s ← members.foldlM (fun s (name, d) => do
      let name ← Draft.demand name
      match fields.find? (·.name = name) with
      | some f => if f.isSet s then .error .unfit else f.set d s
      | none => do Draft.pass d; return s) start
    Draft.lookEnding ending
    finish s
  | .array items ending => do finish (← gatherItems ending fields items start)
  | d => .error (containerMismatch d)

end Reader

end TexelFlow.Json
