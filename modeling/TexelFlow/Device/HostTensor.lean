import TexelFlow.Tensor.Basic

/-!
# Host tensors

What is exchanged with a device: tensors of binary32 words or of signed integers. They are also read
from nested arrays, whose nesting gives the shape, and written as such.

## §1 — host tensors
## §2 — tensors and readbacks
## §3 — nested arrays
-/

namespace TexelFlow

/-! ## §1 — host tensors -/

/-- The elements of a host tensor, in row-major order. -/
inductive HostData where
  /-- Binary32 words. -/
  | float32 (values : List Binary32)
  /-- Signed 32-bit integers. -/
  | int32 (values : List Int32)
  deriving DecidableEq

namespace HostData

/-- Number of elements. -/
def length : HostData → Nat
  | .float32 v => v.length
  | .int32 v => v.length

/-- Type of the elements. -/
def dtype : HostData → DataType
  | .float32 _ => .float32
  | .int32 _ => .int32

/-- The elements as those of a tensor. -/
def toTensorData : HostData → TensorData
  | .float32 v => .float32 v
  | .int32 v => .int32 v

end HostData

/-- A tensor that is exchanged with a device. -/
structure HostTensor where
  /-- Extents, outermost first. -/
  shape : Shape
  /-- Elements in row-major order. -/
  data : HostData
  /-- The elements fill the shape, as it is counted. -/
  filled : shape.counted = .ok data.length
  deriving DecidableEq

namespace HostTensor

/-- A host tensor of a shape and elements, if the elements fill the shape. -/
def make (shape : Shape) (data : HostData) : Outcome HostTensor :=
  match h : shape.counted with
  | .error e => .error e
  | .ok expected =>
    if hlength : data.length = expected then .ok ⟨shape, data, h.trans (congrArg Except.ok hlength.symm)⟩
    else .error (.tensor (.length data.length shape expected))

theorem make_eq_ok_iff {shape : Shape} {data : HostData} {t : HostTensor} :
    make shape data = .ok t ↔ t.shape = shape ∧ t.data = data := by
  constructor
  · unfold make
    intro h
    split at h
    · cases h
    · split at h
      · cases h
        exact ⟨rfl, rfl⟩
      · cases h
  · rintro ⟨rfl, rfl⟩
    unfold make
    split
    · rename_i h
      rw [t.filled] at h
      cases h
    · rename_i expected h
      obtain rfl := Except.ok.inj (t.filled.symm.trans h)
      exact dif_pos rfl

/-- Type of the elements. -/
def dtype (t : HostTensor) : DataType := t.data.dtype

/-- Number of elements. -/
def count (t : HostTensor) : Nat := t.shape.count

/-- The elements, if they are binary32 words. -/
def floats (t : HostTensor) : Outcome (List Binary32) :=
  match t.data with
  | .float32 v => .ok v
  | .int32 _ => .error (.tensor (.elementType .int32 .float32))

/-- The elements, if they are signed integers. -/
def integers (t : HostTensor) : Outcome (List Int32) :=
  match t.data with
  | .int32 v => .ok v
  | .float32 _ => .error (.tensor (.elementType .float32 .int32))

/-- The elements as binary32 words. -/
def widened (t : HostTensor) : List Binary32 :=
  match t.data with
  | .float32 v => v
  | .int32 v => v.map fun n => .ofInt n.toInt

/-! ## §2 — tensors and readbacks -/

/-- The tensor with the same elements. -/
def toTensor (t : HostTensor) (name : String) : Outcome Tensor :=
  Tensor.make name t.shape t.data.toTensorData

/-- Tensors under names; of two with one name the later one counts. -/
def toTensors (inputs : List (String × HostTensor)) : Outcome Tensors := do
  return .ofList (← inputs.mapM fun (name, t) => do return (name, ← t.toTensor name))

/-- The host tensor with the same elements, for the types that are exchanged. -/
def ofTensor (t : Tensor) : Outcome HostTensor :=
  match t.data with
  | .float32 v => make t.shape (.float32 v)
  | .int32 v => make t.shape (.int32 v)
  | .bool _ => .error (.tensor (.notExchanged .bool))
  | .string _ => .error (.tensor (.notExchanged .string))

/-- The host tensor of values read back from a texture. Integers are rounded, truth values stay
numbers. -/
def ofReadback (values : List Binary32) (d : Descriptor) : Outcome HostTensor :=
  match d.dtype with
  | .int32 => make d.shape (.int32 (values.map fun x => x.round.toInt32))
  | .float32 => make d.shape (.float32 values)
  | .bool => make d.shape (.float32 values)
  | .string => .error (.tensor .readStrings)

/-! ## §3 — nested arrays -/

/-- The shape that the first items of nested arrays give. -/
def leadingShape : Json → Shape
  | .array [] => [0]
  | .array (first :: rest) => (rest.length + 1) :: leadingShape first
  | _ => []

mutual

/-- The numbers of nested arrays of a shape. -/
def leaves (shape : Shape) : Json → Outcome (List Binary32)
  | .number n =>
    match shape with
    | [] => .ok [n.toBinary64.toBinary32]
    | _ :: _ => .error (.tensor (.notNumeric (Json.number n).compact))
  | .array items =>
    match shape with
    | [] => .error (.tensor (.notNumeric (Json.array items).compact))
    | extent :: rest =>
      if items.length = extent then leavesOfItems rest items
      else .error (.tensor (.ragged extent items.length))
  | .null => .error (.tensor (.notNumeric Json.null.compact))
  | .bool b => .error (.tensor (.notNumeric (Json.bool b).compact))
  | .string s => .error (.tensor (.notNumeric (Json.string s).compact))
  | .object members => .error (.tensor (.notNumeric (Json.object members).compact))

/-- The numbers of the items of an array, each of a shape. -/
def leavesOfItems (shape : Shape) : List Json → Outcome (List Binary32)
  | [] => .ok []
  | item :: rest => do return (← leaves shape item) ++ (← leavesOfItems shape rest)

end

/-- **Read** nested arrays of numbers. Room for as many as the leading shape counts is made before any of
them is read. -/
def ofNested (j : Json) : Outcome HostTensor := do
  let shape := leadingShape j
  Size.reserve (← shape.counted) elementRoom
  make shape (.float32 (← leaves shape j))

/-- Cut a list into pieces of a length, the last one maybe shorter. -/
def pieces {α : Type} (length : Nat) (items : List α) : List (List α) :=
  match items with
  | [] => []
  | a :: rest =>
    if length = 0 then []
    else (a :: rest).take length :: pieces length ((a :: rest).drop length)
termination_by items.length
decreasing_by simp; omega

/-- Nest values along a shape. -/
def nest (values : List Json) : Shape → Outcome Json
  | [] => .ok (values.headD .null)
  | [_] => .ok (.array values)
  | _ :: rest => do
    let row ← Shape.counted rest
    return .array (← (pieces row values).mapM fun piece => nest piece rest)

/-- A real in a document; one that is not finite is null. -/
def jsonOfReal (x : Binary32) : Json :=
  if x.isFinite then .number (.real x.toBinary64) else .null

/-- **Write** nested arrays of the elements along the shape. -/
def toNested (t : HostTensor) : Outcome Json :=
  match t.data with
  | .float32 v => nest (v.map jsonOfReal) t.shape
  | .int32 v => nest (v.map fun n => Json.int n.toInt) t.shape

end HostTensor

end TexelFlow
