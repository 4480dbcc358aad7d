import TexelFlow.Checked

/-!
# Tensors

A tensor is a shape and its elements in row-major order. That the elements fill the shape is part of
the type, so a tensor can only be made where it was checked (`Tensor.make`), and reading an element
within the shape needs no test of its own.
-/

namespace TexelFlow

/-- The elements of a tensor, in row-major order. -/
inductive TensorData where
  /-- Binary32 words. -/
  | float32 (values : List Binary32)
  /-- Signed 32-bit integers. -/
  | int32 (values : List Int32)
  /-- Truth values. -/
  | bool (values : List Bool)
  /-- Texts. -/
  | string (values : List String)
  deriving DecidableEq

namespace TensorData

/-- Number of elements. -/
def length : TensorData → Nat
  | .float32 v => v.length
  | .int32 v => v.length
  | .bool v => v.length
  | .string v => v.length

/-- Type of the elements. -/
def dtype : TensorData → DataType
  | .float32 _ => .float32
  | .int32 _ => .int32
  | .bool _ => .bool
  | .string _ => .string

/-- A truth value as a number. -/
def ofBool (b : Bool) : Binary32 := if b then .one else .zero

/-- Numeric elements widened to the elements of a texture; texts have no such form. -/
def widened : TensorData → Option (List Binary32)
  | .float32 v => some v
  | .int32 v => some (v.map fun n => .ofInt n.toInt)
  | .bool v => some (v.map ofBool)
  | .string _ => none

end TensorData

/-- Bytes that the room for one element takes where elements are numbers. -/
def elementRoom : Nat := 4

/-- A tensor. -/
structure Tensor where
  /-- Extents, outermost first. -/
  shape : Shape
  /-- Elements in row-major order. -/
  data : TensorData
  /-- The elements fill the shape, as it is counted. -/
  filled : shape.counted = .ok data.length
  deriving DecidableEq

namespace Tensor

/-- A tensor of a shape and elements, if the elements fill the shape. -/
def make (name : String) (shape : Shape) (data : TensorData) : Outcome Tensor :=
  match h : shape.counted with
  | .error e => .error e
  | .ok expected =>
    if hlength : data.length = expected then .ok ⟨shape, data, h.trans (congrArg Except.ok hlength.symm)⟩
    else .error (.mismatch name shape expected data.length)

theorem make_eq_ok_iff {name : String} {shape : Shape} {data : TensorData} {t : Tensor} :
    make name shape data = .ok t ↔ t.shape = shape ∧ t.data = data := by
  constructor
  · unfold make
    intro h
    split at h
    · cases h
    · split at h
      · cases h
        exact ⟨rfl, rfl⟩
      · cases h
  · rintro ⟨rfl, rfl⟩
    unfold make
    split
    · rename_i h
      rw [t.filled] at h
      cases h
    · rename_i expected h
      obtain rfl := Except.ok.inj (t.filled.symm.trans h)
      exact dif_pos rfl

/-- Type of the elements. -/
def dtype (t : Tensor) : DataType := t.data.dtype

/-- Shape and type. -/
def descriptor (t : Tensor) : Descriptor := ⟨t.shape, t.dtype⟩

/-- Number of elements. -/
def count (t : Tensor) : Nat := t.shape.count

/-- Numeric elements widened to the elements of a texture. -/
def widened (t : Tensor) : Option (List Binary32) := t.data.widened

/-- The elements under another shape of the same count. -/
def reshape (t : Tensor) (name : String) (shape : Shape) : Outcome Tensor := make name shape t.data

end Tensor

/-- Tensors by name. -/
abbrev Tensors := Named Tensor

end TexelFlow
