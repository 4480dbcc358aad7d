import TexelFlow.Size

/-!
# Element types and descriptors

A tensor is described by its shape and the type of its elements. Strings live on the host alone;
every other type can be widened to the elements of a texture.
-/

namespace TexelFlow

/-- Type of the elements of a tensor. -/
inductive DataType where
  /-- Binary32 words. -/
  | float32
  /-- Signed 32-bit integers. -/
  | int32
  /-- Truth values. -/
  | bool
  /-- Texts. -/
  | string
  deriving DecidableEq, Repr

namespace DataType

/-- The name of a type in documents and messages. -/
def name : DataType → String
  | .float32 => "float32"
  | .int32 => "int32"
  | .bool => "bool"
  | .string => "string"

/-- All types by name. -/
def byName : List (String × DataType) :=
  [("float32", .float32), ("int32", .int32), ("bool", .bool), ("string", .string)]

/-- Bytes of one stored element; strings carry their own length. -/
def byteSize : DataType → Option Nat
  | .float32 => some 4
  | .int32 => some 4
  | .bool => some 1
  | .string => none

/-- Whether values of a type can be stored in a texture. -/
def isNumeric : DataType → Bool
  | .string => false
  | _ => true

end DataType

/-- Shape and element type of a tensor. -/
structure Descriptor where
  /-- Extents, outermost first. -/
  shape : Shape
  /-- Type of the elements. -/
  dtype : DataType
  deriving DecidableEq

end TexelFlow
