import TexelFlow.Tensor.Basic
import TexelFlow.Json.Reader

/-!
# Weight entries

The manifest lists the weights in the order of their bytes. An entry gives name, type and shape, and
how the elements are stored if that is not by their own type: as small integers on an affine scale,
or in half precision.
-/

namespace TexelFlow.Weight

open Json (Reader Fault)

/-- How quantized elements are stored. -/
inductive Storage where
  /-- One byte on an affine scale. -/
  | uint8
  /-- Two bytes on an affine scale. -/
  | uint16
  /-- Two bytes in half precision. -/
  | float16
  deriving DecidableEq, Repr

namespace Storage

/-- Name in documents. -/
def name : Storage → String
  | .uint8 => "uint8"
  | .uint16 => "uint16"
  | .float16 => "float16"

/-- Name in messages. -/
def title : Storage → String
  | .uint8 => "Uint8"
  | .uint16 => "Uint16"
  | .float16 => "Float16"

/-- All storages by name. -/
def byName : List (String × Storage) :=
  [("uint8", .uint8), ("uint16", .uint16), ("float16", .float16)]

/-- Bytes of one element. -/
def byteSize : Storage → Nat
  | .uint8 => 1
  | .uint16 => 2
  | .float16 => 2

/-- Largest stored integer of an affine scale. -/
def largest : Storage → Nat
  | .uint8 => 255
  | .uint16 => 65535
  | .float16 => 0

end Storage

/-- How the elements of an entry are quantized. Scale and minimum belong to the affine storages. -/
structure Quantization where
  /-- Storage of an element. -/
  storage : Storage
  /-- Step between two stored integers. -/
  scale : Option Binary32
  /-- Value of the stored zero. -/
  min : Option Binary32
  deriving DecidableEq

/-- One weight of the manifest. -/
structure Entry where
  /-- Name of the weight. -/
  name : String
  /-- Type of its elements. -/
  dtype : DataType
  /-- Its shape. -/
  shape : Shape
  /-- How its elements are stored, if not by their own type. -/
  quantization : Option Quantization
  deriving DecidableEq

/-- Weights that share shard files. -/
structure Group where
  /-- Shard files, beside the description, joined in order. -/
  paths : List String
  /-- The weights in the order of their bytes. -/
  weights : List Entry
  deriving DecidableEq

/-! ## Reading -/

/-- A quantization being read. -/
structure Quantization.Fields where
  /-- Storage of an element. -/
  storage : Option Storage := none
  /-- Step between two stored integers. -/
  scale : Option (Option Binary32) := none
  /-- Value of the stored zero. -/
  min : Option (Option Binary32) := none

/-- Read a quantization. -/
def Quantization.reader : Reader Quantization :=
  Reader.record
    [.of "dtype" false (Reader.variant Storage.byName) (·.storage) fun s v => { s with storage := some v },
     .of "scale" true (Reader.optional Reader.real32) (·.scale) fun s v => { s with scale := some v },
     .of "min" true (Reader.optional Reader.real32) (·.min) fun s v => { s with min := some v }]
    ({} : Quantization.Fields)
    fun s => do return ⟨← Reader.need s.storage, s.scale.join, s.min.join⟩

/-- An entry being read. -/
structure Entry.Fields where
  /-- Name of the weight. -/
  name : Option String := none
  /-- Type of its elements. -/
  dtype : Option DataType := none
  /-- Its shape. -/
  shape : Option Shape := none
  /-- How its elements are stored. -/
  quantization : Option (Option Quantization) := none

/-- Read an entry. -/
def Entry.reader : Reader Entry :=
  Reader.record
    [.of "name" false Reader.string (·.name) fun s v => { s with name := some v },
     .of "dtype" false (Reader.variant DataType.byName) (·.dtype) fun s v => { s with dtype := some v },
     .of "shape" false (Reader.list Reader.natural) (·.shape) fun s v => { s with shape := some v },
     .of "quantization" true (Reader.optional Quantization.reader) (·.quantization)
       fun s v => { s with quantization := some v }]
    ({} : Entry.Fields)
    fun s => do
      return ⟨← Reader.need s.name, ← Reader.need s.dtype, ← Reader.need s.shape, s.quantization.join⟩

/-- A group being read. -/
structure Group.Fields where
  /-- Shard files. -/
  paths : Option (List String) := none
  /-- The weights. -/
  weights : Option (List Entry) := none

/-- Read a group. -/
def Group.reader : Reader Group :=
  Reader.record
    [.of "paths" false (Reader.list Reader.string) (·.paths) fun s v => { s with paths := some v },
     .of "weights" false (Reader.list Entry.reader) (·.weights) fun s v => { s with weights := some v }]
    ({} : Group.Fields)
    fun s => do return ⟨← Reader.need s.paths, ← Reader.need s.weights⟩

/-! ## Writing -/

/-- A quantization in a document. -/
def Quantization.toJson (q : Quantization) : Json :=
  .object <| [("dtype", .string q.storage.name)]
    ++ (q.scale.map fun x => ("scale", .number (.single x))).toList
    ++ (q.min.map fun x => ("min", .number (.single x))).toList

/-- An entry in a document. -/
def Entry.toJson (e : Entry) : Json :=
  .object <| [("name", .string e.name), ("dtype", .string e.dtype.name),
      ("shape", .array (e.shape.map Json.nat))]
    ++ (e.quantization.map fun q => ("quantization", q.toJson)).toList

/-- A group in a document. -/
def Group.toJson (g : Group) : Json :=
  .object [("paths", .array (g.paths.map .string)), ("weights", .array (g.weights.map Entry.toJson))]

end TexelFlow.Weight
