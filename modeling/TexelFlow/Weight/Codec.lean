import TexelFlow.Weight.Entry
import TexelFlow.Text.Utf8

/-!
# The weight bytes

Weights stand back to back in the order of their entries, little end first and without delimiters.
An element takes four bytes (float32, int32), one (bool), or a length of four bytes and that many
bytes of UTF-8 (string); quantized elements take one or two. Reading is a walk over the bytes: each
entry takes its own window and hands the rest on, so an entry's tensor depends on the entry and its
window alone, and bytes after the last window are never looked at.

## §1 — little-endian words
## §2 — reading
## §3 — writing
-/

namespace TexelFlow.Weight

/-! ## §1 — little-endian words -/

/-- A sequence of bytes. -/
abbrev Bytes := List UInt8

/-- The bytes of a 16-bit word. -/
def bytesOf16 (w : UInt16) : Bytes := [w.toUInt8, (w >>> 8).toUInt8]

/-- The bytes of a 32-bit word. -/
def bytesOf32 (w : UInt32) : Bytes :=
  [w.toUInt8, (w >>> 8).toUInt8, (w >>> 16).toUInt8, (w >>> 24).toUInt8]

/-- The 16-bit words of a sequence of bytes; a last byte without a partner is left out. -/
def words16 : Bytes → List UInt16
  | a :: b :: rest => (a.toUInt16 ||| (b.toUInt16 <<< 8)) :: words16 rest
  | _ => []

/-- The 32-bit word of four bytes. -/
def word32 (a b c d : UInt8) : UInt32 :=
  a.toUInt32 ||| (b.toUInt32 <<< 8) ||| (c.toUInt32 <<< 16) ||| (d.toUInt32 <<< 24)

/-- The 32-bit words of a sequence of bytes; up to three last bytes are left out. -/
def words32 : Bytes → List UInt32
  | a :: b :: c :: d :: rest => word32 a b c d :: words32 rest
  | _ => []

/-! ## §2 — reading -/

/-- Take a window off the front of the bytes. -/
def take (name : String) (length : Nat) (bytes : Bytes) : Outcome (Bytes × Bytes) :=
  let available := bytes.length
  if available < length then .error (.truncated name length available)
  else .ok (bytes.splitAt length)

/-- Read texts, each behind its own length. -/
def readTexts (name : String) : Nat → Bytes → Outcome (List String × Bytes)
  | 0, bytes => .ok ([], bytes)
  | count + 1, bytes => do
    let (header, bytes) ← take name 4 bytes
    let length := ((words32 header).headD 0).toNat
    let (window, bytes) ← take name length bytes
    match Utf8.decode window with
    | .error fault => .error (.model (.weightText name fault.message))
    | .ok text =>
      let (texts, bytes) ← readTexts name count bytes
      return (text :: texts, bytes)

/-- Bytes that the room for one text takes. -/
def textRoom : Nat := 24

/-- Read elements stored by their own type. -/
def readPlain (name : String) (dtype : DataType) (count : Nat) (bytes : Bytes) :
    Outcome (TensorData × Bytes) :=
  match dtype with
  | .float32 => do
    let (window, bytes) ← take name (← Size.mul count 4) bytes
    return (.float32 ((words32 window).map Binary32.mk), bytes)
  | .int32 => do
    let (window, bytes) ← take name (← Size.mul count 4) bytes
    return (.int32 ((words32 window).map UInt32.toInt32), bytes)
  | .bool => do
    let (window, bytes) ← take name count bytes
    return (.bool (window.map (· != 0)), bytes)
  | .string => do
    Size.reserve count textRoom
    let (texts, bytes) ← readTexts name count bytes
    return (.string texts, bytes)

/-- The value of a stored integer on an affine scale: product, then sum, each rounded. -/
def dequantize (scale min : Binary32) (raw : Nat) : Binary32 := .ofNat raw * scale + min

/-- Stored integers of an affine window. -/
def rawIntegers (storage : Storage) (window : Bytes) : List Nat :=
  match storage with
  | .uint8 => window.map UInt8.toNat
  | _ => (words16 window).map UInt16.toNat

/-- Read quantized elements. -/
def readQuantized (name : String) (dtype : DataType) (q : Quantization) (count : Nat)
    (bytes : Bytes) : Outcome (TensorData × Bytes) :=
  let refuse (fault : QuantizationFault) : Outcome (TensorData × Bytes) :=
    .error (.quantization name fault)
  if dtype ≠ .float32 ∧ dtype ≠ .int32 then refuse (.dtype dtype)
  else do
    let (window, bytes) ← take name (← Size.mul count q.storage.byteSize) bytes
    match q.storage, q.scale, q.min with
    | .float16, _, _ =>
      if dtype ≠ .float32 then refuse (.halfPrecision dtype)
      else return (.float32 ((words16 window).map Binary16.toBinary32), bytes)
    | storage, some scale, some min =>
      let values := (rawIntegers storage window).map (dequantize scale min)
      if dtype = .int32 then
        return (.int32 (values.map fun v => v.round.toInt32), bytes)
      else return (.float32 values, bytes)
    | storage, _, _ => refuse (.parameters storage.title)

/-- Read the tensor of one entry. -/
def readEntry (e : Entry) (bytes : Bytes) : Outcome (Tensor × Bytes) := do
  let count ← e.shape.counted
  let (data, bytes) ←
    match e.quantization with
    | some q => readQuantized e.name e.dtype q count bytes
    | none => readPlain e.name e.dtype count bytes
  return (← Tensor.make e.name e.shape data, bytes)

/-- Read the tensors of entries in their order. -/
def readEntries : List Entry → Bytes → Outcome (List (String × Tensor) × Bytes)
  | [], bytes => .ok ([], bytes)
  | e :: rest, bytes => do
    let (tensor, bytes) ← readEntry e bytes
    let (tensors, bytes) ← readEntries rest bytes
    return ((e.name, tensor) :: tensors, bytes)

/-- **Decode** the weights of a manifest. Bytes after the last entry are left alone. -/
def decode (bytes : Bytes) (entries : List Entry) : Outcome Tensors := do
  let (tensors, _) ← readEntries entries bytes
  return Named.ofList tensors

/-! ## §3 — writing -/

/-- Bytes of a text behind its length, which is cut to four bytes. -/
def bytesOfText (s : String) : Bytes :=
  let body := Utf8.encode s
  bytesOf32 (UInt32.ofNat body.length) ++ body

/-- Bytes of elements stored by their own type. -/
def bytesOfPlain : TensorData → Bytes
  | .float32 v => v.flatMap fun x => bytesOf32 x.bits
  | .int32 v => v.flatMap fun n => bytesOf32 n.toUInt32
  | .bool v => v.map fun b => if b then 1 else 0
  | .string v => v.flatMap bytesOfText

/-- The affine scale that spans finite values: smallest value and step. -/
def affineScale (storage : Storage) (values : List Binary32) : Binary32 × Binary32 :=
  if values.isEmpty then (.zero, .one)
  else
    let least := values.foldl Binary32.min .infinity
    let greatest := values.foldl Binary32.max .negInfinity
    let range := greatest - least
    (least, if Binary32.lt .zero range then range / .ofNat storage.largest else .one)

/-- The stored integer nearest to a value, kept within the storage. -/
def quantize (storage : Storage) (least step value : Binary32) : Nat :=
  let raw := ((value - least) / step).round
  (raw.clamp .zero (.ofNat storage.largest)).toNatUpTo storage.largest

/-- Bytes of a stored integer. -/
def bytesOfRaw (storage : Storage) (raw : Nat) : Bytes :=
  match storage with
  | .uint8 => [UInt8.ofNat raw]
  | _ => bytesOf16 (UInt16.ofNat raw)

/-- Bytes of one tensor and its entry. Only float32 tensors are quantized. -/
def writeTensor (name : String) (t : Tensor) (storage : Option Storage) : Outcome (Bytes × Entry) :=
  let entry (q : Option Quantization) : Entry := ⟨name, t.dtype, t.shape, q⟩
  match t.data, storage with
  | .float32 values, some .float16 =>
    .ok (values.flatMap fun x => bytesOf16 (Binary16.ofBinary32 x), entry (some ⟨.float16, none, none⟩))
  | .float32 values, some storage =>
    if values.any fun x => !x.isFinite then .error (.quantization name .notFinite)
    else
      let (least, step) := affineScale storage values
      .ok (values.flatMap fun x => bytesOfRaw storage (quantize storage least step x),
        entry (some ⟨storage, some step, some least⟩))
  | data, _ => .ok (bytesOfPlain data, entry none)

/-- **Encode** tensors in their order: all bytes joined, and the manifest entries. -/
def encode (tensors : List (String × Tensor)) (storage : Option Storage) :
    Outcome (Bytes × List Entry) := do
  let written ← tensors.mapM fun (name, t) => writeTensor name t storage
  return (written.flatMap Prod.fst, written.map Prod.snd)

end TexelFlow.Weight
