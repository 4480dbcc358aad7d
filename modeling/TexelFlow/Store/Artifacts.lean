import TexelFlow.Model.Description
import TexelFlow.Store.Files
import TexelFlow.Weight.Codec

/-!
# Artifacts

The artifacts of a model are its description and the bytes of its weights. Files hold them as a
document and shards beside it: the shards of all groups one after the other are the bytes. Saving
writes one shard for all weights. A loaded model has its weights decoded.

## §1 — artifacts
## §2 — loading
## §3 — saving
-/

namespace TexelFlow

/-! ## §1 — artifacts -/

/-- A description and the bytes of its weights. -/
structure Artifacts where
  /-- The description. -/
  description : Model.Description
  /-- The bytes of all weights in the order of the manifest. -/
  bytes : List UInt8

/-- A model whose weights are decoded. -/
structure LoadedModel where
  /-- The description. -/
  description : Model.Description
  /-- The weights by name. -/
  weights : Tensors

/-- Decode the weights. -/
def Artifacts.decode (a : Artifacts) : Outcome LoadedModel := do
  return ⟨a.description, ← Weight.decode a.bytes a.description.entries⟩

namespace Artifacts

variable {m : Type → Type} [Monad m] [FileAccess m]

/-! ## §2 — loading -/

/-- The bytes of a file. -/
def fetch (path : String) : ExceptT Error m (List UInt8) :=
  .mk do return (← FileAccess.read path).mapError (.file path)

/-- The bytes of a description file as a text. -/
def textOf (path : String) (bytes : List UInt8) : Outcome String :=
  (Utf8.decode bytes).mapError fun fault => .model (.fileText path fault.message)

/-- The shards of a description, in the order of their bytes. -/
def shards (d : Model.Description) : List String := d.groups.flatMap (·.paths)

/-- **Load** the description of a file and the shards beside it. -/
def load (path : String) : ExceptT Error m Artifacts := do
  let bytes ← fetch path
  let d ← Model.Description.parse (← textOf path bytes)
  let parts ← (shards d).mapM fun shard => fetch (Path.beside path shard)
  return ⟨d, parts.flatten⟩

/-! ## §3 — saving -/

/-- Make the bytes of a file these. -/
def store (path : String) (bytes : List UInt8) : ExceptT Error m Unit :=
  .mk do return (← FileAccess.write path bytes).mapError (.file path)

/-- Name of the shard that saving writes. -/
def shardName : String := "weights.bin"

/-- A description with all weights in one shard; without weights there is no shard to name. -/
def inOneShard (d : Model.Description) : Model.Description :=
  { d with groups := if d.entries = [] then [] else [⟨[shardName], d.entries⟩] }

/-- **Save** artifacts as a description file and a shard beside it. -/
def save (path : String) (a : Artifacts) : ExceptT Error m Unit := do
  store path (Utf8.encode (inOneShard a.description).toJson.pretty)
  store (Path.beside path shardName) a.bytes

end Artifacts

end TexelFlow
