import TexelFlow.Error
import TexelFlow.Named
import TexelFlow.Store.Path
import TexelFlow.Text.Utf8

/-!
# Files

`FileAccess m` says that files can be read and written in `m`. A `Files` is a tree of files and
directories below a working directory, and the tree is a way to read and write files: what is written
under a path is read back from it, and a path walks the tree name by name. Above the working directory
there are directories and no files.

## §1 — access
## §2 — trees
## §3 — walking
## §4 — reading and writing
-/

namespace TexelFlow

/-! ## §1 — access -/

/-- Files can be read and written in `m`. -/
class FileAccess (m : Type → Type) where
  /-- The bytes of a file. -/
  read : String → m (Except FileFault (List UInt8))
  /-- Make the bytes of a file these, and the file if there is none. -/
  write : String → List UInt8 → m (Except FileFault Unit)

/-- The bytes of a file as a text. -/
def FileAccess.readText {m : Type → Type} [Monad m] [FileAccess m] (path : String) :
    m (Except FileFault String) := do
  match ← FileAccess.read path with
  | .error fault => return .error fault
  | .ok bytes =>
    match Utf8.decode bytes with
    | .ok text => return .ok text
    | .error _ => return .error .notText

/-! ## §2 — trees -/

/-- What stands under a name. -/
inductive Files.Item where
  /-- A directory. -/
  | directory
  /-- A file with its bytes. -/
  | file (bytes : List UInt8)
  deriving DecidableEq

/-- A tree of files below a working directory: an item for each path of names. -/
structure Files where
  /-- The items, under the names on their path with slashes between. -/
  items : Named Files.Item

namespace Files

/-- The tree without files. -/
def empty : Files := ⟨.empty⟩

/-- Where a walk stands. -/
inductive Spot where
  /-- Below the working directory, by the names on the path, the last one first. -/
  | below (trail : List String)
  /-- In a directory above the working directory. -/
  | above
  /-- Where nothing is. -/
  | nowhere
  deriving DecidableEq

/-- The key of an item. -/
def key (trail : List String) : String := "/".intercalate trail.reverse

/-- What stands at a spot. -/
def item? (f : Files) : Spot → Option Item
  | .below [] => some .directory
  | .below trail => f.items.find? (key trail)
  | .above => some .directory
  | .nowhere => none

/-- A tree of files, with the directories they stand in. -/
def ofList (files : List (String × List UInt8)) : Files :=
  files.foldl (fun f (path, bytes) =>
    let names := (Path.segments path).map String.ofList
    let directories := (List.range (names.length - 1)).map fun i => key (names.take (i + 1)).reverse
    let items := directories.foldl (fun items d => items.insert d .directory) f.items
    ⟨items.insert (key names.reverse) (.file bytes)⟩) empty

/-! ## §3 — walking -/

namespace Spot

/-- The spot of a name in a directory. -/
def down (s : Spot) (name : String) : Spot :=
  match s with
  | .below trail => .below (name :: trail)
  | _ => .nowhere

/-- The spot above a directory. -/
def up : Spot → Spot
  | .below (_ :: trail) => .below trail
  | _ => .above

end Spot

/-- Most bytes of a name. -/
def longestName : Nat := 255

/-- Most bytes of a path. -/
def longestPath : Nat := 4095

/-- A directory stands at a spot. -/
def enter (f : Files) (s : Spot) : Except FileFault Unit :=
  match f.item? s with
  | some .directory => .ok ()
  | some (.file _) => .error .notDirectory
  | none => .error .notFound

/-- Walk along one segment of a path. -/
def step (f : Files) (s : Spot) (segment : List Char) : Except FileFault Spot := do
  f.enter s
  if segment = [] || segment = ['.'] then return s
  if segment = ['.', '.'] then return s.up
  let name := String.ofList segment
  if longestName < name.utf8ByteSize then throw .longName
  return s.down name

/-- Where the walk along a path starts. -/
def start (path : String) : Spot := if Path.isAbsolute path then .above else .below []

/-- Check that a path can be walked at all. -/
def check (path : String) : Except FileFault Unit :=
  if path.toList.any (·.toNat = 0) then .error .endedName
  else if path = "" then .error .notFound
  else if longestPath < path.utf8ByteSize then .error .longName
  else .ok ()

/-- Walk along a path. -/
def locate (f : Files) (path : String) : Except FileFault Spot := do
  check path
  (Path.segments path).foldlM f.step (start path)

/-! ## §4 — reading and writing -/

/-- **Read** a file. -/
def read (f : Files) (path : String) : Except FileFault (List UInt8) := do
  match f.item? (← f.locate path) with
  | some (.file bytes) => return bytes
  | some .directory => throw .isDirectory
  | none => throw .notFound

/-- Put a file at a spot. -/
def put (f : Files) (s : Spot) (bytes : List UInt8) : Except FileFault Files :=
  match f.item? s, s with
  | some .directory, _ => .error .isDirectory
  | _, .below trail => .ok ⟨f.items.insert (key trail) (.file bytes)⟩
  | _, _ => .error .notFound

/-- **Write** a file. Its directory has to be there; a path that ends with a slash or a point is that
of a directory. -/
def write (f : Files) (path : String) (bytes : List UInt8) : Except FileFault Files := do
  check path
  match (Path.segments path).reverse.dropWhile (· = []) with
  | [] => throw .isDirectory
  | last :: above =>
    let parent ← above.reverse.foldlM f.step (start path)
    f.enter parent
    if (Path.segments path).getLast? = some [] || last = ['.'] || last = ['.', '.'] then
      throw .isDirectory
    f.put (← f.step parent last) bytes

instance : FileAccess (StateM Files) where
  read path f := (f.read path, f)
  write path bytes f :=
    match f.write path bytes with
    | .ok f => (.ok (), f)
    | .error fault => (.error fault, f)

end Files

end TexelFlow
