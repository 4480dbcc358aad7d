import TexelFlow.Store.Artifacts

/-!
# Registries

A registry knows where models come from and where they go. Each of its routers may claim a location,
and a location is served by the one handler that claims it: no claim and several claims are both
errors.

## §1 — handlers
## §2 — routers
## §3 — registries
-/

namespace TexelFlow

/-! ## §1 — handlers -/

/-- Serves the model of one location. -/
inductive Handler where
  /-- From a description file. -/
  | file (path : String)
  /-- From memory; nothing can be saved there. -/
  | memory (artifacts : Artifacts)

namespace Handler

variable {m : Type → Type} [Monad m] [FileAccess m]

/-- **Load** the artifacts that a handler serves. -/
def load : Handler → ExceptT Error m Artifacts
  | .file path => Artifacts.load path
  | .memory a => return a

/-- **Save** artifacts where a handler serves them from. -/
def save (h : Handler) (a : Artifacts) : ExceptT Error m Unit :=
  match h with
  | .file path => Artifacts.save path a
  | .memory _ => throw .cannotSave

end Handler

/-! ## §2 — routers -/

/-- Claims locations. -/
inductive Router where
  /-- Claims files. -/
  | files
  /-- Claims one location, for artifacts in memory. -/
  | memory (url : String) (artifacts : Artifacts)

/-- The scheme of file locations. -/
def fileScheme : List Char := ['f', 'i', 'l', 'e', ':', '/', '/']

/-- What separates the scheme of a location from the rest. -/
def schemeMark : List Char := [':', '/', '/']

/-- How the name of a description file ends. -/
def descriptionSuffix : List Char := ['.', 'j', 's', 'o', 'n']

/-- Whether a text occurs in another one. -/
def occurs (part : List Char) : List Char → Bool
  | [] => part.isEmpty
  | c :: rest => part.isPrefixOf (c :: rest) || occurs part rest

/-- The path of a file location: it has the scheme of files, or no scheme and the name of a description
file. -/
def filePath? (url : String) : Option String :=
  match fileScheme.isPrefixOf? url.toList with
  | some rest => some (String.ofList rest)
  | none =>
    if descriptionSuffix.isSuffixOf url.toList && !occurs schemeMark url.toList then some url else none

/-- The handler with which a router claims a location. -/
def Router.claim (r : Router) (url : String) : Option Handler :=
  match r with
  | .files => (filePath? url).map .file
  | .memory own artifacts => if url = own then some (.memory artifacts) else none

/-! ## §3 — registries -/

/-- Routers for loading and for saving, in the order they were registered. -/
structure Registry where
  /-- Routers for loading. -/
  loading : List Router
  /-- Routers for saving. -/
  saving : List Router

namespace Registry

/-- The registry without routers. -/
def empty : Registry := ⟨[], []⟩

/-- The registry of files. -/
def standard : Registry := ⟨[.files], [.files]⟩

/-- Register a router for loading. -/
def registerLoading (r : Registry) (router : Router) : Registry :=
  { r with loading := r.loading ++ [router] }

/-- Register a router for saving. -/
def registerSaving (r : Registry) (router : Router) : Registry :=
  { r with saving := r.saving ++ [router] }

/-- The handlers that claim a location. -/
def claims (routers : List Router) (url : String) : List Handler :=
  routers.filterMap fun router => router.claim url

/-- The only handler that claims a location. -/
def only (routers : List Router) (url : String) : Outcome Handler :=
  match claims routers url with
  | [] => .error (.noHandler url)
  | [handler] => .ok handler
  | several => .error (.ambiguousHandler url several.length)

/-- The handler to load from. -/
def toLoad (r : Registry) (url : String) : Outcome Handler := only r.loading url

/-- The handler to save with. -/
def toSave (r : Registry) (url : String) : Outcome Handler := only r.saving url

/-- **Load** the model of a location with its weights decoded. -/
def load {m : Type → Type} [Monad m] [FileAccess m] (r : Registry) (url : String) :
    ExceptT Error m LoadedModel := do
  let handler ← r.toLoad url
  let artifacts ← handler.load
  artifacts.decode

end Registry

end TexelFlow
