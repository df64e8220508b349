import Snippet.Directory
import Snippet.Extension

/-!
Loading extensions from paths. A folder stands for the extensions directly in it, in the order of
their names. The first extension that is not accepted ends the loading.
-/

set_option autoImplicit false

namespace Snippet

/-- A fault of a path that has no wording of its own. -/
def PathFault.mishap (fault : PathFault) : Mishap :=
  ⟨fault.kind.toList, fault.message.toList⟩

/-- An extension as its file defines it. -/
structure Module where
  /-- Its name; without one it is called as its file. -/
  name : Option Text
  version : Int
  /-- What it asks for when it is registered, if it can be registered at all. -/
  requests : Option (List Request)

/-- Files that define extensions; one that cannot be imported gives the reason. -/
abbrev Shelf := Directory (Except Text Module)

namespace Extension

/-- What keeps extensions from being loaded. -/
inductive Obstacle where
  | refusal (r : Refusal)
  | mishap (m : Mishap)
  deriving Repr, DecidableEq

def Obstacle.ofFault (fault : PathFault) : Obstacle :=
  .mishap fault.mishap

def fileEnding : Text := ".py".toList

def hasFileEnding (name : Text) : Bool :=
  fileEnding.isSuffixOf name

/-- Files in a folder that are no extensions of their own are marked so. -/
def isHelper (name : Text) : Bool :=
  name.head? == some '_'

/-- The extensions directly in a folder that a path leads to. -/
def inFolder (shelf : Shelf) (path : Text) (folder : List Text) : List Text :=
  let names := (shelf.names folder).filter fun n => hasFileEnding n && !isHelper n
  names.map fun n => Path.ofNames (Path.isAbsolute path) (Path.steps path ++ [n])

/-- What a path stands for: each extension in a folder, or itself. -/
def expand (shelf : Shelf) (path : Text) : Except Obstacle (List Text) :=
  match shelf.folder? (Path.tidy path) with
  | .ok (some folder) => .ok (inFolder shelf path folder)
  | .ok none => .ok [path]
  | .error fault => .error (.ofFault fault)

/-- The extension in a file. A step up undoes a step on the way also if that leads nowhere. -/
def find (shelf : Shelf) (path : Text) : Except Obstacle Module := do
  if path.contains '\x00' then throw (.ofFault .nullCharacter)
  let names := Path.resolve shelf.start path
  match shelf.read (Path.ofNames true names) with
  | .ok module =>
      if !hasFileEnding (names.getLastD []) then throw (.refusal (.notLoadable path))
      else module.mapError fun reason => .refusal (.failedImport path reason)
  | .error .nameTooLong => throw (.ofFault .nameTooLong)
  | .error _ => throw (.refusal (.notFound path))

/-- Load one extension. -/
def load (shelf : Shelf) (services : Services) (path : Text) : Except Obstacle Services := do
  let m ← find shelf path
  if m.version != hostVersion then throw (.refusal (.wrongVersion path m.version))
  match m.requests with
  | none => throw (.refusal (.noRegistration path))
  | some requests =>
      let register := Services.register (m.name.getD (Path.stem path))
      (requests.foldlM register services).mapError .refusal

/-- Load all extensions that some paths stand for; the folders among them are searched first. -/
def loadAll (shelf : Shelf) (paths : List Text) : Except Obstacle Services := do
  let expanded ← paths.mapM (expand shelf)
  expanded.flatten.foldlM (load shelf) Services.empty

end Extension

end Snippet
