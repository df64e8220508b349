import Snippet.Text.Quoted

/-!
Paths, and a tree of files to follow them in. Each name on the way that a path describes must be a
folder; `resolve` takes a path apart without looking at the tree.
-/

set_option autoImplicit false

namespace Snippet

namespace Path

/-- The pieces between the slashes of a path. -/
def pieces (path : Text) : List Text :=
  Text.cutAll ['/'] path

def here : Text := ['.']

def up : Text := ['.', '.']

/-- The pieces that lead somewhere. -/
def steps (path : Text) : List Text :=
  (pieces path).filter fun p => !p.isEmpty && p != here

def isAbsolute (path : Text) : Bool :=
  path.head? == some '/'

/-- A path by the given names. -/
def ofNames (absolute : Bool) (names : List Text) : Text :=
  (if absolute then ['/'] else []) ++ Text.join ['/'] names

/-- A path without pieces that lead nowhere; the dot if there are no others. -/
def tidy (path : Text) : Text :=
  match ofNames (isAbsolute path) (steps path) with
  | [] => here
  | tidied => tidied

/-- The last piece of a path, which is empty after a slash. -/
def baseName (path : Text) : Text :=
  (pieces path).getLastD []

/-- The last name of a path without its ending. -/
def stem (path : Text) : Text :=
  let name := (steps path).getLastD []
  -- The ending comes last in a name that is turned around.
  match name.reverse.span (· != '.') with
  | (ending, '.' :: rest) => if ending.isEmpty || rest.isEmpty then name else rest.reverse
  | _ => name

/-- What is left when each step up undoes the step before it; at the top it leads nowhere. -/
def resolve (start : List Text) (path : Text) : List Text :=
  (steps path).foldl (fun names p => if p == up then names.dropLast else names ++ [p])
    (if isAbsolute path then [] else start)

end Path

/-- A tree of files; names lead to them from the top. -/
structure Directory (α : Type) where
  files : List (List Text × α)
  /-- Folders that are there, whether or not files lie in them. -/
  folders : List (List Text)
  /-- The folder that relative paths start from. -/
  start : List Text

/-- Why a path cannot be read. -/
inductive PathFault where
  | missing
  | notFolder
  | folder
  | nameTooLong
  /-- A null character, which no path can hold. -/
  | nullCharacter
  deriving Repr, DecidableEq

namespace PathFault

def kind : PathFault → String
  | missing => "FileNotFoundError"
  | notFolder => "NotADirectoryError"
  | folder => "IsADirectoryError"
  | nameTooLong => "OSError"
  | nullCharacter => "ValueError"

def message : PathFault → String
  | missing => "[Errno 2] No such file or directory"
  | notFolder => "[Errno 20] Not a directory"
  | folder => "[Errno 21] Is a directory"
  | nameTooLong => "[Errno 36] File name too long"
  | nullCharacter => "embedded null byte"

end PathFault

namespace Directory

variable {α : Type}

def file? (d : Directory α) (names : List Text) : Option α :=
  d.files.findSome? fun f => if f.1 == names then some f.2 else none

/-- The top and the start are folders, and so is what a folder or a file lies in. -/
def isFolder (d : Directory α) (names : List Text) : Bool :=
  names.isPrefixOf d.start || d.folders.any names.isPrefixOf
    || d.files.any fun f => names.isPrefixOf f.1 && names != f.1

/-- Longest name in bytes. -/
def maxNameBytes : Nat := 255

/-- Longest path in bytes. -/
def maxPathBytes : Nat := 4095

def byteCount (t : Text) : Nat :=
  (String.ofList t).utf8ByteSize

/-- Follow a piece of a path out of a folder or a file; the way up from the top leads to the top. -/
def follow (d : Directory α) (names : List Text) (piece : Text) : Except PathFault (List Text) :=
  if !d.isFolder names then .error (if (d.file? names).isSome then .notFolder else .missing)
  else if piece.isEmpty || piece == Path.here then .ok names
  else if piece == Path.up then .ok names.dropLast
  else if maxNameBytes < byteCount piece then .error .nameTooLong
  else .ok (names ++ [piece])

def followAll (d : Directory α) (path : Text) : Except PathFault (List Text) :=
  if path.contains '\x00' then .error .nullCharacter
  else if path.isEmpty then .error .missing
  else if maxPathBytes < byteCount path then .error .nameTooLong
  else (Path.pieces path).foldlM d.follow (if Path.isAbsolute path then [] else d.start)

/-- The file that a path leads to. -/
def read (d : Directory α) (path : Text) : Except PathFault α := do
  let names ← d.followAll path
  if d.isFolder names then throw .folder
  match d.file? names with
  | some a => return a
  | none => throw .missing

/-- The folder that a path leads to, if it leads to one; a long name leaves that open. -/
def folder? (d : Directory α) (path : Text) : Except PathFault (Option (List Text)) :=
  match d.followAll path with
  | .ok names => .ok (if d.isFolder names then some names else none)
  | .error .nameTooLong => .error .nameTooLong
  | .error _ => .ok none

/-- The names of the files and folders in a folder, in order. -/
def names (d : Directory α) (folder : List Text) : List Text :=
  let below := (d.files.map (·.1) ++ d.folders).filterMap fun p =>
    if folder.isPrefixOf p then p[folder.length]? else none
  below.eraseDups.mergeSort fun a b => String.ofList a ≤ String.ofList b

end Directory

end Snippet
