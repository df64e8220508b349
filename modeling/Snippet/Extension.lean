import Snippet.Run.Machine

/-!
Extensions and what they provide: metadata, functions that snippets may call, and hooks. A
registration is refused if its name is no name, if its range of arguments is empty, or if the name
is taken.
-/

set_option autoImplicit false

namespace Snippet

/-- The version of the interface between extensions and their host. -/
def hostVersion : Int := 1

structure Metadata where
  name : Text
  version : Text
  requires : Int
  deriving Repr, DecidableEq

/-- A function and the extension that provides it. -/
structure Provided where
  builtin : Builtin
  doc : Text
  extension : Text

/-- Why an extension is not accepted. -/
inductive Refusal where
  | unknownEvent (name : Text)
  | existingBuiltin (name : Text)
  | duplicateBuiltin (name extension earlier : Text)
  | invalidName (name : Text)
  | emptyRange (name : Text) (least most : Int)
  | notFound (path : Text)
  | notLoadable (path : Text)
  | failedImport (path reason : Text)
  | wrongVersion (path : Text) (version : Int)
  | noRegistration (path : Text)
  deriving Repr, DecidableEq

namespace Refusal

open Cause (inQuotes)

def message : Refusal → Text
  | unknownEvent name => "Unknown event ".toList ++ inQuotes name
  | existingBuiltin name => "Cannot override existing builtin ".toList ++ inQuotes name
  | duplicateBuiltin name extension earlier =>
      "Builtin ".toList ++ inQuotes name ++ " from ".toList ++ inQuotes extension
        ++ " is already provided by ".toList ++ inQuotes earlier
  | invalidName name =>
      "Builtin name must be a valid identifier, got ".toList ++ Text.quoted name
  | emptyRange name least most =>
      "Builtin ".toList ++ inQuotes name ++ " accepts at most ".toList ++ intText most
        ++ " but at least ".toList ++ intText least ++ " arguments".toList
  | notFound path => "Extension not found: ".toList ++ path
  | notLoadable path => "Failed to load extension module: ".toList ++ path
  | failedImport path reason =>
      "Extension ".toList ++ path ++ " failed to import: ".toList ++ reason
  | wrongVersion path version =>
      "Extension ".toList ++ path ++ " requires API ".toList ++ intText version
        ++ ", host supports ".toList ++ intText hostVersion
  | noRegistration path =>
      "Extension ".toList ++ path ++ " must define callable sim_register(ext)".toList

end Refusal

/-- What an extension asks its host to register. -/
inductive Request where
  | metadata (m : Metadata)
  | builtin (b : Builtin) (doc : Text)
  | hook (event : Text) (priority : Int) (act : List Builtin → Occasion → Action Unit)

/-- What all extensions together provide. -/
structure Services where
  metadata : List Metadata
  provided : List Provided
  hooks : List Hook

/-- A registration changes what is provided so far. A refused one leaves what it did to it. -/
abbrev Registration := EStateM Refusal Services

namespace Registration

def addMetadata (m : Metadata) : Registration Unit :=
  modify fun s => { s with metadata := s.metadata ++ [m] }

/-- Provide a function under a name that neither the core nor an extension has. -/
def addBuiltin (p : Provided) : Registration Unit := do
  let name := p.builtin.name
  if (Builtin.find? Builtin.core name).isSome then throw (.existingBuiltin name)
  match (← get).provided.find? fun q => q.builtin.name == name with
  | some q => throw (.duplicateBuiltin name p.extension q.extension)
  | none => modify fun s => { s with provided := s.provided ++ [p] }

def registerBuiltin (p : Provided) : Registration Unit := do
  let b := p.builtin
  if !isName b.name then throw (.invalidName b.name)
  match b.most with
  | some most => if most < b.least then throw (.emptyRange b.name b.least most)
  | none => pure ()
  addBuiltin p

def addHook (extension event : Text) (priority : Int)
    (act : List Builtin → Occasion → Action Unit) : Registration Unit :=
  match Event.ofName? event with
  | some event =>
      let hook : Hook := { event, priority, extension, act }
      modify fun s => { s with hooks := hook.insert s.hooks }
  | none => throw (.unknownEvent event)

/-- Register what an extension asks for. -/
def ask (extension : Text) : Request → Registration Unit
  | .metadata m => addMetadata m
  | .builtin b doc => registerBuiltin { builtin := b, doc, extension }
  | .hook event priority act => addHook extension event priority act

end Registration

/-- Add a function to the table of an interpreter, which must not have its name. -/
def Builtin.extend (table : List Builtin) (b : Builtin) : Except Refusal (List Builtin) :=
  if (Builtin.find? table b.name).isSome then .error (.existingBuiltin b.name)
  else .ok (table ++ [b])

namespace Services

def empty : Services :=
  { metadata := [], provided := [], hooks := [] }

/-- The functions that snippets may call. -/
def builtins (s : Services) : List Builtin :=
  Builtin.core ++ s.provided.map (·.builtin)

def setup (s : Services) (filename : Text) (verbose : Bool) (sink : Sink) : Setup :=
  { filename, verbose, builtins := s.builtins, hooks := s.hooks, sink }

/-- The functions of the core with those provided, added one after the other. -/
def table (s : Services) : Except Refusal (List Builtin) :=
  (s.provided.map (·.builtin)).foldlM Builtin.extend Builtin.core

/-- The setup of an interpreter, unless its table has two functions of one name. -/
def construct (s : Services) (filename : Text) (verbose : Bool) (sink : Sink) :
    Except Refusal Setup := do
  return { filename, verbose, builtins := ← s.table, hooks := s.hooks, sink }

/-- The services after what an extension asks for is registered. -/
def register (extension : Text) (s : Services) (r : Request) : Except Refusal Services :=
  match Registration.ask extension r s with
  | .ok () s => .ok s
  | .error refusal _ => .error refusal

/-- A line on each function, for a listing. -/
def describe (s : Services) : List Text :=
  s.provided.map fun p =>
    let doc := if p.doc.isEmpty then [] else ':' :: ' ' :: p.doc
    p.builtin.name ++ " (".toList ++ p.extension ++ ')' :: doc

/-- The extensions whose hooks run on an event, in order. -/
def handlers (s : Services) (event : Event) : List Text :=
  (Hook.ofEvent s.hooks event).map (·.extension)

end Services

end Snippet
