import Snippet.Command
import Snippet.Extension.Roots

/-!
The command line program. All that is decided is decided by `Command.plan` and `Console.enter`;
here files and lines are read, and texts are printed.
-/

set_option autoImplicit false

namespace Snippet.Main

/-- The extensions that come with the program. -/
def shelf : Shelf where
  files := [(Path.steps "ext/mathx.py".toList, .ok Roots.module)]
  folders := []
  start := []

def usage : String :=
  "usage: pysim [-h] [-source] [-verbose] [--traceback-json] [--ext PATH] [--normalize] "
    ++ "[--compare TARGET] [program]"

def faultOf : IO.Error → PathFault
  | .inappropriateType _ code _ => if code == 21 then .folder else .notFolder
  | .invalidArgument _ code _ => if code == 36 then .nameTooLong else .missing
  | _ => .missing

def readFile (path : Text) : IO (Except PathFault Text) := do
  if path.contains '\x00' then return .error .nullCharacter
  try return .ok (← IO.FS.readFile (String.ofList path)).toList
  catch e => return .error (faultOf e)

/-- The world of a command: the files that its options name. -/
def worldOf (options : Options) : IO World := do
  let paths := options.program.toList ++ options.compare.toList
  let files ← if options.source then pure [] else paths.mapM fun p => return (p, ← readFile p)
  return { shelf, read := fun path => (files.lookup path).getD (.error .missing) }

def present (shown : Shown) : IO Unit := do
  IO.print (String.ofList shown.stdout)
  IO.eprint (String.ofList shown.stderr)
  (← IO.getStdout).flush

def giveUp (m : Mishap) : IO UInt32 := do
  IO.eprintln (String.ofList m.reason)
  return 1

partial def converse (console : Console) : IO UInt32 := do
  present ⟨Console.prompt, []⟩
  let raw ← (← IO.getStdin).getLine
  if raw.isEmpty then
    IO.println ""
    return 0
  let text := raw.toList
  match console.enter (if text.getLast? == some '\n' then text.dropLast else text) with
  | .ok (console, shown) => do
      present shown
      converse console
  | .error m => giveUp m

def execute (options : Options) : IO UInt32 := do
  match Command.plan (← worldOf options) options with
  | .error m => giveUp m
  | .ok (.done outcome) => do
      present outcome.shown
      return outcome.exit.toUInt32
  | .ok (.console services) => do
      present ⟨Console.greeting services, []⟩
      converse (Console.start services options.verbose)

end Snippet.Main

def main (args : List String) : IO UInt32 := do
  match Snippet.Options.read (args.map String.toList) with
  | .ok options => Snippet.Main.execute options
  | .error e => do
      match e with
      | .help => IO.println Snippet.Main.usage
      | .usage => IO.eprintln Snippet.Main.usage
      return e.code.toUInt32
