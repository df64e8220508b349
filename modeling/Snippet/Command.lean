import Snippet.Command.Console
import Snippet.Command.Options
import Snippet.Challenge
import Snippet.Extension.Loading

/-!
The commands: run a program, print its normal form, compare it with a reference solution, or open
the console if there is no program.
-/

set_option autoImplicit false

namespace Snippet

/-- The files that a command may use. -/
structure World where
  shelf : Shelf
  read : Text → Except PathFault Text

structure Outcome where
  exit : Nat
  shown : Shown
  deriving Repr, DecidableEq

namespace Outcome

def success (stdout : Text) : Outcome :=
  ⟨0, ⟨stdout, []⟩⟩

def failure (stdout stderr : Text) : Outcome :=
  ⟨1, ⟨stdout, stderr⟩⟩

end Outcome

namespace Command

/-- A text as a line. -/
def line (t : Text) : Text :=
  t ++ ['\n']

/-- The output of a run as lines; nothing if there is none. -/
def outputLines (t : Text) : Text :=
  if t.isEmpty then [] else line t

def unreadable (path : Text) (fault : PathFault) : Text :=
  "Failed to read ".toList ++ path ++ ": ".toList ++ fault.message.toList ++ ": ".toList
    ++ Text.quoted path

/-- What keeps a command from going on: a message to end with, or a mishap. -/
inductive Obstacle where
  | message (t : Text)
  | mishap (m : Mishap)
  deriving Repr, DecidableEq

/-- What comes of an obstacle after some output. -/
def Obstacle.settle (stdout : Text) : Obstacle → Except Mishap Outcome
  | .message t => .ok (.failure stdout (line t))
  | .mishap m => .error m

/-- The text of a program, which is the argument itself or a file. -/
def programText (world : World) (options : Options) (program : Text) : Except Obstacle Text :=
  if options.source then .ok program
  else
    match world.read program with
    | .ok t => .ok (Text.unifyBreaks t)
    | .error .nullCharacter => .error (.mishap PathFault.nullCharacter.mishap)
    | .error fault => .error (.message (unreadable program fault))

/-- Run a reference solution after a program that has printed `stdout`. -/
def compare (world : World) (options : Options) (services : Services) (filename : Text)
    (shown : Shown) (target : Text) : Except Mishap Outcome :=
  let stdout := outputLines shown.stdout
  match programText world options target with
  | .error obstacle => obstacle.settle stdout
  | .ok source =>
      let setup := services.setup filename false fun _ => none
      let expected := (Run.ofSource setup source).shown setup
      if !expected.isClean then
        .ok (.failure stdout (line "Reference solution failed:".toList ++ line expected.stderr))
      else if !shown.isEquivalent expected then
        .ok (.failure stdout (line "Output differs from the reference solution".toList))
      else .ok (.success (stdout ++ line "Output matches the reference solution".toList))

def runSource (world : World) (options : Options) (services : Services) (filename source : Text) :
    Except Mishap Outcome :=
  let setup := services.setup filename options.verbose fun _ => none
  let run := Run.ofSource setup source
  let shown := run.shown setup
  match run.error, options.compare with
  | some e, _ =>
      let json := if options.tracebackJson then line (Traceback.json setup run.machine e) else []
      .ok (.failure (outputLines shown.stdout) (line shown.stderr ++ json))
  | none, some target => compare world options services filename shown target
  | none, none => .ok (.success (outputLines shown.stdout))

def runProgram (world : World) (options : Options) (services : Services) (program : Text) :
    Except Mishap Outcome :=
  match programText world options program with
  | .error obstacle => obstacle.settle []
  | .ok source =>
      if options.normalize then .ok (.success (line (Text.normalForm source)))
      else
        let filename := if options.source then usualFilename else Path.baseName program
        runSource world options services filename source

/-- What a command line asks for. -/
inductive Plan where
  | done (outcome : Outcome)
  | console (services : Services)

def plan (world : World) (options : Options) : Except Mishap Plan :=
  match Extension.loadAll world.shelf options.extensions with
  | .error (.mishap m) => .error m
  | .error (.refusal r) =>
      .ok (.done (.failure [] (line ("ExtensionError: ".toList ++ r.message))))
  | .ok services =>
      match options.program with
      | some program => .done <$> runProgram world options services program
      | none =>
          if options.source then
            .ok (.done (.failure [] (line "-source requires a program string".toList)))
          else .ok (.console services)

/-- A whole command, with what is entered if it opens the console. -/
def run (world : World) (options : Options) (input : Text) : Except Mishap Outcome := do
  match ← plan world options with
  | .done outcome => return outcome
  | .console services =>
      let console := Console.start services options.verbose
      let shown ← console.converse (Console.inputLines input)
      return ⟨0, { shown with stdout := Console.greeting services ++ shown.stdout }⟩

end Command

end Snippet
