import Snippet.Json
import Snippet.Run

/-!
Reports of an error: the traceback, and the same with the whole log as JSON.
-/

set_option autoImplicit false

namespace Snippet

namespace Traceback

/-- The line that a traceback names; the first, if the error has none. -/
def lineOf (e : Error) : Int :=
  match e.line with
  | none | some 0 => 1
  | some line => line

def location (setup : Setup) (e : Error) : Text :=
  "  File \"".toList ++ setup.filename ++ "\", line ".toList ++ intText (lineOf e)
    ++ ", in <module>".toList

def binding (b : Text × Text) : Text :=
  b.1 ++ '=' :: b.2

/-- The last step: its statement, its place in the log, and the names before it. -/
def stepLines (step : Step) : List Text :=
  let lines := [
    "    ".toList ++ step.statement,
    "    State log index: ".toList ++ digitsOf step.index]
  match step.snapshot with
  | none => lines
  | some names =>
      lines ++ ["    Env snapshot: ".toList ++ Text.join [',', ' '] (names.map binding)]

def message (e : Error) : Text :=
  e.cause.kind ++ ": ".toList ++ e.cause.message

def lines (setup : Setup) (m : Machine) (e : Error) : List Text :=
  let details :=
    match setup.verbose, m.lastStep? with
    | true, some step => stepLines step
    | _, _ => []
  ["Traceback (most recent call last):".toList, location setup e] ++ details ++ [message e]

def text (setup : Setup) (m : Machine) (e : Error) : Text :=
  Text.join ['\n'] (lines setup m e)

def member (key : String) (value : Json) : Text × Json :=
  (key.toList, value)

def stepJson (step : Step) : Json :=
  let snapshot :=
    step.snapshot.map fun names =>
      member "env_snapshot" (.object (names.map fun b => (b.1, .text b.2)))
  .object ([
    member "step_index" (.int step.index),
    member "line" (.int step.line),
    member "rule" (.text step.rule.toList),
    member "statement" (.text step.statement)] ++ snapshot.toList)

/-- An error and the log before it. -/
def report (setup : Setup) (m : Machine) (e : Error) : Json :=
  let error := Json.object [
    member "type" (.text e.cause.kind),
    member "message" (.text e.cause.message),
    member "file" (.text setup.filename),
    member "line" ((e.line.map Json.int).getD .null)]
  let steps := Json.list (m.steps.toList.map stepJson)
  .object [member "error" error, member "steps" steps]

def json (setup : Setup) (m : Machine) (e : Error) : Text :=
  (report setup m e).render 0

end Traceback

/-- What a run shows. -/
structure Shown where
  stdout : Text
  stderr : Text
  deriving Repr, DecidableEq

namespace Shown

def isClean (shown : Shown) : Bool :=
  shown.stderr.isEmpty

/-- Two clean runs that print the same, apart from blanks at the ends. -/
def isEquivalent (a b : Shown) : Bool :=
  a.isClean && b.isClean && Text.trim a.stdout == Text.trim b.stdout

end Shown

/-- The output of a run, and the traceback if it failed. -/
def Run.shown (setup : Setup) (run : Run) : Shown :=
  let stderr :=
    match run.error with
    | none => []
    | some e => Traceback.text setup run.machine e
  { stdout := run.machine.stdout, stderr }

end Snippet
