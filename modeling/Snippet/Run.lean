import Snippet.Run.Execute
import Snippet.Text.NormalForm

/-!
Running a whole snippet. The first failing line ends the run. Every way to end early is turned
into one error, of which the hooks are told once.
-/

set_option autoImplicit false

namespace Snippet

/-- The lines of a source text. -/
def sourceLines (source : Text) : List Text :=
  Text.lines (Text.replaceAll ['\r', '\n'] ['\n'] source)

/-- All lines of a snippet, between the events of its start and its end. -/
def Exec.program (setup : Setup) (source : Text) : Exec Unit := do
  emit setup .programStart
  lines setup 1 (sourceLines source)
  emit setup .programEnd

/-- How a run ended. -/
structure Run where
  machine : Machine
  error : Option Error

namespace Run

/-- The error that a halt is reported as. One without a line belongs to the last step. -/
def errorOf (m : Machine) : Halt → Error
  | .error e => { e with line := e.line <|> m.lastStep?.map (·.line) }
  | .mishap f => ⟨.internal f.reason, some ((m.lastStep?.map (·.line)).getD 1)⟩

/-- An error that replaces another one takes its line, if it has none of its own. -/
def replacing (old new : Error) : Error :=
  match new.line with
  | none | some 0 => { new with line := old.line }
  | some _ => new

/-- Tell the hooks of an error. A hook that fails replaces it. -/
def conclude (setup : Setup) (e : Error) (m : Machine) : Run :=
  match Exec.emit setup (.onError e) m with
  | .ok () m => ⟨m, some e⟩
  | .error (.error new) m => ⟨m, some (replacing e new)⟩
  | .error (.mishap _) m => ⟨m, some e⟩

def ofSource (setup : Setup) (source : Text) : Run :=
  match Exec.program setup source Machine.initial with
  | .ok () m => ⟨m, none⟩
  | .error halt m => conclude setup (errorOf m halt) m

end Run

end Snippet
