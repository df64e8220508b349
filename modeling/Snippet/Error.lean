import Snippet.Eval.Evaluate

/-!
How an execution ends early: with an error of the snippet, or with a mishap that the rules of the
snippets do not cover.
-/

set_option autoImplicit false

namespace Snippet

/-- A cause, and the line that it belongs to once that is known. -/
structure Error where
  cause : Cause
  line : Option Int
  deriving Repr, DecidableEq

/-- A failure of what surrounds a snippet: of a sink, of a hook, or of the wording of a message. -/
structure Mishap where
  kind : Text
  reason : Text
  deriving Repr, DecidableEq

namespace Mishap

def reasonOf : Breach → String
  | .depth => "maximum recursion depth exceeded while getting the repr of an object"
  | .value =>
      "Exceeds the limit (4300 digits) for integer string conversion; "
        ++ "use sys.set_int_max_str_digits() to increase the limit"
  | _ => ""

/-- The breach that keeps a message from being worded. -/
def ofBreach (b : Breach) : Mishap :=
  { kind := b.kind.toList, reason := (reasonOf b).toList }

end Mishap

/-- What ends an execution early. -/
inductive Halt where
  | error (e : Error)
  | mishap (m : Mishap)
  deriving Repr, DecidableEq

namespace Halt

def ofStop : Stop → Halt
  | .cause c => .error ⟨c, none⟩
  | .escaped b => .mishap (Mishap.ofBreach b)

end Halt

/-- An error keeps its line; one without a line gets this one. -/
def Error.at (e : Error) (line : Int) : Error :=
  { e with line := some (e.line.getD line) }

end Snippet
