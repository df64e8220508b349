import Snippet.Extension
import Snippet.Run.Traceback

/-!
Challenges and their verdicts. Code is judged by what it prints, and where it prints nothing by
its normal form; a choice and an arrangement are judged by their normal form alone.
-/

set_option autoImplicit false

namespace Snippet

inductive ChallengeKind where
  | code | choice | arrange | debug
  deriving Repr, DecidableEq

namespace ChallengeKind

def name : ChallengeKind → String
  | code => "code"
  | choice => "choice"
  | arrange => "arrange"
  | debug => "debug"

def all : List ChallengeKind := [code, choice, arrange, debug]

def ofName? (name : Text) : Option ChallengeKind :=
  all.find? fun k => k.name.toList == name

/-- Whether an answer is judged by its text alone. -/
def isTextual : ChallengeKind → Bool
  | choice | arrange => true
  | code | debug => false

end ChallengeKind

structure Challenge where
  kind : ChallengeKind
  target : Text

/-- What a learner has entered. -/
structure Entry where
  typed : Text
  chosen : Text
  fragments : List Text

/-- The text that is handed in for a kind of challenge. -/
def Entry.submission (entry : Entry) : ChallengeKind → Text
  | .arrange => Text.trim (Text.join [' '] entry.fragments)
  | .choice => Text.trim entry.chosen
  | .code | .debug => Text.trim entry.typed

def usualFilename : Text := "main.py".toList

/-- A run with the core functions alone. -/
def simulate (source : Text) : Shown :=
  let setup := Services.empty.setup usualFilename false fun _ => none
  (Run.ofSource setup source).shown setup

structure Verdict where
  solved : Bool
  shown : Shown
  deriving Repr, DecidableEq

def Challenge.grade (challenge : Challenge) (submitted : Text) : Verdict :=
  let same := Text.normalForm submitted == Text.normalForm challenge.target
  if challenge.kind.isTextual then { solved := same, shown := ⟨[], []⟩ }
  else
    let shown := simulate submitted
    let solved :=
      shown.isEquivalent (simulate challenge.target)
        && (!(Text.trim shown.stdout).isEmpty || same)
    { solved, shown }

end Snippet
