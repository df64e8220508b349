import Snippet.Extension
import Snippet.Run.Traceback

/-!
The console: lines are executed as they are entered, and an error ends only its own line.
-/

set_option autoImplicit false

namespace Snippet

structure Console where
  setup : Setup
  machine : Machine
  /-- The lines entered so far. -/
  entered : Nat

namespace Console

def escape : Char := '\x1b'

/-- A text in the colour of the console. -/
def coloured (t : String) : Text :=
  escape :: "[38;2;153;221;255m".toList ++ t.toList ++ escape :: "[0m".toList

def prompt : Text :=
  coloured ">>>" ++ [' ']

def greeting (services : Services) : Text :=
  let banner :=
    coloured "pysim" ++ " REPL. One statement per line, Ctrl-D to exit.\n".toList
  banner ++ services.describe.flatMap fun t => "  extension builtin ".toList ++ t ++ ['\n']

def start (services : Services) (verbose : Bool) : Console :=
  { setup := services.setup "<stdin>".toList verbose fun _ => none
    machine := Machine.initial
    entered := 0 }

/-- Execute a line. What it wrote is shown, and its traceback. -/
def enter (console : Console) (raw : Text) : Except Mishap (Console × Shown) :=
  let number := console.entered + 1
  let before := { console.machine with received := #[] }
  let after (m : Machine) : Console := { console with machine := m, entered := number }
  let written (m : Machine) : Text := m.received.toList.flatten
  match Exec.line console.setup raw number before with
  | .ok () m => .ok (after m, ⟨written m, []⟩)
  | .error (.error e) m =>
      .ok (after m, ⟨written m, Traceback.text console.setup m e ++ ['\n']⟩)
  | .error (.mishap f) _ => .error f

/-- The lines of an input; there is none after the last line break. -/
def inputLines (input : Text) : List Text :=
  let lines := Text.lines input
  if lines.getLast? == some [] then lines.dropLast else lines

/-- Everything that is shown for some lines, with a prompt before each and before their end. -/
def converse (console : Console) : List Text → Except Mishap Shown
  | [] => .ok ⟨prompt ++ ['\n'], []⟩
  | raw :: rest => do
      let (console, now) ← console.enter raw
      let later ← converse console rest
      return ⟨prompt ++ now.stdout ++ later.stdout, now.stderr ++ later.stderr⟩

end Console

end Snippet
