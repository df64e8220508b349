import Snippet.Proofs.Run.Frame

/-!
Moving line numbers. Executing lines under numbers that are moved by an offset gives the same
machine and the same end, with the numbers in the log, the occasions and the error moved.
-/

set_option autoImplicit false

namespace Snippet

def Line.shift (offset : Int) (line : Line) : Line :=
  { line with number := line.number + offset }

def Error.shift (offset : Int) (e : Error) : Error :=
  { e with line := e.line.map (· + offset) }

def Halt.shift (offset : Int) : Halt → Halt
  | .error e => .error (e.shift offset)
  | .mishap m => .mishap m

def Step.shift (offset : Int) (step : Step) : Step :=
  { step with line := step.line + offset }

def Occasion.shift (offset : Int) : Occasion → Occasion
  | .programStart => .programStart
  | .beforeLine line => .beforeLine (line.shift offset)
  | .afterLine line => .afterLine (line.shift offset)
  | .onError e => .onError (e.shift offset)
  | .programEnd => .programEnd

def Machine.shift (offset : Int) (m : Machine) : Machine :=
  { m with
    steps := m.steps.map (Step.shift offset)
    occasions := m.occasions.map (Occasion.shift offset) }

def Run.shift (offset : Int) (run : Run) : Run :=
  { machine := run.machine.shift offset, error := run.error.map (Error.shift offset) }

theorem Machine.frame_shift (offset : Int) : Machine.Frame (Machine.shift offset) := by
  constructor <;> intros <;> rfl

theorem Halt.frame_shift (offset : Int) : Halt.Frame (Halt.shift offset) := by
  constructor <;> intros <;> rfl

theorem Line.classify_shift (raw : Text) (number offset : Int) :
    Line.classify raw (number + offset) = (Line.classify raw number).map (Line.shift offset) := by
  simp only [Line.classify]
  split
  · rfl
  · split <;> rfl

namespace Exec

-- The same execution, under line numbers that are moved.
abbrev Shifts {α : Type} (offset : Int) (x y : Exec α) : Prop :=
  Follows (Machine.shift offset) (Halt.shift offset) x y

theorem Shifts.log (offset : Int) (setup : Setup) (number : Int) (rule : String)
    (statement : Text) :
    Shifts offset (log setup number rule statement)
      (log setup (number + offset) rule statement) := by
  intro m
  show EStateM.Result.ok () _ = EStateM.Result.ok () _
  simp [Machine.log, Machine.shift, Step.shift, Machine.snapshot]

theorem Shifts.atLine {α : Type} {offset : Int} (number : Int) {x y : Exec α}
    (h : Shifts offset x y) : Shifts offset (atLine number x) (atLine (number + offset) y) := by
  intro m
  simp only [Exec.atLine, h m]
  cases x m with
  | ok a m => rfl
  | error halt m =>
      cases halt with
      | mishap f => rfl
      | error e =>
          obtain ⟨cause, line⟩ := e
          cases line <;> rfl

section Quiet

variable {setup : Setup} (quiet : setup.Quiet)
include quiet

theorem Shifts.emit (offset : Int) (occasion : Occasion) :
    Shifts offset (emit setup occasion) (emit setup (occasion.shift offset)) := by
  intro m
  simp [emit_eq quiet.hooks, mapResult, Machine.shift]

theorem Shifts.perform (offset : Int) (form : LineForm) :
    Shifts offset (perform setup form) (perform setup form) :=
  Follows.perform (Machine.frame_shift offset) (Halt.frame_shift offset) quiet form

theorem Shifts.step (offset : Int) (line : Line) :
    Shifts offset (step setup line) (step setup (line.shift offset)) := by
  refine (Shifts.emit quiet offset (.beforeLine line)).bind fun _ => ?_
  refine (Shifts.log offset setup line.number _ line.text).bind fun _ => ?_
  refine (Shifts.perform quiet offset line.form).bind fun _ => ?_
  exact Shifts.emit quiet offset (.afterLine line)

theorem Shifts.line (offset : Int) (raw : Text) (number : Int) :
    Shifts offset (line setup raw number) (line setup raw (number + offset)) := by
  simp only [Exec.line, Line.classify_shift]
  cases Line.classify raw number with
  | error m => exact (Shifts.log offset setup number _ _).bind fun _ _ => rfl
  | ok line =>
      cases form : line.form
      case blank => simpa [Except.map, Line.shift, form] using Follows.pure ()
      all_goals
        simpa [Except.map, Line.shift, form] using (Shifts.step quiet offset line).atLine number

theorem Shifts.lines (offset number : Int) (raws : List Text) :
    Shifts offset (lines setup number raws) (lines setup (number + offset) raws) := by
  induction raws generalizing number with
  | nil => exact .pure ()
  | cons raw rest ih =>
      refine (Shifts.line quiet offset raw number).bind fun _ => ?_
      have later := ih (number + 1)
      rwa [Int.add_right_comm] at later

end Quiet

end Exec

end Snippet
