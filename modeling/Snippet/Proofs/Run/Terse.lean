import Snippet.Proofs.Run.Frame

/-!
Runs without snapshots. A verbose log holds the names before each step, and nothing in a run reads
them: without them every run takes the same course, whatever its hooks and its sink do.
-/

set_option autoImplicit false

namespace Snippet

def Setup.terse (setup : Setup) : Setup :=
  { setup with verbose := false }

def Step.terse (step : Step) : Step :=
  { step with snapshot := none }

def Machine.terse (m : Machine) : Machine :=
  { m with steps := m.steps.map Step.terse }

def Run.terse (run : Run) : Run :=
  { run with machine := run.machine.terse }

theorem Machine.frame_terse : Machine.Frame Machine.terse := by
  constructor <;> intros <;> rfl

theorem Machine.lastStep?_terse (m : Machine) : m.terse.lastStep? = m.lastStep?.map Step.terse := by
  simp [lastStep?, terse]

namespace Exec

-- The same execution, whose log has no snapshots.
abbrev Tersely {α : Type} (x y : Exec α) : Prop :=
  Follows Machine.terse id x y

variable (setup : Setup)

theorem Tersely.emit (occasion : Occasion) :
    Tersely (emit setup occasion) (emit setup.terse occasion) := by
  intro m
  simp only [Exec.emit, Setup.terse, Machine.terse]
  cases Hook.emit setup.hooks setup.builtins occasion m.toWorkspace <;> rfl

theorem Tersely.log (number : Int) (rule : String) (statement : Text) :
    Tersely (log setup number rule statement) (log setup.terse number rule statement) := by
  intro m
  show EStateM.Result.ok () _ = EStateM.Result.ok () _
  simp [Machine.log, Machine.terse, Step.terse, Setup.terse]

theorem Tersely.write (chunk : Text) : Tersely (write setup chunk) (write setup chunk) := by
  intro m
  simp only [Exec.write, Machine.terse]
  cases setup.sink (m.received.push chunk) <;> rfl

-- What a line does takes no notice of the log.
theorem perform_terse (form : LineForm) : perform setup.terse form = perform setup form := by
  cases form <;> rfl

theorem Tersely.perform (form : LineForm) :
    Tersely (perform setup form) (perform setup.terse form) := by
  rw [perform_terse]
  exact Follows.performWrite Machine.frame_terse (by constructor <;> intros <;> rfl)
    (Tersely.write setup) form

theorem Tersely.step (line : Line) : Tersely (step setup line) (step setup.terse line) := by
  refine (Tersely.emit setup _).bind fun _ => ?_
  refine (Tersely.log setup _ _ _).bind fun _ => ?_
  refine (Tersely.perform setup _).bind fun _ => ?_
  exact Tersely.emit setup _

theorem Tersely.atLine {α : Type} (number : Int) {x y : Exec α} (h : Tersely x y) :
    Tersely (atLine number x) (atLine number y) := by
  intro m
  simp only [Exec.atLine, h m]
  cases x m with
  | ok a m => rfl
  | error halt m => cases halt <;> rfl

theorem Tersely.line (raw : Text) (number : Int) :
    Tersely (line setup raw number) (line setup.terse raw number) := by
  simp only [Exec.line]
  cases Line.classify raw number with
  | error m => exact (Tersely.log setup number _ _).bind fun _ _ => rfl
  | ok line =>
      cases form : line.form
      case blank => simpa [form] using Follows.pure ()
      all_goals simpa [form] using (Tersely.step setup line).atLine number

theorem Tersely.lines (number : Int) (raws : List Text) :
    Tersely (lines setup number raws) (lines setup.terse number raws) := by
  induction raws generalizing number with
  | nil => exact .pure ()
  | cons raw rest ih => exact (Tersely.line setup raw number).bind fun _ => ih (number + 1)

theorem Tersely.program (source : Text) :
    Tersely (program setup source) (program setup.terse source) := by
  refine (Tersely.emit setup _).bind fun _ => ?_
  exact (Tersely.lines setup 1 _).bind fun _ => Tersely.emit setup _

end Exec

namespace Run

theorem errorOf_terse (m : Machine) (halt : Halt) : errorOf m.terse halt = errorOf m halt := by
  have last : m.terse.lastStep?.map (·.line) = m.lastStep?.map (·.line) := by
    rw [Machine.lastStep?_terse, Option.map_map]
    rfl
  cases halt <;> simp [errorOf, last]

theorem conclude_terse (setup : Setup) (e : Error) (m : Machine) :
    conclude setup.terse e m.terse = (conclude setup e m).terse := by
  have told := Exec.Tersely.emit setup (.onError e) m
  rw [conclude, conclude, told]
  cases Exec.emit setup (.onError e) m with
  | ok _ n => rfl
  | error halt n => cases halt <;> rfl

/-- Without snapshots a run is the same but for them. -/
theorem ofSource_terse (setup : Setup) (source : Text) :
    ofSource setup.terse source = (ofSource setup source).terse := by
  have follows := Exec.Tersely.program setup source Machine.initial
  have start : Machine.initial.terse = Machine.initial := by
    simp [Machine.terse, Machine.initial]
  rw [start] at follows
  rw [ofSource, ofSource, follows]
  cases Exec.program setup source Machine.initial with
  | ok _ m => rfl
  | error halt m =>
      show conclude setup.terse (errorOf m.terse halt) m.terse = _
      rw [errorOf_terse, conclude_terse]

end Run

end Snippet
