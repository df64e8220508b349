import Snippet.Challenge
import Snippet.Proofs.Program

/-!
Executions that follow each other. Without hooks and with a sink that never fails, the course of a
run depends on the workspace alone: what the log, the output and the occasions held before changes
nothing, and the numbers of the lines only show in the log, the occasions and the error.
-/

set_option autoImplicit false

namespace Snippet

-- Nothing outside of the snippet takes part in its execution.
structure Setup.Quiet (setup : Setup) : Prop where
  hooks : setup.hooks = []
  sink : ∀ received, setup.sink received = none

-- The setup of a simulation.
def plainSetup : Setup :=
  Services.empty.setup usualFilename false fun _ => none

theorem plainSetup_quiet : plainSetup.Quiet :=
  ⟨rfl, fun _ => rfl⟩

-- Changes that evaluations do not see and that do not get in the way of new output.
structure Machine.Frame (f : Machine → Machine) : Prop where
  scope (m : Machine) : (f m).scope = m.scope
  store (m : Machine) : (f m).store = m.store
  withScope (m : Machine) (scope : Scope) : f { m with scope } = { f m with scope }
  withStore (m : Machine) (store : Store) : f { m with store } = { f m with store }
  write (m : Machine) (chunk : Text) :
    f { m with output := m.output.push chunk, received := m.received.push chunk }
      = { f m with output := (f m).output.push chunk, received := (f m).received.push chunk }

-- Changes that only touch the line of an error that has one.
structure Halt.Frame (g : Halt → Halt) : Prop where
  unplaced (c : Cause) : g (.error ⟨c, none⟩) = .error ⟨c, none⟩
  mishap (m : Mishap) : g (.mishap m) = .mishap m

theorem Line.classify_number {raw : Text} {number : Int} {line : Line}
    (h : Line.classify raw number = .ok line) : line.number = number := by
  simp only [Line.classify] at h
  split at h
  · cases h
    rfl
  · split at h <;> cases h
    rfl

-- A machine when a line starts to act: it has been announced and logged.
def Machine.begin (setup : Setup) (line : Line) (m : Machine) : Machine :=
  { m with occasions := m.occasions.push (.beforeLine line) }.log setup line.number
    line.form.rule line.text

namespace Exec

variable {α β : Type} {f : Machine → Machine} {g : Halt → Halt}

def mapResult (f : Machine → Machine) (g : Halt → Halt) :
    EStateM.Result Halt Machine α → EStateM.Result Halt Machine α
  | .ok a m => .ok a (f m)
  | .error h m => .error (g h) (f m)

/-- The second execution does to a changed machine what the first one does to the machine. -/
def Follows (f : Machine → Machine) (g : Halt → Halt) (x y : Exec α) : Prop :=
  ∀ m, y (f m) = mapResult f g (x m)

theorem Follows.pure (a : α) : Follows f g (pure a) (pure a) :=
  fun _ => rfl

theorem Follows.bind {x y : Exec α} {k l : α → Exec β} (first : Follows f g x y)
    (next : ∀ a, Follows f g (k a) (l a)) : Follows f g (x >>= k) (y >>= l) := by
  intro m
  simp only [bind_eq, first m]
  cases x m with
  | ok a m => exact next a m
  | error h m => rfl

theorem Follows.forM (xs : List α) {k l : α → Exec Unit} (each : ∀ a, Follows f g (k a) (l a)) :
    Follows f g (xs.forM k) (xs.forM l) := by
  induction xs with
  | nil => exact .pure ()
  | cons a rest ih => exact (each a).bind fun _ => ih

section Frame

variable (frame : Machine.Frame f) (bound : Halt.Frame g)

include bound in
theorem Follows.fail (c : Cause) : Follows f g (fail c : Exec α) (fail c) := by
  intro m
  show EStateM.Result.error _ _ = EStateM.Result.error _ _
  rw [bound.unplaced]

include frame in
theorem Follows.set (name : Text) (v : Value) : Follows f g (set name v) (set name v) := by
  intro m
  show EStateM.Result.ok () { f m with scope := (f m).scope.set name v } = .ok () (f _)
  rw [frame.scope]
  exact congrArg (EStateM.Result.ok ()) (frame.withScope m _).symm

include frame bound in
theorem Follows.attempt (setup : Setup) (action : Env → Session α) :
    Follows f g (attempt setup action) (attempt setup action) := by
  intro m
  have env : (f m).env setup = m.env setup := by simp [Machine.env, frame.scope]
  simp only [Exec.attempt, env, frame.store]
  cases action (m.env setup) m.store with
  | ok a s =>
      exact congrArg (EStateM.Result.ok (Except.ok a)) (frame.withStore m s).symm
  | error stop s =>
      cases stop with
      | cause c =>
          exact congrArg (EStateM.Result.ok (Except.error c)) (frame.withStore m s).symm
      | escaped b =>
          simp only [mapResult, bound.mishap]
          exact congrArg (EStateM.Result.error _) (frame.withStore m s).symm

include frame in
theorem Follows.write {setup : Setup} (quiet : setup.Quiet) (chunk : Text) :
    Follows f g (write setup chunk) (write setup chunk) := by
  intro m
  simp [Exec.write, quiet.sink, mapResult, frame.write]

include frame bound in
-- Writing is all that a line does outside of the workspace.
theorem Follows.performWrite {setup : Setup}
    (writes : ∀ chunk, Follows f g (Exec.write setup chunk) (Exec.write setup chunk))
    (form : LineForm) : Follows f g (perform setup form) (perform setup form) := by
  cases form with
  | blank | header | flow => exact .pure ()
  | print arguments =>
      refine (Follows.attempt frame bound setup _).bind fun result => ?_
      cases result with
      | ok chunk => exact writes chunk
      | error c => exact .fail bound _
  | raise kind => exact .fail bound _
  | assignment targets expression op =>
      have assigned (values : List Value) :
          Follows f g ((targets.zip values).forM fun p => Exec.set p.1 p.2)
            ((targets.zip values).forM fun p => Exec.set p.1 p.2) :=
        .forM _ fun p => .set frame p.1 p.2
      refine (Follows.attempt frame bound setup _).bind fun result => ?_
      cases result with
      | ok values => exact assigned values
      | error _ =>
          refine (Follows.attempt frame bound setup _).bind fun result => ?_
          cases result with
          | ok values => exact assigned values
          | error c => exact (Follows.fail bound c).bind assigned
  | itemAssignment target expression =>
      exact (Follows.attempt frame bound setup _).bind fun _ => .pure ()
  | expression source =>
      refine (Follows.attempt frame bound setup _).bind fun result => ?_
      cases result with
      | ok v => exact .pure ()
      | error c => exact .fail bound _

include frame bound in
/-- What a line does depends on the workspace alone. -/
theorem Follows.perform {setup : Setup} (quiet : setup.Quiet) (form : LineForm) :
    Follows f g (perform setup form) (perform setup form) :=
  .performWrite frame bound (.write frame quiet) form

end Frame

-- The machine that an execution leaves, however it ends.
def machineOf : EStateM.Result Halt Machine α → Machine
  | .ok _ m | .error _ m => m

-- What a line does leaves the log and the occasions alone, whatever the sink does.
theorem perform_beside (setup : Setup) (form : LineForm) (m : Machine) :
    (machineOf (perform setup form m)).steps = m.steps
      ∧ (machineOf (perform setup form m)).occasions = m.occasions := by
  let kept (n : Machine) : Machine := { n with steps := m.steps, occasions := m.occasions }
  have frame : Machine.Frame kept := by
    constructor <;> intros <;> rfl
  have writes (chunk : Text) : Follows kept id (write setup chunk) (write setup chunk) := by
    intro n
    simp only [write, kept]
    split <;> simp_all [mapResult]
  have same : perform setup form m = mapResult kept id (perform setup form m) :=
    Follows.performWrite frame (by constructor <;> intros <;> rfl) writes form m
  rw [same]
  cases perform setup form m <;> exact ⟨rfl, rfl⟩

section Hookless

variable {setup : Setup} (hookless : setup.hooks = [])
include hookless

theorem emit_eq (occasion : Occasion) (m : Machine) :
    emit setup occasion m = .ok () { m with occasions := m.occasions.push occasion } := by
  simp [emit, hookless, Hook.emit, Hook.ofEvent]
  rfl

theorem step_eq (line : Line) (m : Machine) :
    step setup line m =
      match perform setup line.form (m.begin setup line) with
      | .ok () n => .ok () { n with occasions := n.occasions.push (.afterLine line) }
      | .error h n => .error h n := by
  rw [step, bind_eq, emit_eq hookless]
  show (perform setup line.form >>= fun _ => emit setup (.afterLine line)) (m.begin setup line) = _
  rw [bind_eq]
  cases perform setup line.form (m.begin setup line) with
  | ok _ n => exact emit_eq hookless _ n
  | error h n => rfl

end Hookless

-- An error without its line.
def unplaced : Halt → Halt
  | .error e => .error ⟨e.cause, none⟩
  | .mishap f => .mishap f

-- What a line does names no line in its errors, if the sink names none; that is left to the line
-- itself.
theorem perform_error_line {setup : Setup}
    (lineless : ∀ received failure e, setup.sink received = some failure →
      failure.error = some e → e.line = none)
    {form : LineForm} {m n : Machine} {e : Error}
    (h : perform setup form m = .error (.error e) n) : e.line = none := by
  have same_machine : Machine.Frame id := by constructor <;> intros <;> rfl
  have forgets : Halt.Frame unplaced := by constructor <;> intros <;> rfl
  have writes (chunk : Text) : Follows id unplaced (write setup chunk) (write setup chunk) := by
    intro n
    simp only [write, id]
    split
    · rfl
    · rename_i failure found
      have kept : unplaced failure.halt = failure.halt := by
        rw [SinkFailure.halt]
        split
        · rename_i e own
          have none : e.line = none := lineless _ failure e found own
          rw [unplaced, ← none]
        · rfl
      rw [mapResult, kept]
      rfl
  have same : perform setup form m = mapResult id unplaced (perform setup form m) :=
    Follows.performWrite same_machine forgets writes form m
  rw [h] at same
  injection same with same
  injection same with same
  rw [same]

section Quiet

variable {setup : Setup} (quiet : setup.Quiet)
include quiet

-- Only the entry of a line that starts to act is added to the log before it fails.
theorem step_halts {line : Line} {m n : Machine} {halt : Halt}
    (h : step setup line m = .error halt n) :
    n.steps = (m.begin setup line).steps ∧ ∀ e, halt = .error e → e.line = none := by
  rw [step_eq quiet.hooks] at h
  have steps := (perform_beside setup line.form (m.begin setup line)).1
  cases performed : perform setup line.form (m.begin setup line) with
  | ok _ k =>
      rw [performed] at h
      cases h
  | error _ k =>
      rw [performed] at h steps
      cases h
      refine ⟨steps, fun e failed => ?_⟩
      subst failed
      exact perform_error_line (by simp [quiet.sink]) performed

-- A line that halts is the last one in the log, and the error belongs to it.
theorem line_halts {raw : Text} {number : Int} {m n : Machine} {halt : Halt}
    (h : line setup raw number m = .error halt n) :
    n.lastStep?.map (·.line) = some number ∧ (Run.errorOf n halt).line = some number := by
  simp only [Exec.line] at h
  cases classified : Line.classify raw number with
  | error malformed =>
      rw [classified] at h
      cases h
      simp [Machine.lastStep?, Machine.log, Run.errorOf]
  | ok line =>
      have acted : atLine number (step setup line) m = .error halt n := by
        rw [classified] at h
        cases form : line.form <;> simp only [form] at h
        case blank => cases h
        all_goals exact h
      simp only [atLine] at acted
      cases stepped : step setup line m with
      | ok _ k =>
          rw [stepped] at acted
          cases acted
      | error inner k =>
          obtain ⟨steps, unplaced⟩ := step_halts quiet stepped
          have last : k.lastStep?.map (·.line) = some number := by
            simp [Machine.lastStep?, steps, Machine.begin, Machine.log,
              Line.classify_number classified]
          rw [stepped] at acted
          cases inner with
          | mishap f =>
              cases acted
              exact ⟨last, by simp [Run.errorOf, last]⟩
          | error e =>
              cases acted
              exact ⟨last, by simp [Run.errorOf, Error.at, unplaced e rfl]⟩

end Quiet

end Exec

end Snippet
