import Snippet.Hook

/-!
The state of an execution: the workspace, the log of steps, the output, and the occasions that
arose.
-/

set_option autoImplicit false

namespace Snippet

/-- An entry of the log; its snapshot holds the names as they were before the step. -/
structure Step where
  index : Nat
  line : Int
  rule : String
  statement : Text
  snapshot : Option (List (Text × Text))
  deriving Repr, DecidableEq

structure Machine extends Workspace where
  steps : Array Step
  /-- The chunks of output. -/
  output : Array Text
  /-- The chunks that the sink has received. -/
  received : Array Text
  occasions : Array Occasion

/-- How a sink fails: with an error of a snippet if it raises one, and else with a mishap. -/
structure SinkFailure extends Mishap where
  error : Option Error := none
  deriving Repr, DecidableEq

def SinkFailure.halt (f : SinkFailure) : Halt :=
  match f.error with
  | some e => .error e
  | none => .mishap f.toMishap

/-- Told all chunks that it has received, a sink may fail. -/
abbrev Sink := Array Text → Option SinkFailure

/-- How snippets are executed. -/
structure Setup where
  filename : Text
  /-- Whether the log holds snapshots and tracebacks show the statement. -/
  verbose : Bool
  builtins : List Builtin
  hooks : List Hook
  sink : Sink

abbrev Exec := EStateM Halt Machine

namespace Machine

def initial : Machine :=
  { Workspace.empty with steps := #[], output := #[], received := #[], occasions := #[] }

def lastStep? (m : Machine) : Option Step :=
  m.steps.back?

/-- The output as one text, without the line break at its end. -/
def stdout (m : Machine) : Text :=
  let t := m.output.toList.flatten
  if t.getLast? == some '\n' then t.dropLast else t

def snapshot (m : Machine) : List (Text × Text) :=
  m.scope.snapshot m.store

def env (setup : Setup) (m : Machine) : Env :=
  { scope := m.scope, builtins := setup.builtins }

/-- Log a step. -/
def log (setup : Setup) (line : Int) (rule : String) (statement : Text) (m : Machine) : Machine :=
  let snapshot := if setup.verbose then some m.snapshot else none
  { m with steps := m.steps.push { index := m.steps.size, line, rule, statement, snapshot } }

end Machine

namespace Exec

def fail {α : Type} (c : Cause) : Exec α :=
  throw (.error ⟨c, none⟩)

/-- An evaluation in the present scope. Its causes are answers; what escapes it ends the
execution. -/
def attempt {α : Type} (setup : Setup) (f : Env → Session α) : Exec (Except Cause α) :=
  fun m =>
    match f (m.env setup) m.store with
    | .ok a s => .ok (.ok a) { m with store := s }
    | .error (.cause c) s => .ok (.error c) { m with store := s }
    | .error (.escaped b) s => .error (.mishap (.ofBreach b)) { m with store := s }

/-- Run the hooks of an occasion. -/
def emit (setup : Setup) (occasion : Occasion) : Exec Unit :=
  fun m =>
    let m := { m with occasions := m.occasions.push occasion }
    match Hook.emit setup.hooks setup.builtins occasion m.toWorkspace with
    | .ok () w => .ok () { m with toWorkspace := w }
    | .error e w => .error (.error e) { m with toWorkspace := w }

/-- A chunk goes to the output, and then to the sink. -/
def write (setup : Setup) (chunk : Text) : Exec Unit :=
  fun m =>
    let received := m.received.push chunk
    let m := { m with output := m.output.push chunk, received }
    match setup.sink received with
    | none => .ok () m
    | some failure => .error failure.halt m

def set (name : Text) (v : Value) : Exec Unit :=
  modify fun m => { m with scope := m.scope.set name v }

def log (setup : Setup) (line : Int) (rule : String) (statement : Text) : Exec Unit :=
  modify (·.log setup line rule statement)

/-- Errors without a line get this one. -/
def atLine {α : Type} (line : Int) (x : Exec α) : Exec α :=
  fun m =>
    match x m with
    | .ok a m => .ok a m
    | .error (.error e) m => .error (.error (e.at line)) m
    | .error (.mishap f) m => .error (.mishap f) m

end Exec

end Snippet
