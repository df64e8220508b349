import Snippet.Line.Classify
import Snippet.Run.Machine

/-!
Executing one line. Assignments never fail: a value that cannot be evaluated is replaced by its
source text, and an item that cannot be stored is dropped.
-/

set_option autoImplicit false

namespace Snippet

/-- The items that a value gives to several names; a single name takes the value itself. -/
def Value.unpack (v : Value) (count : Nat) : Session (List Value) := do
  if count == 1 then return [v]
  let items ←
    match v with
    | .list r => pure ((← get).items r)
    | .tuple _ items => pure items
    | v =>
        match v.text? with
        | some t => Session.guarded (t.mapM fun c => Value.ofText [c])
        | _ => throw (.cause (.notUnpackable v.typeName))
  if items.length == count then return items
  throw (.cause (.wrongUnpackCount count items.length))

namespace Print

def keywords : List Text := ["sep".toList, "end".toList, "flush".toList]

/-- The text of a keyword; without it, or with `None`, the usual one. -/
def option (given : Bindings) (keyword : String) (usual : Text) : Session Text :=
  match given.find? fun b => b.1 == keyword.toList with
  | none | some (_, .none) => pure usual
  | some (_, v) =>
      match v.text? with
      | some t => pure t
      | none => throw (.cause (.printKeywordNotText keyword))

/-- What a print line writes. -/
def text (arguments : Text) (env : Env) : Session Text := do
  let (args, given) ← Session.evaluateArguments env arguments
  match given.find? fun b => !keywords.contains b.1 with
  | some (keyword, _) => throw (.cause (.invalidPrintKeyword keyword))
  | none => pure ()
  let sep ← option given "sep" [' ']
  let ending ← option given "end" ['\n']
  return Text.join sep (← args.mapM Session.display) ++ ending

/-- Names that are not defined are reported; every other cause is not told apart. -/
def reported (c : Cause) : Cause :=
  if c.kind == "NameError".toList then c else .evaluationFailed

end Print

namespace Exec

def print (setup : Setup) (arguments : Text) : Exec Unit := do
  match ← attempt setup (Print.text arguments) with
  | .ok chunk => write setup chunk
  | .error c => fail (Print.reported c)

/-- The expression whose value is assigned; an operator combines it with the target's own value. -/
def assignedExpression (targets : List Text) (expression : Text) : Option BinaryOp → Text
  | none => expression
  | some op =>
      targets.headD [] ++ ' ' :: op.symbol.toList ++ " (".toList ++ expression ++ [')']

def assignedValues (targets : List Text) (expression : Text) (op : Option BinaryOp) (env : Env) :
    Session (List Value) := do
  let v ← Session.evaluate env (assignedExpression targets expression op)
  v.unpack targets.length

/-- All targets share the source text that stands for a missing value. -/
def sourceValues (targets : List Text) (expression : Text) (_ : Env) : Session (List Value) := do
  let v ← Session.guarded (Value.ofRaw expression)
  return targets.map fun _ => v

def assign (setup : Setup) (targets : List Text) (expression : Text) (op : Option BinaryOp) :
    Exec Unit := do
  let values ←
    match ← attempt setup (assignedValues targets expression op) with
    | .ok values => pure values
    | .error _ =>
        match ← attempt setup (sourceValues targets expression) with
        | .ok values => pure values
        | .error c => fail c
  (targets.zip values).forM fun (name, v) => set name v

def assignItem (setup : Setup) (target expression : Text) : Exec Unit := do
  let _ ← attempt setup fun env => do
    let v ← Session.evaluate env expression
    Session.storeItem env target v

/-- An expression must have a value; why it has none is not told. -/
def check (setup : Setup) (source : Text) : Exec Unit := do
  match ← attempt setup fun env => Session.evaluate env source with
  | .ok _ => pure ()
  | .error _ => fail (.malformed .invalidSyntax)

/-- What a line does. -/
def perform (setup : Setup) : LineForm → Exec Unit
  | .blank | .header _ | .flow _ => pure ()
  | .print arguments => print setup arguments
  | .raise kind _ => fail (.manual kind)
  | .assignment targets expression op => assign setup targets expression op
  | .itemAssignment target expression => assignItem setup target expression
  | .expression source => check setup source

/-- A line that can be read, between its two events. -/
def step (setup : Setup) (line : Line) : Exec Unit := do
  emit setup (.beforeLine line)
  log setup line.number line.form.rule line.text
  perform setup line.form
  emit setup (.afterLine line)

/-- The rule that the log names for a line that cannot be read. -/
def syntaxRule : String := "SyntaxCheck"

/-- One line of source text. Blank lines leave no trace. -/
def line (setup : Setup) (raw : Text) (number : Int) : Exec Unit := do
  match Line.classify raw number with
  | .error m => do
      log setup number syntaxRule (Text.trim raw)
      throw (.error ⟨.malformed m, some number⟩)
  | .ok line =>
      match line.form with
      | .blank => pure ()
      | _ => atLine number (step setup line)

/-- Lines one after the other, numbered from a first number. -/
def lines (setup : Setup) : Int → List Text → Exec Unit
  | _, [] => pure ()
  | number, raw :: rest => do
      line setup raw number
      lines setup (number + 1) rest

/-- Executing some lines and then others is executing all of them. -/
theorem lines_append (setup : Setup) (number : Int) (first second : List Text) :
    lines setup number (first ++ second)
      = (do lines setup number first; lines setup (number + first.length) second) := by
  induction first generalizing number with
  | nil => simp [lines]
  | cons raw rest ih =>
      simp only [List.cons_append, lines, ih, bind_assoc, List.length_cons]
      have h : number + 1 + (rest.length : Int) = number + ((rest.length + 1 : Nat) : Int) := by
        omega
      rw [h]

end Exec

end Snippet
