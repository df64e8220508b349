import Snippet.Eval.Builtin
import Snippet.Expr.Grammar
import Snippet.Scope

/-!
Evaluating expressions. Parts are evaluated from left to right, in an entry of a dict the value
before the key; names are looked up in the scope first and then among the functions. The nesting
of an expression is bounded by a budget. The entry points at the end turn every failure into its
cause.
-/

set_option autoImplicit false

namespace Snippet

/-- The names that an expression may use. -/
structure Env where
  scope : Scope
  builtins : List Builtin

namespace Evaluate

open Value (ofInt ofNat ofFloat ofText ofNewText ofTuple ofList ofEntries checked)

/-- Evaluates the parts of an expression. -/
abbrev Evaluator := Expr → Eval Value

def literal : Literal → Eval Value
  | .none => pure .none
  | .bool b => pure (.bool b)
  | .int n => ofNat n
  | .float x => ofFloat x
  | .text t => ofText t
  | .joined t => ofNewText t

def name (env : Env) (id : Text) : Eval Value :=
  match env.scope.find? id with
  | some v => pure v
  | none =>
      match Builtin.find? env.builtins id with
      | some b => pure (.builtin b.name)
      | none => Eval.fail (.undefinedName id)

/-- A value under a format; without one it is shown. -/
def format (v : Value) (spec : Text) : Eval Value := do
  if spec.isEmpty then v.toShown
  else
    match v.text?, Numeric.ofValue? v with
    | some t, _ =>
        let spec ← Eval.lift (Format.Spec.read .left (some 's') spec)
        let formatted ← Eval.lift (Format.formatText spec t)
        if spec.leaves t.length then Value.exactText v t else ofText formatted
    | _, some (.int n) =>
        let spec ← Eval.lift (Format.Spec.read .right (some 'd') spec)
        ofText (← Eval.lift (Format.formatInt spec n))
    | _, some (.float x) =>
        let spec ← Eval.lift (Format.Spec.read .right none spec)
        ofText (← Eval.lift (Format.formatFloat spec x))
    | _, some (.complex z) =>
        let spec ← Eval.lift (Format.Spec.read .right none spec)
        ofText (← Eval.lift (Format.formatComplex spec z))
    | none, none => Eval.breach .type

def convert (conversion : Option Conversion) (v : Value) : Eval Value := do
  match conversion with
  | none => return v
  | some .plain => v.toShown
  | some .quoted => v.toWritten

def part (eval : Evaluator) : Part → Eval Value
  | .text t => ofText t
  | .field e conversion spec => do
      let v ← eval e
      Value.checkWeight v
      let v ← convert conversion v
      let spec := spec.getD []
      if Format.hasLongNumber spec then Eval.fail .formatTooWide
      format v spec

/-- The parts of a formatted text joined; a single part is the text itself. -/
def joinParts (parts : List Value) : Eval Value :=
  match parts with
  | [v] => pure v
  | parts => ofNewText (parts.flatMap fun v => v.text?.getD [])

/-- Entries in order, the value of each before its key. -/
def entries (eval : Evaluator) : Entries → List (Expr × Expr) → Eval Entries
  | done, [] => return done
  | done, (k, v) :: rest => do
      let value ← eval v
      let key ← eval k
      if !key.isHashable then Eval.breach .type
      entries eval (done.insert key value) rest

/-- A comparison holds as long as each link does; operands behind a link that fails are not
evaluated. -/
def links (eval : Evaluator) : Value → List (Comparison × Expr) → Eval Bool
  | _, [] => return true
  | left, (op, e) :: rest => do
      let right ← eval e
      if ← Operator.compare op left right then links eval right rest else return false

def optional (eval : Evaluator) (e : Option Expr) : Eval (Option Value) :=
  match e with
  | some e => some <$> eval e
  | none => pure none

def slice (eval : Evaluator) (lower upper step : Option Expr) : Eval Subscript.Slice := do
  let lower ← optional eval lower
  let upper ← optional eval upper
  let step ← optional eval step
  return { lower, upper, step }

def index (eval : Evaluator) (base : Value) (sub : Subscript) : Eval Value := do
  match sub with
  | .item e => Subscript.getItem base (← eval e)
  | .slice _ lower upper step =>
      Subscript.getSlice base (← slice eval lower upper step)

/-- Arguments in order, those by position and those by keyword apart; the lists so far are in
reverse order. -/
def argumentsFrom (eval : Evaluator) :
    List Value → Bindings → List Argument → Eval (List Value × Bindings)
  | args, keywords, [] => return (args.reverse, keywords.reverse)
  | args, keywords, (keyword, e) :: rest => do
      let v ← eval e
      match keyword with
      | none => argumentsFrom eval (v :: args) keywords rest
      | some k =>
          if keywords.any fun b => b.1 == k then Eval.fail (.repeatedKeyword k)
          else argumentsFrom eval args ((k, v) :: keywords) rest

def arguments (eval : Evaluator) (args : List Argument) : Eval (List Value × Bindings) :=
  argumentsFrom eval [] [] args

def callMethod (eval : Evaluator) (base : Expr) (id : Text) (args : List Argument) :
    Eval Value := do
  let base ← eval base
  let (args, keywords) ← arguments eval args
  Method.call base id args keywords

def callFunction (env : Env) (eval : Evaluator) (func : Expr) (args : List Argument) :
    Eval Value := do
  let callee ← eval func
  let (args, keywords) ← arguments eval args
  let function? :=
    match callee with
    | .builtin id => Builtin.find? env.builtins id
    | _ => none
  match function? with
  | some b => checked (← b.invoke args keywords)
  | none => Eval.fail (.notCallable callee.typeName)

def isTrue (v : Value) : Eval Bool :=
  return Value.isTrue (← get) v

/-- One expression, given how its parts are evaluated. -/
def step (env : Env) (eval : Evaluator) : Expr → Eval Value
  | .literal _ v => literal v
  | .name _ id => name env id
  | .formatted _ parts => do checked (← joinParts (← parts.mapM (part eval)))
  | .list _ items => do checked (← ofList (← items.mapM eval))
  | .tuple _ items => do checked (← ofTuple (← items.mapM eval))
  | .dict _ es => do checked (← ofEntries (← entries eval [] es))
  | .unary _ op e => do Operator.unary op (← eval e)
  | .bool _ op left right => do
      let v ← eval left
      if (← isTrue v) == (op == .or) then return v else eval right
  | .binary _ op left right => do
      let a ← eval left
      let b ← eval right
      Operator.binary op a b
  | .compare _ first rest => do
      let v ← eval first
      return .bool (← links eval v rest)
  | .conditional _ test body orelse => do
      if ← isTrue (← eval test) then eval body else eval orelse
  | .index _ base sub => do
      let v ← eval base
      index eval v sub
  | .call _ (.member _ base id) args => callMethod eval base id args
  | .call _ func args => callFunction env eval func args
  | .member _ base id => do
      let v ← eval base
      Eval.fail (.bareMember v.typeName id)

/-- Evaluate as deep as a budget allows. -/
def evalAt (env : Env) : Nat → Evaluator
  | 0 => fun _ => Eval.breach .depth
  | budget + 1 => step env (evalAt env budget)

/-- The nesting of an expression that is evaluated. -/
def evalBudget : Nat := 960

def eval (env : Env) : Evaluator :=
  evalAt env evalBudget

/-- Read a text before it is evaluated. -/
def reading {α : Type} (r : Except ReadError α) : Eval α :=
  match r with
  | .ok a => pure a
  | .error .tooDeep => Eval.breach .depth
  | .error e => Eval.fail (.unreadable e)

/-- Assign to the target of a subscript. -/
def assignItem (env : Env) (target : Text) (value : Value) : Eval Unit := do
  match ← reading (Expr.read target) with
  | .index _ base sub =>
      let container ← eval env base
      match container with
      | .list _ | .dict _ =>
          let weight := Value.weight (← get) maxLength
          if weight container + weight value > maxLength then Eval.fail .resultTooLarge
      | _ => pure ()
      match sub with
      | .item e => Subscript.setItem container (← eval env e) value
      | .slice _ lower upper step =>
          Subscript.setSlice container (← slice (eval env) lower upper step) value
  | _ => Eval.fail .notAssignable

end Evaluate

/-- How an evaluation ends that has no value. -/
inductive Stop where
  | cause (c : Cause)
  /-- A failure that is no answer: memory ran out, or a failure could not be worded. -/
  | escaped (b : Breach)
  deriving Repr, DecidableEq

/-- Evaluations whose failures are settled. -/
abbrev Session := EStateM Stop Store

namespace Session

/-- How a fault ends an evaluation. A missing key is written out, which may fail in turn. -/
def stopOf (s : Store) : Fault → Stop
  | .cause c => .cause c
  | .breach .depth => .cause .tooDeep
  | .breach .memory => .escaped .memory
  | .breach b => .cause (.breach b)
  | .missingKey key =>
      match Value.written s key with
      | .ok shown => .cause (.missingKey shown)
      | .error b => .escaped b

/-- Settle the failures of an evaluation. -/
def guarded {α : Type} (m : Eval α) : Session α :=
  fun s =>
    match m s with
    | .ok a s => .ok a s
    | .error fault s => .error (stopOf s fault) s

theorem guarded_eq_ok {α : Type} {m : Eval α} {a : α} {s s' : Store} :
    guarded m s = .ok a s' ↔ m s = .ok a s' := by
  rw [guarded]
  cases m s <;> simp

/-- The value of an expression. -/
def evaluate (env : Env) (t : Text) : Session Value :=
  guarded do Evaluate.eval env (← Evaluate.reading (Expr.read t))

/-- The values of the arguments of a call. -/
def evaluateArguments (env : Env) (t : Text) : Session (List Value × Bindings) :=
  guarded do
    Evaluate.arguments (Evaluate.eval env) (← Evaluate.reading (Expr.readArguments t))

/-- Put a value into a list or a dict, at a target such as `marks[0]`. -/
def storeItem (env : Env) (target : Text) (value : Value) : Session Unit :=
  guarded (Evaluate.assignItem env target value)

/-- The text of a value as it is shown. -/
def display (v : Value) : Session Text :=
  guarded do
    Value.checkWeight v
    Eval.lift (Value.shown (← get) v)

end Session

end Snippet
