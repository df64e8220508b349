import Snippet.Extension.Loading

/-!
The extension for lessons on numbers: square roots, and rounding down and up.
-/

set_option autoImplicit false

namespace Snippet.Roots

open Value (ofInt ofFloat)

/-- A number that is neither a bool nor complex. -/
inductive RealNumber where
  | int (n : Int)
  | float (x : Float)

def numberOf (v : Value) : Eval RealNumber :=
  match v with
  | .int _ n => pure (.int n)
  | .float _ x => pure (.float x)
  | v => Eval.fail (.notReal v.typeName)

def squareRoot (v : Value) : Eval Value := do
  match ← numberOf v with
  | .int n =>
      if n < 0 then Eval.fail .mathDomain
      else ofFloat (← Eval.orBreach .overflow (floatOfInt? n)).sqrt
  | .float x => if x < 0 then Eval.fail .mathDomain else ofFloat x.sqrt

/-- Round to a whole number; an int is one. -/
def whole (round? : Float → Option Int) (v : Value) : Eval Value := do
  match ← numberOf v with
  | .int _ => return v
  | .float x =>
      match round? x with
      | some n => ofInt n
      | none => Eval.breach (if x.isNaN then .value else .overflow)

def unary (f : Value → Eval Value) (args : List Value) (_ : Bindings) : Eval Value :=
  match args with
  | v :: _ => f v
  | [] => Eval.breach .type

def function (name : String) (f : Value → Eval Value) (doc : String) : Request :=
  .builtin (Builtin.entry name 1 (some 1) (unary f)) doc.toList

def name : Text := "mathx".toList

def requests : List Request := [
  .metadata { name, version := "1.0.0".toList, requires := hostVersion },
  function "sqrt" squareRoot "sqrt(x): square root of a non-negative number",
  function "floor" (whole Real.floor?) "floor(x): largest integer <= x",
  function "ceil" (whole Real.ceil?) "ceil(x): smallest integer >= x"]

def module : Module :=
  { name := some name, version := hostVersion, requests := some requests }

end Snippet.Roots
