import Snippet.Eval.Method

/-!
Functions that expressions may call, and the core table of them. A function states how many
arguments and which keywords it takes; that is checked before it runs.
-/

set_option autoImplicit false

namespace Snippet

structure Builtin where
  name : Text
  least : Int
  /-- The greatest number of arguments, if there is one. -/
  most : Option Int
  keywords : List Text
  run : List Value → Bindings → Eval Value

namespace Builtin

open Value (ofInt ofNat ofFloat ofText ofList)
open Subscript (iterate)

/-- The function with a name in a table. -/
def find? (table : List Builtin) (name : Text) : Option Builtin :=
  List.find? (fun b => b.name == name) table

def checkArguments (b : Builtin) (given : Nat) (keywords : Bindings) : Eval Unit := do
  if (given : Int) < b.least then Eval.fail (.tooFewArguments b.name b.least given)
  match b.most with
  | some most => if (given : Int) > most then Eval.fail (.tooManyArguments b.name most given)
  | none => pure ()
  match keywords.find? fun k => !b.keywords.contains k.1 with
  | some k => Eval.fail (.unexpectedKeyword b.name k.1)
  | none => pure ()

/-- A failure inside a function keeps its kind; a missing key is worded at once. -/
def settle {α : Type} (fault : Fault) : Eval α := do
  match fault with
  | .cause c => Eval.fail c
  | .breach b => Eval.fail (.breach b)
  | .missingKey key => Eval.fail (.missingKey (← Eval.lift (Value.written (← get) key)))

/-- Check the arguments of a call, and call. -/
def invoke (b : Builtin) (args : List Value) (keywords : Bindings) : Eval Value := do
  b.checkArguments args.length keywords
  args.forM Value.checkWeight
  keywords.forM fun k => Value.checkWeight k.2
  try b.run args keywords catch fault => settle fault

def length (args : List Value) (_ : Bindings) : Eval Value := do
  match args with
  | v :: _ =>
      match v with
      | .text _ t | .raw _ t => ofNat t.length
      | .tuple _ items => ofNat items.length
      | .list r => ofNat (← Eval.itemsOf r).length
      | .dict r => ofNat (← Eval.entriesOf r).length
      | v => Eval.fail (.noLength v.typeName)
  | [] => Eval.breach .type

def toText (args : List Value) (_ : Bindings) : Eval Value :=
  match args with
  | v :: _ => v.toShown
  | [] => ofText []

def truncated (x : Float) : Eval Value := do
  match Real.truncate? x with
  | some n => ofInt n
  | none => Eval.breach (if x.isNaN then .value else .overflow)

def intOf (v : Value) : Eval Value := do
  match v with
  | .int .. => return v
  | .bool b => ofInt b.toInt
  | .float _ x => truncated x
  | v =>
      match v.text? with
      | some t => ofInt (← Eval.orBreach .value (Numeral.integer? 10 t))
      | none => Eval.breach .type

/-- The integer that a text means in a base from 2 to 36, or in base 0, which the text decides. -/
def intInBase (t : Text) (base : Value) : Eval Value := do
  match base.int? with
  | none => Eval.breach .type
  | some b =>
      if b == 0 || (2 ≤ b && b ≤ 36) then
        ofInt (← Eval.orBreach .value (Numeral.integer? b.toNat t))
      else Eval.breach .value

def toInt (args : List Value) (_ : Bindings) : Eval Value :=
  match args with
  | [] => ofInt 0
  | [v] => intOf v
  | v :: base :: _ =>
      match v.text? with
      | some t => intInBase t base
      | none => Eval.fail .baseWithoutText

def toFloat (args : List Value) (_ : Bindings) : Eval Value := do
  match args with
  | [] => ofFloat 0
  | v :: _ =>
      match v with
      | .float .. => return v
      | v =>
          match v.int?, v.text? with
          | some n, _ => ofFloat (← Eval.orBreach .overflow (floatOfInt? n))
          | none, some t => ofFloat (← Eval.orBreach .value (Numeral.float? t))
          | none, none => Eval.breach .type

def toBool (args : List Value) (_ : Bindings) : Eval Value := do
  match args with
  | v :: _ => return .bool (Value.isTrue (← get) v)
  | [] => return .bool false

def absolute (args : List Value) (_ : Bindings) : Eval Value := do
  match args with
  | .int tag n :: _ => if n < 0 then ofInt (-n) else return .int tag n
  | .bool b :: _ => ofInt b.toInt
  | .float _ x :: _ => ofFloat x.abs
  | .complex _ z :: _ =>
      let size := Real.hypotenuse z.re z.im
      if Real.isFinite z.re && Real.isFinite z.im && !Real.isFinite size then
        Eval.breach .overflow
      else ofFloat size
  | _ => Eval.breach .type

/-- The first item that no later one beats. -/
def bestOf (op : OrderOp) (s : Store) : Value → List Value → Except Breach Value
  | best, [] => .ok best
  | best, v :: rest => do
      if ← Value.order s op v best then bestOf op s v rest else bestOf op s best rest

def extreme (op : OrderOp) (args : List Value) (_ : Bindings) : Eval Value := do
  let items ←
    match args with
    | [source] => iterate source
    | _ => pure args
  match items with
  | first :: rest => Eval.lift (bestOf op (← get) first rest)
  | [] => Eval.breach .value

/-- What nothing is added to. The total of numbers is kept apart from the start: it is a new value,
unless it does not fit a word. -/
def emptySum (start : Value) : Eval Value :=
  match start with
  | .int _ n => if Operator.isWord n then ofInt n else pure start
  | .float _ x => ofFloat x
  | _ => pure start

/-- Lists are joined in one step; everything else is added from the left. -/
def sumFrom (start : Value) (items : List Value) : Eval Value := do
  match start, items with
  | start, [] => emptySum start
  | .list r, items =>
      let rest ← items.mapM fun v =>
        match v with
        | .list q => Eval.itemsOf q
        | _ => Eval.breach .type
      ofList ((← Eval.itemsOf r) ++ rest.flatten)
  | start, items => items.foldlM Operator.addPlain start

def sum (args : List Value) (_ : Bindings) : Eval Value := do
  match args with
  | [source] => sumFrom (← ofInt 0) (← iterate source)
  | source :: start :: _ =>
      if start.text?.isSome then Eval.fail .sumOfTexts
      else sumFrom start (← iterate source)
  | [] => Eval.breach .type

/-- An integer rounded to tens, hundreds and so on, a half going to the even multiple. -/
def roundTens (n : Int) (zeros : Nat) : Int :=
  if zeros > (bitLength n) then 0
  else
    let unit := Nat.pow 10 zeros
    let size : Int := roundHalfEven n.natAbs unit * unit
    if n < 0 then -size else size

def roundWhole (v : Value) : Eval Value := do
  match v with
  | .int .. => return v
  | .bool b => ofInt b.toInt
  | .float _ x =>
      match Real.nearestInt? x with
      | some n => ofInt n
      | none => Eval.breach (if x.isNaN then .value else .overflow)
  | _ => Eval.breach .type

def roundTo (v places : Value) : Eval Value := do
  let places ← Method.intOf places
  match v with
  | .float _ x => ofFloat (← Eval.orBreach .overflow (Real.roundPlaces? x places))
  | v =>
      let n ← Method.intOf v
      if places ≥ 0 then roundWhole v else ofInt (roundTens n (-places).toNat)

def round (args : List Value) (_ : Bindings) : Eval Value :=
  match args with
  | [v] | [v, .none] => roundWhole v
  | v :: places :: _ => roundTo v places
  | [] => Eval.breach .type

def sorted (args : List Value) (keywords : Bindings) : Eval Value := do
  match args with
  | source :: _ =>
      let s ← get
      let reversed := keywords.head?.any fun k => Value.isTrue s k.2
      ofList (← Method.sortItems (← iterate source) reversed)
  | [] => Eval.breach .type

def toList (args : List Value) (_ : Bindings) : Eval Value := do
  match args with
  | source :: _ => ofList (← iterate source)
  | [] => ofList []

def entry (name : String) (least : Int) (most : Option Int)
    (run : List Value → Bindings → Eval Value) : Builtin :=
  { name := name.toList, least, most, keywords := [], run }

/-- The functions that every snippet may call. -/
def core : List Builtin := [
  entry "len" 1 (some 1) length,
  entry "str" 0 (some 1) toText,
  entry "int" 0 (some 2) toInt,
  entry "float" 0 (some 1) toFloat,
  entry "bool" 0 (some 1) toBool,
  entry "abs" 1 (some 1) absolute,
  entry "max" 1 none (extreme .gt),
  entry "min" 1 none (extreme .lt),
  entry "sum" 1 (some 2) sum,
  entry "round" 1 (some 2) round,
  { entry "sorted" 1 (some 1) sorted with keywords := ["reverse".toList] },
  entry "list" 0 (some 1) toList]

end Builtin

end Snippet
