import Snippet.Value.Equality
import Snippet.Text.Quoted
import Snippet.Number.Numeral

/-!
The text of a value, as it would be written in source where that is possible. A container that is
open on the way to itself is cut short. Integers of more than `maxDecimalDigits` digits are not
written, and the nesting is bounded by a budget.
-/

set_option autoImplicit false

namespace Snippet

/-- The least natural with too many digits to be written. -/
def decimalCap : Nat := Nat.pow 10 maxDecimalDigits

def intText? (n : Int) : Except Breach Text :=
  if n.natAbs ≥ decimalCap then .error .value else .ok (intText n)

namespace Value

abbrev Renderer := Value → Except Breach Text

def commaJoined (pieces : List Text) : Text :=
  Text.join [',', ' '] pieces

def renderItems (render : Renderer) (items : List Value) : Except Breach Text :=
  commaJoined <$> items.mapM render

def renderEntry (render : Renderer) (e : Value × Value) : Except Breach Text := do
  let key ← render e.1
  let value ← render e.2
  return key ++ [':', ' '] ++ value

def enclosed (opening : Text) (inner : Text) (closing : Text) : Text :=
  opening ++ inner ++ closing

/-- A value without items. -/
def renderScalar : Renderer
  | none => .ok "None".toList
  | bool b => .ok (if b then "True".toList else "False".toList)
  | int _ n => intText? n
  | float _ x => .ok (floatText x)
  | complex _ z => .ok (complexText z.re z.im)
  | text _ t | raw _ t => .ok (Text.quoted t)
  | builtin name => .ok (enclosed "<built-in function ".toList name ['>'])
  | tuple .. | list _ | dict _ | view .. => .ok []

/-- The containers that are open on the way to a value. -/
abbrev Path := List Value

/-- What a view shows below the containers of a path. Its pairs are made while it is shown, so their
tag is one that nothing on the path has. -/
def shownItems (s : Store) (path : Path) (kind : ViewKind) (ref : Ref) : List Value :=
  match kind with
  | .items => (s.entries ref).map fun e => tuple (s.nextTag + path.length) [e.1, e.2]
  | .keys | .values => viewItems s kind ref

def renderStep (render : Path → Renderer) (s : Store) (path : Path) (v : Value) :
    Except Breach Text :=
  let isOpen := path.any (same v)
  let inside := render (v :: path)
  match v with
  | tuple _ items =>
      if isOpen then .ok "(...)".toList
      else
        match items with
        | [x] => do return enclosed ['('] (← inside x) [',', ')']
        | _ => do return enclosed ['('] (← renderItems inside items) [')']
  | list r =>
      if isOpen then .ok "[...]".toList
      else do return enclosed ['['] (← renderItems inside (s.items r)) [']']
  | dict r =>
      if isOpen then .ok ['{', '.', '.', '.', '}']
      else do
        let entries ← (s.entries r).mapM (renderEntry inside)
        return enclosed ['{'] (commaJoined entries) ['}']
  | view _ kind r =>
      if isOpen then .ok "...".toList
      else do
        let items ← renderItems inside (shownItems s path kind r)
        return enclosed (kind.typeName.toList ++ "([".toList) items "])".toList
  | v => renderScalar v

/-- The text of a value below the containers of a path, as deep as a budget allows. -/
def renderAt (s : Store) : Nat → Path → Renderer
  | 0 => fun _ _ => .error .depth
  | budget + 1 => renderStep (renderAt s budget) s

/-- The text of a value as it would be written in source. -/
def written (s : Store) (v : Value) : Except Breach Text :=
  renderAt s depthBudget [] v

/-- The text of a value as it is shown: a text stands for itself. -/
def shown (s : Store) (v : Value) : Except Breach Text :=
  match v with
  | text _ t | raw _ t => .ok t
  | v => written s v

/-- The text of a value as a value, as it would be written in source. The texts of the two truth
values are shared. -/
def toWritten (v : Value) : Eval Value := do
  let t ← Eval.lift (written (← get) v)
  match v with
  | bool _ => return text Tag.shared t
  | _ => ofNewText t

/-- The text of a value as a value, as it is shown. -/
def toShown (v : Value) : Eval Value :=
  match v with
  | text _ t | raw _ t => exactText v t
  | v => toWritten v

end Value

end Snippet
