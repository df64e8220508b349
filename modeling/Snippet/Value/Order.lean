import Snippet.Value.Equality

/-!
The order of values. Real numbers, texts, lists, tuples and set-like views are ordered among
themselves; lists and tuples by their first items that differ, views by inclusion.
-/

set_option autoImplicit false

namespace Snippet

inductive OrderOp where
  | lt | le | gt | ge
  deriving Repr, DecidableEq

namespace OrderOp

def holds : OrderOp → Ordering → Bool
  | lt, .lt | le, .lt | le, .eq | gt, .gt | ge, .gt | ge, .eq => true
  | _, _ => false

end OrderOp

/-- By the first characters that differ; a beginning comes before the whole. -/
def compareTexts : Text → Text → Ordering
  | [], [] => .eq
  | [], _ :: _ => .lt
  | _ :: _, [] => .gt
  | c :: cs, d :: ds => (compare c.toNat d.toNat).then (compareTexts cs ds)

namespace Value

/-- The first pair of items that are not equal. -/
def firstDifference (eq : Comparer) :
    List Value → List Value → Except Breach (Option (Value × Value))
  | x :: xs, y :: ys => do
      if ← itemEq eq x y then firstDifference eq xs ys else return some (x, y)
  | _, _ => .ok .none

def orderItems (eq order : Comparer) (op : OrderOp) (xs ys : List Value) :
    Except Breach Bool := do
  match ← firstDifference eq xs ys with
  | some (x, y) => order x y
  | .none => return op.holds (compare xs.length ys.length)

/-- Inclusion of one view in another, proper for the strict operators. -/
def orderViews (s : Store) (op : OrderOp) (k m : ViewKind) (r q : Ref) : Except Breach Bool :=
  let lengths := compare (s.entries r).length (s.entries q).length
  if op.holds lengths then
    match op with
    | .lt | .le => viewWithin (eq s) s m q (viewItems s k r)
    | .gt | .ge => viewWithin (eq s) s k r (viewItems s m q)
  else .ok false

def orderScalars (op : OrderOp) (a b : Value) : Except Breach Bool :=
  match Numeric.ofValue? a, Numeric.ofValue? b with
  | some m, some n =>
      if m.isComplex || n.isComplex then .error .type
      else .ok ((Numeric.realOrder? m n).any op.holds)
  | _, _ =>
      match text? a, text? b with
      | some s, some t => .ok (op.holds (compareTexts s t))
      | _, _ => .error .type

def orderStep (order : Comparer) (s : Store) (op : OrderOp) (a b : Value) :
    Except Breach Bool :=
  match a, b with
  | tuple _ xs, tuple _ ys => orderItems (eq s) order op xs ys
  | list r, list q => orderItems (eq s) order op (s.items r) (s.items q)
  | view _ k r, view _ m q =>
      if isSetLike k && isSetLike m then orderViews s op k m r q else .error .type
  | _, _ => orderScalars op a b

def orderAt (s : Store) (op : OrderOp) : Nat → Comparer
  | 0 => fun _ _ => .error .depth
  | budget + 1 => orderStep (orderAt s op budget) s op

def order (s : Store) (op : OrderOp) : Comparer :=
  orderAt s op depthBudget

end Value

end Snippet
