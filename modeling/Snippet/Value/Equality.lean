import Snippet.Store
import Snippet.Text.Search
import Snippet.Value.Numeric

/-!
Equality of values. Numbers compare by what they are worth and texts by their characters; lists,
tuples and dicts compare item by item, where an item is equal to itself without a further look.
The nesting of the compared values is bounded by a budget. Keys of dicts are compared by `keyEq`,
which needs no store.
-/

set_option autoImplicit false

namespace Snippet

namespace Value

/-- Values without items are equal; a view and a function are equal to themselves only. -/
def scalarEq (a b : Value) : Bool :=
  match Numeric.ofValue? a, Numeric.ofValue? b with
  | some m, some n => Numeric.equal m n
  | _, _ =>
      match text? a, text? b with
      | some s, some t => s == t
      | _, _ => same a b

mutual

/-- The same or equal, for values that may be keys. -/
def keyEq : Value → Value → Bool
  | tuple s xs, tuple t ys => same (tuple s xs) (tuple t ys) || keysEq xs ys
  | a, b => same a b || scalarEq a b

def keysEq : List Value → List Value → Bool
  | [], [] => true
  | x :: xs, y :: ys => keyEq x y && keysEq xs ys
  | _, _ => false

end

mutual

/-- May be a key of a dict. -/
def isHashable : Value → Bool
  | list _ | dict _ | builtin _ | view _ .keys _ | view _ .items _ => false
  | tuple _ items => areHashable items
  | _ => true

def areHashable : List Value → Bool
  | [] => true
  | x :: xs => isHashable x && areHashable xs

end

end Value

namespace Entries

/-- The value under a key. -/
def find? (entries : Entries) (key : Value) : Option Value :=
  (List.find? (fun e => Value.keyEq key e.1) entries).map (·.2)

/-- Put a value under a key: in the place of an equal key, which stays, or behind all others. -/
def insert : Entries → Value → Value → Entries
  | [], key, value => [(key, value)]
  | (k, v) :: rest, key, value =>
      if Value.keyEq key k then (k, value) :: rest else (k, v) :: insert rest key value

def erase : Entries → Value → Entries
  | [], _ => []
  | (k, v) :: rest, key => if Value.keyEq key k then rest else (k, v) :: erase rest key

end Entries

namespace Value

/-- The nesting of values that comparing and rendering follow. -/
def depthBudget : Nat := 950

abbrev Comparer := Value → Value → Except Breach Bool

/-- The same, or equal by a comparer. -/
def itemEq (eq : Comparer) (a b : Value) : Except Breach Bool :=
  if same a b then .ok true else eq a b

/-- Items equal in pairs, up to the end of the shorter list. -/
def pairsEq (eq : Comparer) : List Value → List Value → Except Breach Bool
  | x :: xs, y :: ys => do
      if ← itemEq eq x y then pairsEq eq xs ys else return false
  | _, _ => .ok true

/-- Every entry has its key in the other dict, with an equal value. -/
def entriesEq (eq : Comparer) (others : Entries) : Entries → Except Breach Bool
  | [] => .ok true
  | (key, value) :: rest => do
      match Entries.find? others key with
      | .none => return false
      | some other => if ← itemEq eq value other then entriesEq eq others rest else return false

def anyItem (eq : Comparer) (x : Value) : List Value → Except Breach Bool
  | [] => .ok false
  | y :: ys => do
      if ← itemEq eq y x then return true else anyItem eq x ys

/-- Views of keys or items compare as sets. -/
def isSetLike : ViewKind → Bool
  | .keys | .items => true
  | .values => false

/-- A view holds a key, or a pair of a key and its value. -/
def viewHolds (eq : Comparer) (s : Store) (kind : ViewKind) (ref : Ref) (x : Value) :
    Except Breach Bool :=
  match kind with
  | .keys =>
      if isHashable x then .ok ((s.entries ref).find? x).isSome else .error .type
  | .items =>
      match x with
      | tuple _ [key, value] =>
          if isHashable key then
            match (s.entries ref).find? key with
            | some found => itemEq eq found value
            | .none => .ok false
          else .error .type
      | _ => .ok false
  | .values => anyItem eq x ((s.entries ref).map (·.2))

/-- What a view of a dict shows; the pairs of keys and values carry a tag that no other value has.
-/
def viewItems (s : Store) (kind : ViewKind) (ref : Ref) : List Value :=
  match kind with
  | .keys => (s.entries ref).map (·.1)
  | .values => (s.entries ref).map (·.2)
  | .items => (s.entries ref).map fun e => tuple s.nextTag [e.1, e.2]

/-- Every item of one view is in the other. -/
def viewWithin (eq : Comparer) (s : Store) (kind : ViewKind) (ref : Ref) :
    List Value → Except Breach Bool
  | [] => .ok true
  | x :: xs => do
      if ← viewHolds eq s kind ref x then viewWithin eq s kind ref xs else return false

def eqStep (eq : Comparer) (s : Store) (a b : Value) : Except Breach Bool :=
  match a, b with
  | tuple _ xs, tuple _ ys => do return (← pairsEq eq xs ys) && xs.length == ys.length
  | list r, list q =>
      let xs := s.items r
      let ys := s.items q
      if xs.length == ys.length then pairsEq eq xs ys else .ok false
  | dict r, dict q =>
      let xs := s.entries r
      let ys := s.entries q
      if xs.length == ys.length then entriesEq eq ys xs else .ok false
  | view _ k r, view _ m q =>
      if isSetLike k && isSetLike m then
        if (s.entries r).length == (s.entries q).length then
          viewWithin eq s m q (viewItems s k r)
        else .ok false
      else .ok (same a b)
  | _, _ => .ok (scalarEq a b)

/-- Equality, as deep as a budget allows. -/
def eqAt (s : Store) : Nat → Comparer
  | 0 => fun _ _ => .error .depth
  | budget + 1 => eqStep (eqAt s budget) s

def eq (s : Store) : Comparer :=
  eqAt s depthBudget

/-- Position of the first item that is the value or equal to it. -/
def indexIn? (s : Store) (x : Value) : List Value → Except Breach (Option Nat)
  | [] => .ok .none
  | y :: ys => do
      if ← itemEq (eq s) y x then return some 0
      else return (← indexIn? s x ys).map (· + 1)

def countIn (s : Store) (x : Value) : List Value → Except Breach Nat
  | [] => .ok 0
  | y :: ys => do
      let here ← itemEq (eq s) y x
      return (← countIn s x ys) + (if here then 1 else 0)

/-- Membership; only texts, sequences, dicts and views have members. -/
def contains (s : Store) (container x : Value) : Except Breach Bool :=
  match container with
  | text _ t | raw _ t =>
      match text? x with
      | some needle => .ok (Text.find? needle t).isSome
      | .none => .error .type
  | list r => anyItem (eq s) x (s.items r)
  | tuple _ items => anyItem (eq s) x items
  | dict r => viewHolds (eq s) s .keys r x
  | view _ kind r => viewHolds (eq s) s kind r x
  | _ => .error .type

/-- Counts as true: not empty, not zero, not nothing. -/
def isTrue (s : Store) : Value → Bool
  | none => false
  | text _ t | raw _ t => !t.isEmpty
  | tuple _ items => !items.isEmpty
  | list r => !(s.items r).isEmpty
  | dict r | view _ _ r => !(s.entries r).isEmpty
  | builtin _ => true
  | v => (Numeric.ofValue? v).any Numeric.isTrue

end Value

end Snippet
