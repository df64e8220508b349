import Snippet.Cause
import Snippet.Value

/-!
The store of lists and dicts, and the evaluations that run over it. An evaluation that fails
leaves what it did to the store.
-/

set_option autoImplicit false

namespace Snippet

structure Store where
  lists : Array (List Value)
  dicts : Array Entries
  /-- The next unused tag. -/
  nextTag : Tag

namespace Store

def empty : Store :=
  { lists := #[], dicts := #[], nextTag := Tag.shared + 1 }

/-- The items of a list. -/
def items (s : Store) (ref : Ref) : List Value :=
  s.lists[ref]?.getD []

/-- The entries of a dict. -/
def entries (s : Store) (ref : Ref) : Entries :=
  s.dicts[ref]?.getD []

def setItems (s : Store) (ref : Ref) (items : List Value) : Store :=
  { s with lists := s.lists.setIfInBounds ref items }

def setEntries (s : Store) (ref : Ref) (entries : Entries) : Store :=
  { s with dicts := s.dicts.setIfInBounds ref entries }

end Store

/-- What stops an evaluation. -/
inductive Fault where
  | cause (c : Cause)
  | breach (b : Breach)
  /-- A dict does not hold the key. -/
  | missingKey (key : Value)

abbrev Eval := EStateM Fault Store

namespace Eval

def fail {α : Type} (c : Cause) : Eval α :=
  throw (.cause c)

def breach {α : Type} (b : Breach) : Eval α :=
  throw (.breach b)

/-- A result that depends on no store. -/
def lift {α : Type} : Except Breach α → Eval α
  | .ok a => pure a
  | .error b => breach b

/-- The value, or a breach if there is none. -/
def orBreach {α : Type} (b : Breach) : Option α → Eval α
  | some a => pure a
  | none => breach b

def newTag : Eval Tag :=
  modifyGet fun s => (s.nextTag, { s with nextTag := s.nextTag + 1 })

def itemsOf (ref : Ref) : Eval (List Value) :=
  return (← get).items ref

def entriesOf (ref : Ref) : Eval Entries :=
  return (← get).entries ref

def setItems (ref : Ref) (items : List Value) : Eval Unit :=
  modify (·.setItems ref items)

def setEntries (ref : Ref) (entries : Entries) : Eval Unit :=
  modify (·.setEntries ref entries)

end Eval

namespace Value

/-- Small integers are shared. -/
def isSharedInt (n : Int) : Bool :=
  -5 ≤ n && n ≤ 256

/-- The empty text and texts of one Latin-1 character are shared. -/
def isSharedText : Text → Bool
  | [] => true
  | [c] => c.toNat < 256
  | _ => false

def ofInt (n : Int) : Eval Value := do
  if isSharedInt n then return .int Tag.shared n else return .int (← Eval.newTag) n

def ofNat (n : Nat) : Eval Value :=
  ofInt n

def ofFloat (x : Float) : Eval Value :=
  return .float (← Eval.newTag) x

def ofComplex (z : Complex) : Eval Value :=
  return .complex (← Eval.newTag) z

/-- A text that is read off another one, or written by a format. -/
def ofText (t : Text) : Eval Value := do
  if isSharedText t then return .text Tag.shared t else return .text (← Eval.newTag) t

/-- A text that is put together from others: a new one, unless it is empty. -/
def ofNewText (t : Text) : Eval Value := do
  if t.isEmpty then return .text Tag.shared t else return .text (← Eval.newTag) t

/-- A text as an exact one; source text is copied. -/
def exactText (v : Value) (t : Text) : Eval Value :=
  match v with
  | .raw .. => ofNewText t
  | v => pure v

def ofRaw (t : Text) : Eval Value :=
  return .raw (← Eval.newTag) t

/-- The empty tuple is shared. -/
def ofTuple (items : List Value) : Eval Value := do
  if items.isEmpty then return .tuple Tag.shared [] else return .tuple (← Eval.newTag) items

/-- A new list. -/
def ofList (items : List Value) : Eval Value :=
  modifyGet fun s => (.list s.lists.size, { s with lists := s.lists.push items })

/-- A new dict. -/
def ofEntries (entries : Entries) : Eval Value :=
  modifyGet fun s => (.dict s.dicts.size, { s with dicts := s.dicts.push entries })

def ofView (kind : ViewKind) (ref : Ref) : Eval Value :=
  return .view (← Eval.newTag) kind ref

end Value

end Snippet
