import Snippet.Number.Complex
import Snippet.Text.Ranges

/-!
Values. Lists and dicts are references into a store, so that names share them; every other value
that can be told apart from an equal one carries a tag that is its identity.
-/

set_option autoImplicit false

namespace Snippet

/-- The identity of an immutable value; equal values that are shared all carry the tag `shared`. -/
abbrev Tag := Nat

def Tag.shared : Tag := 0

/-- The place of a list or a dict in a store. -/
abbrev Ref := Nat

/-- What a view shows of a dict. -/
inductive ViewKind where
  | keys | values | items
  deriving Repr, DecidableEq

inductive Value where
  | none
  | bool (b : Bool)
  | int (tag : Tag) (n : Int)
  | float (tag : Tag) (x : Float)
  | complex (tag : Tag) (z : Complex)
  | text (tag : Tag) (t : Text)
  /-- Source text that stands for a value that could not be evaluated; it acts as a text. -/
  | raw (tag : Tag) (t : Text)
  | tuple (tag : Tag) (items : List Value)
  | list (ref : Ref)
  | dict (ref : Ref)
  /-- A live view of a dict. -/
  | view (tag : Tag) (kind : ViewKind) (ref : Ref)
  | builtin (name : Text)

/-- The entries of a dict in the order of insertion. -/
abbrev Entries := List (Value × Value)

/-- Names and values in the order in which the names were first bound. -/
abbrev Bindings := List (Text × Value)

namespace ViewKind

def typeName : ViewKind → String
  | keys => "dict_keys"
  | values => "dict_values"
  | items => "dict_items"

end ViewKind

namespace Value

def typeName : Value → String
  | none => "NoneType"
  | bool _ => "bool"
  | int .. => "int"
  | float .. => "float"
  | complex .. => "complex"
  | text .. | raw .. => "str"
  | tuple .. => "tuple"
  | list _ => "list"
  | dict _ => "dict"
  | view _ kind _ => kind.typeName
  | builtin _ => "builtin_function_or_method"

def text? : Value → Option Text
  | text _ t | raw _ t => some t
  | _ => Option.none

/-- The integer that a value may be used as: an int, or a bool as 0 or 1. -/
def int? : Value → Option Int
  | int _ n => some n
  | bool b => some b.toInt
  | _ => Option.none

/-- The same value, not only an equal one. -/
def same : Value → Value → Bool
  | none, none => true
  | bool a, bool b => a == b
  | int s a, int t b => s == t && a == b
  | float s _, float t _ => s == t
  | complex s _, complex t _ => s == t
  | text s a, text t b => s == t && a == b
  | raw s _, raw t _ => s == t
  | tuple s a, tuple t b => s == t && a.length == b.length
  | list a, list b => a == b
  | dict a, dict b => a == b
  | view s _ _, view t _ _ => s == t
  | builtin a, builtin b => a == b
  | _, _ => false

end Value

end Snippet
