import Snippet.Text.Ranges

/-!
Expressions. Every expression carries the column where it starts; inside a formatted text the
columns of a field count from the start of the field.
-/

set_option autoImplicit false

namespace Snippet

inductive Literal where
  | none
  | bool (b : Bool)
  | int (n : Nat)
  | float (x : Float)
  | text (t : Text)
  /-- Texts that stand side by side. -/
  | joined (t : Text)

inductive UnaryOp where
  | not | minus | plus
  deriving Repr, DecidableEq

inductive BinaryOp where
  | add | sub | mul | div | floorDiv | mod | pow
  deriving Repr, DecidableEq

inductive BoolOp where
  | and | or
  deriving Repr, DecidableEq

inductive Comparison where
  | eq | ne | lt | gt | le | ge | isIn | notIn | same | notSame
  deriving Repr, DecidableEq

/-- How the value of a field is made into text before the format applies. -/
inductive Conversion where
  | quoted | plain
  deriving Repr, DecidableEq

mutual

inductive Expr where
  | literal (column : Nat) (value : Literal)
  | formatted (column : Nat) (parts : List Part)
  | name (column : Nat) (id : Text)
  | list (column : Nat) (items : List Expr)
  | tuple (column : Nat) (items : List Expr)
  | dict (column : Nat) (entries : List (Expr × Expr))
  | unary (column : Nat) (op : UnaryOp) (operand : Expr)
  | binary (column : Nat) (op : BinaryOp) (left right : Expr)
  | bool (column : Nat) (op : BoolOp) (left right : Expr)
  | compare (column : Nat) (first : Expr) (links : List (Comparison × Expr))
  | conditional (column : Nat) (test body orelse : Expr)
  | member (column : Nat) (base : Expr) (id : Text)
  | call (column : Nat) (func : Expr) (arguments : List (Option Text × Expr))
  | index (column : Nat) (base : Expr) (sub : Subscript)

/-- A part of a formatted text. -/
inductive Part where
  | text (t : Text)
  | field (value : Expr) (conversion : Option Conversion) (spec : Option Text)

inductive Subscript where
  | item (e : Expr)
  | slice (column : Nat) (lower upper step : Option Expr)

end

/-- An argument of a call, with its keyword if it has one. -/
abbrev Argument := Option Text × Expr

def Expr.column : Expr → Nat
  | .literal c _ | .formatted c _ | .name c _ | .list c _ | .tuple c _ | .dict c _
  | .unary c _ _ | .binary c _ _ _ | .bool c _ _ _ | .compare c _ _ | .conditional c _ _ _
  | .member c _ _ | .call c _ _ | .index c _ _ => c

namespace UnaryOp

def symbol : UnaryOp → String
  | not => "not" | minus => "-" | plus => "+"

end UnaryOp

namespace BinaryOp

def symbol : BinaryOp → String
  | add => "+" | sub => "-" | mul => "*" | div => "/" | floorDiv => "//" | mod => "%"
  | pow => "**"

end BinaryOp

namespace BoolOp

def symbol : BoolOp → String
  | and => "and" | or => "or"

end BoolOp

namespace Comparison

def symbol : Comparison → String
  | eq => "==" | ne => "!=" | lt => "<" | gt => ">" | le => "<=" | ge => ">="
  | isIn => "in" | notIn => "not in" | same => "is" | notSame => "is not"

end Comparison

namespace Conversion

def symbol : Conversion → String
  | quoted => "r" | plain => "s"

end Conversion

end Snippet
