import Snippet.Expr

/-!
Source lines and what they are.
-/

set_option autoImplicit false

namespace Snippet

/-- What a line does, with the texts that it is made of. -/
inductive LineForm where
  | blank
  /-- The head of a block, such as `if` or `for`. -/
  | header (keyword : Text)
  /-- A word that steers a block, such as `pass` or `return`. -/
  | flow (keyword : Text)
  | print (arguments : Text)
  | raise (kind arguments : Text)
  | assignment (targets : List Text) (expression : Text) (operator : Option BinaryOp)
  | itemAssignment (target expression : Text)
  | expression (source : Text)
  deriving Repr, DecidableEq

namespace LineForm

/-- The rule that a step log names for a line. -/
def rule : LineForm → String
  | blank => "Blank"
  | header _ => "Header"
  | flow _ => "FlowKeyword"
  | print _ => "Print"
  | raise .. => "Raise"
  | assignment .. => "Assignment"
  | itemAssignment .. => "ItemAssignment"
  | expression _ => "ExpressionStatement"

end LineForm

structure Line where
  number : Int
  /-- The line without its comment and the blanks at its ends. -/
  text : Text
  form : LineForm
  deriving Repr, DecidableEq

/-- Why a line is no line at all. -/
inductive Malformed where
  | unmatchedParen
  | invalidSyntax
  | missingColon
  deriving Repr, DecidableEq

namespace Malformed

def message : Malformed → String
  | unmatchedParen => "unmatched ')'"
  | invalidSyntax => "invalid syntax"
  | missingColon => "expected ':'"

end Malformed

end Snippet
