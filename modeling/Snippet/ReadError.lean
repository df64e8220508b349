import Snippet.Number.Decimal

/-!
Why a text is no expression.
-/

set_option autoImplicit false

namespace Snippet

inductive ReadError where
  | invalidCharacter (c : Char) (column : Nat)
  | invalidNumber (column : Nat)
  | leadingZeros (column : Nat)
  | unterminatedText (column : Nat)
  | unexpected (found : Text) (column : Nat)
  | unexpectedEnd
  /-- A token of one kind where another is required. -/
  | expected (kind found : Text) (column : Nat)
  | positionalAfterKeyword (column : Nat)
  | strayClosingBrace (column : Nat)
  | unclosedField (column : Nat)
  | invalidConversion (column : Nat)
  | emptyField (column : Nat)
  /-- A number whose digits have no place value, or too many digits. -/
  | unreadableNumber
  /-- The nesting exceeds the budget. -/
  | tooDeep
  /-- Something is asked of the tokens behind their end mark. -/
  | pastEnd
  deriving Repr, DecidableEq

namespace ReadError

def atColumn (column : Nat) : Text :=
  " at column ".toList ++ digitsOf column

/-- The wording, where it is fixed. -/
def message? : ReadError → Option Text
  | invalidCharacter c column =>
      some ("invalid character '".toList ++ [c] ++ "'".toList ++ atColumn column)
  | invalidNumber column => some ("invalid decimal literal".toList ++ atColumn column)
  | leadingZeros column =>
      some ("leading zeros in decimal integer literals are not permitted".toList ++ atColumn column)
  | unterminatedText column => some ("unterminated string literal".toList ++ atColumn column)
  | unexpected found column =>
      some ("unexpected '".toList ++ found ++ "'".toList ++ atColumn column)
  | unexpectedEnd => some "unexpected end of expression".toList
  | expected kind found column =>
      let shown := if found.isEmpty then "end of expression".toList else found
      some ("expected ".toList ++ kind ++ " but found '".toList ++ shown ++ '\'' :: atColumn column)
  | positionalAfterKeyword column =>
      some ("positional argument follows keyword argument".toList ++ atColumn column)
  | strayClosingBrace column =>
      some ("f-string: single '\x7d' is not allowed".toList ++ atColumn column)
  | unclosedField column => some ("f-string: expecting '\x7d'".toList ++ atColumn column)
  | invalidConversion column =>
      some ("f-string: invalid conversion character".toList ++ atColumn column)
  | emptyField column => some ("f-string: empty expression not allowed".toList ++ atColumn column)
  | unreadableNumber | tooDeep | pastEnd => none

end ReadError

end Snippet
