import Snippet.Line
import Snippet.ReadError

/-!
Causes of failure. A `Breach` is a broken rule of an operation on values: its kind is fixed, its
wording is not. A `Cause` is what a failed evaluation or line reports: a kind, and a message where
the wording is fixed.
-/

set_option autoImplicit false

namespace Snippet

/-- A broken rule of an operation on values. -/
inductive Breach where
  | type
  | value
  | zeroDivision
  | index
  | overflow
  /-- The nesting exceeds the budget. -/
  | depth
  /-- A sequence has more items than memory can hold. -/
  | memory
  deriving Repr, DecidableEq

namespace Breach

def kind : Breach → String
  | type => "TypeError"
  | value => "ValueError"
  | zeroDivision => "ZeroDivisionError"
  | index => "IndexError"
  | overflow => "OverflowError"
  | depth => "RecursionError"
  | memory => "MemoryError"

end Breach

inductive Cause where
  | unreadable (e : ReadError)
  | undefinedName (name : Text)
  | tooFewArguments (function : Text) (least : Int) (given : Nat)
  | tooManyArguments (function : Text) (most : Int) (given : Nat)
  | unexpectedKeyword (function keyword : Text)
  | repeatedKeyword (keyword : Text)
  | noLength (typeName : String)
  | baseWithoutText
  | sumOfTexts
  | resultTooLarge
  | integerTooLarge
  | exponentTooLarge
  | formatTooWide
  | notAssignable
  | bareMember (typeName : String) (member : Text)
  | noMember (typeName : String) (member : Text)
  | notCallable (typeName : String)
  | tooDeep
  | missingKey (shown : Text)
  | breach (b : Breach)
  | notReal (typeName : String)
  | mathDomain
  | malformed (m : Malformed)
  | notUnpackable (typeName : String)
  | wrongUnpackCount (wanted given : Nat)
  | invalidPrintKeyword (keyword : Text)
  | printKeywordNotText (keyword : String)
  | evaluationFailed
  | manual (kind : Text)
  | hookFailed (event : String) (reason : Text)
  | internal (reason : Text)
  /-- A failure that an extension words itself. -/
  | custom (kind message : Text)
  deriving Repr, DecidableEq

namespace Cause

def kind : Cause → Text
  | unreadable .unreadableNumber => "ValueError".toList
  | unreadable .tooDeep | tooDeep => "RecursionError".toList
  | unreadable .pastEnd => "IndexError".toList
  | unreadable _ | repeatedKeyword _ | notAssignable | malformed _ => "SyntaxError".toList
  | undefinedName _ => "NameError".toList
  | tooFewArguments .. | tooManyArguments .. | unexpectedKeyword .. | noLength _
  | baseWithoutText | sumOfTexts | notCallable _ | notReal _ | notUnpackable _
  | invalidPrintKeyword _ | printKeywordNotText _ => "TypeError".toList
  | resultTooLarge => "MemoryError".toList
  | integerTooLarge | exponentTooLarge => "OverflowError".toList
  | formatTooWide | mathDomain | wrongUnpackCount .. => "ValueError".toList
  | bareMember .. | noMember .. => "AttributeError".toList
  | missingKey _ => "KeyError".toList
  | breach b => b.kind.toList
  | evaluationFailed | hookFailed .. | internal _ => "RuntimeError".toList
  | manual kind => kind
  | custom kind _ => kind

def inQuotes (t : Text) : Text :=
  '\'' :: t ++ ['\'']

/-- The wording, where it is fixed. -/
def message? : Cause → Option Text
  | unreadable e => e.message?
  | undefinedName name => some ("name ".toList ++ inQuotes name ++ " is not defined".toList)
  | tooFewArguments function least given =>
      some (function ++ "() takes at least ".toList ++ intText least ++ " arguments (".toList
        ++ digitsOf given ++ " given)".toList)
  | tooManyArguments function most given =>
      some (function ++ "() takes at most ".toList ++ intText most ++ " arguments (".toList
        ++ digitsOf given ++ " given)".toList)
  | unexpectedKeyword function keyword =>
      some (function ++ "() got an unexpected keyword argument ".toList ++ inQuotes keyword)
  | repeatedKeyword keyword => some ("keyword argument repeated: ".toList ++ keyword)
  | noLength typeName =>
      some ("object of type ".toList ++ inQuotes typeName.toList ++ " has no len()".toList)
  | baseWithoutText => some "int() can't convert non-string with explicit base".toList
  | sumOfTexts => some "sum() can't sum strings [use ''.join(seq) instead]".toList
  | resultTooLarge => some "result is too large".toList
  | integerTooLarge => some "integer result is too large".toList
  | exponentTooLarge => some "exponent is too large".toList
  | formatTooWide => some "format width is too large".toList
  | notAssignable => some "cannot assign to expression".toList
  | bareMember typeName member =>
      some (inQuotes typeName.toList ++ " object attribute ".toList ++ inQuotes member
        ++ " cannot be used without calling it".toList)
  | noMember typeName member =>
      some (inQuotes typeName.toList ++ " object has no attribute ".toList ++ inQuotes member)
  | notCallable typeName =>
      some (inQuotes typeName.toList ++ " object is not callable".toList)
  | tooDeep => some "expression is nested too deeply".toList
  | missingKey shown => some shown
  | breach _ => none
  | notReal typeName => some ("must be real number, not ".toList ++ typeName.toList)
  | mathDomain => some "math domain error".toList
  | malformed m => some m.message.toList
  | notUnpackable typeName =>
      some ("cannot unpack non-iterable ".toList ++ typeName.toList ++ " object".toList)
  | wrongUnpackCount wanted given =>
      some ("expected ".toList ++ digitsOf wanted ++ " values to unpack, got ".toList
        ++ digitsOf given)
  | invalidPrintKeyword keyword =>
      some (inQuotes keyword ++ " is an invalid keyword argument for print()".toList)
  | printKeywordNotText keyword =>
      some (keyword.toList ++ " must be None or a string".toList)
  | evaluationFailed => some "evaluation failed".toList
  | manual _ => some "manual exception".toList
  | hookFailed event reason =>
      some ("Extension hook ".toList ++ inQuotes event.toList ++ " failed: ".toList ++ reason)
  | internal reason => some ("internal simulator error: ".toList ++ reason)
  | custom _ message => some message

/-- The message of a report; a wording that is not fixed is left out. -/
def message (c : Cause) : Text :=
  c.message?.getD []

end Cause

end Snippet
