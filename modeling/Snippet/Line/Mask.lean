import Snippet.Text.Blank
import Snippet.Token.Scan

/-!
Quoted stretches of a line. A backslash inside quotes takes the next character with it.
`withoutComment` cuts a line at the first `#` outside quotes; `mask` blanks out what stands
between quotes, so that patterns see only the structure of the line, at the same positions.
-/

set_option autoImplicit false

namespace Snippet.Line

open Token (isQuote)

-- The quote that is open after a character outside quotes, or inside them and not escaped.
def quoteAfter (quote : Option Char) (c : Char) : Option Char :=
  match quote with
  | some q => if c == q then none else some q
  | none => if isQuote c then some c else none

def withoutCommentFrom : Option Char → Text → Text
  | _, [] => []
  | some q, '\\' :: c :: rest => '\\' :: c :: withoutCommentFrom (some q) rest
  | some q, c :: rest => c :: withoutCommentFrom (quoteAfter (some q) c) rest
  | none, c :: rest => if c == '#' then [] else c :: withoutCommentFrom (quoteAfter none c) rest

/-- The text up to a comment. -/
def withoutComment (t : Text) : Text :=
  withoutCommentFrom none t

/-- The masked text and whether every quote is closed. -/
structure Masked where
  text : Text
  closed : Bool
  deriving Repr, DecidableEq

def Masked.add (front : Text) (m : Masked) : Masked :=
  { m with text := front ++ m.text }

def maskFrom : Option Char → Text → Masked
  | quote, [] => ⟨[], quote.isNone⟩
  | some q, '\\' :: _ :: rest => (maskFrom (some q) rest).add ['_', '_']
  | some q, c :: rest =>
      (maskFrom (quoteAfter (some q) c) rest).add [if c == q then c else '_']
  | none, c :: rest => (maskFrom (quoteAfter none c) rest).add [c]

def mask (t : Text) : Masked :=
  maskFrom none t

theorem length_maskFrom (quote : Option Char) (t : Text) :
    (maskFrom quote t).text.length = t.length := by
  fun_induction maskFrom quote t <;> simp_all [Masked.add, Nat.add_comm]

/-- Masking keeps every character at its position. -/
@[simp] theorem length_mask (t : Text) : (mask t).text.length = t.length :=
  length_maskFrom none t

end Snippet.Line
