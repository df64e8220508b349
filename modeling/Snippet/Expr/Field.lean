import Snippet.ReadError
import Snippet.Expr
import Snippet.Token.Scan

/-!
The body of a formatted text: literal stretches, with braces doubled, and fields in braces. A
field is an expression, then `!` and a conversion, then `:` and a format; quotes and brackets hide
the marks inside the expression.
-/

set_option autoImplicit false

namespace Snippet.Field

/-- A stretch of a body, or the mistake at which the body cannot be read further. -/
inductive Stretch where
  | literal (t : Text)
  | field (source : Text)
  | strayBrace
  | unclosed
  deriving Repr, DecidableEq

/-- Where a scan through a field stands: open brackets, and the quote it is inside of. -/
structure Nesting where
  depth : Int
  quote : Option Char

def Nesting.start : Nesting :=
  ⟨0, none⟩

def opens (c : Char) : Bool :=
  c == '(' || c == '[' || c == '{'

def closes (c : Char) : Bool :=
  c == ')' || c == ']' || c == '}'

/-- The nesting after a character. -/
def Nesting.after (n : Nesting) (c : Char) : Nesting :=
  match n.quote with
  | some q => if c == q then { n with quote := none } else n
  | none =>
      if Token.isQuote c then { n with quote := some c }
      else if opens c then { n with depth := n.depth + 1 }
      else if closes c then { n with depth := n.depth - 1 }
      else n

def Nesting.atTop (n : Nesting) : Bool :=
  n.quote.isNone && n.depth == 0

/-- A field up to the brace that closes it, and what follows that brace. -/
def upToBrace? (n : Nesting) : Text → Option (Text × Text)
  | [] => none
  | c :: rest =>
      if n.atTop && c == '}' then some ([], rest)
      else (upToBrace? (n.after c) rest).map fun (field, after) => (c :: field, after)

theorem upToBrace?_length {n : Nesting} {t field after : Text}
    (h : upToBrace? n t = some (field, after)) : after.length < t.length := by
  induction t generalizing n field with
  | nil => simp [upToBrace?] at h
  | cons c rest ih =>
      simp only [upToBrace?] at h
      split at h
      · simp_all
      · obtain ⟨⟨f, a⟩, hr, heq⟩ := Option.map_eq_some_iff.1 h
        simp only [Prod.mk.injEq] at heq
        obtain ⟨_, rfl⟩ := heq
        have := ih hr
        simp only [List.length_cons]
        omega

-- Put a literal character in front.
def addLiteral (c : Char) : List Stretch → List Stretch
  | .literal t :: rest => .literal (c :: t) :: rest
  | rest => .literal [c] :: rest

def stretches : Text → List Stretch
  | [] => []
  | '{' :: '{' :: rest => addLiteral '{' (stretches rest)
  | '}' :: '}' :: rest => addLiteral '}' (stretches rest)
  | '}' :: _ => [.strayBrace]
  | '{' :: rest =>
      match h : upToBrace? .start rest with
      | none => [.unclosed]
      | some (field, after) =>
          have := upToBrace?_length h
          .field field :: stretches after
  | c :: rest => addLiteral c (stretches rest)
termination_by t => t.length
decreasing_by
  · simp +arith
  · simp +arith
  · simp only [List.length_cons]; omega
  · simp

/-- A mark that ends the expression of a field: a colon, or an exclamation mark that is not part of
`!=`. -/
def endsExpression (c : Char) (rest : Text) : Bool :=
  c == ':' || (c == '!' && rest.head? != some '=')

/-- The expression of a field and what follows it. -/
def splitSource (n : Nesting) : Text → Text × Text
  | [] => ([], [])
  | c :: rest =>
      if n.atTop && endsExpression c rest then ([], c :: rest)
      else
        let (source, tail) := splitSource (n.after c) rest
        (c :: source, tail)

def conversion? : Text → Option Conversion
  | ['r'] => some .quoted
  | ['s'] => some .plain
  | _ => none

/-- The conversion and the format behind the expression of a field. -/
def readTail (column : Nat) : Text → Except ReadError (Option Conversion × Option Text)
  | '!' :: rest =>
      match conversion? (rest.takeWhile (· != ':')) with
      | none => .error (.invalidConversion column)
      | some conversion =>
          match rest.dropWhile (· != ':') with
          | _ :: spec => .ok (some conversion, some spec)
          | [] => .ok (some conversion, none)
  | _ :: spec => .ok (none, some spec)
  | [] => .ok (none, none)

/-- Read a field of a formatted text that starts at a column. -/
def read (readExpr : Text → Except ReadError Expr) (column : Nat) (field : Text) :
    Except ReadError Part := do
  let (source, tail) := splitSource .start field
  let (conversion, spec) ← readTail column tail
  if (Text.trim source).isEmpty then .error (.emptyField column)
  else return .field (← readExpr source) conversion spec

def readStretch (readExpr : Text → Except ReadError Expr) (column : Nat) :
    Stretch → Except ReadError Part
  | .literal t => .ok (.text t)
  | .field source => read readExpr column source
  | .strayBrace => .error (.strayClosingBrace column)
  | .unclosed => .error (.unclosedField column)

/-- The parts of the body of a formatted text that starts at a column. -/
def readBody (readExpr : Text → Except ReadError Expr) (column : Nat) (body : Text) :
    Except ReadError (List Part) :=
  (stretches body).mapM (readStretch readExpr column)

end Snippet.Field
