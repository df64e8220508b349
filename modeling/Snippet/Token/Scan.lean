import Snippet.ReadError
import Snippet.Token
import Snippet.Text.NameChar

/-!
Reading a text as tokens. Between tokens stand only spaces, tabs and line breaks. A token's reader
is given the first character apart and says how many characters after it belong to the token, so
that every token takes at least one character.
-/

set_option autoImplicit false

namespace Snippet

namespace Token

/-- What a reader found: a token without its place, and how many characters it has after the
first. -/
structure Lexeme where
  kind : TokenKind
  value : Text
  more : Nat

/-- Stands between tokens. -/
def isLayout (c : Char) : Bool :=
  c == ' ' || c == '\t' || c == '\r' || c == '\n'

def isQuote (c : Char) : Bool :=
  c == '"' || c == '\''

/-- What a backslash and a character stand for; unknown ones stand for themselves. -/
def escaped (c : Char) : Text :=
  match c with
  | 'n' => ['\n']
  | 't' => ['\t']
  | 'r' => ['\r']
  | '\\' => ['\\']
  | '\'' => ['\'']
  | '"' => ['"']
  | '0' => ['\x00']
  | c => ['\\', c]

/-- The characters of a quoted text and how many source characters it takes, its closing quote
too. -/
def readQuoted? (quote : Char) (raw : Bool) : Text → Option (Text × Nat)
  | [] => none
  | '\\' :: c :: rest =>
      (readQuoted? quote raw rest).map fun (value, length) =>
        ((if raw then ['\\', c] else escaped c) ++ value, length + 2)
  | c :: rest =>
      if c == quote then some ([], 1)
      else (readQuoted? quote raw rest).map fun (value, length) => (c :: value, length + 1)

/-- How the letters before a quote make it be read. -/
structure QuoteStyle where
  formatted : Bool
  raw : Bool

def quoteStyle? (word : Text) : Option QuoteStyle :=
  match word.map Char.toLower with
  | ['f'] => some ⟨true, false⟩
  | ['r'] => some ⟨false, true⟩
  | ['f', 'r'] | ['r', 'f'] => some ⟨true, true⟩
  | _ => none

-- `lead` characters stand before the opening quote; `rest` follows it.
def readText (style : QuoteStyle) (lead : Nat) (quote : Char) (rest : Text) (column : Nat) :
    Except ReadError Lexeme :=
  match readQuoted? quote style.raw rest with
  | some (value, length) =>
      .ok ⟨if style.formatted then .formatted else .string, value, lead + length⟩
  | none => .error (.unterminatedText column)

def isNameRest (c : Char) : Bool :=
  isNameStart c || isDigit c

/-- A name, a keyword, or a text whose opening quote follows its letters at once. -/
def readWord (c : Char) (rest : Text) (column : Nat) : Except ReadError Lexeme :=
  let tail := rest.takeWhile isNameRest
  let word := c :: tail
  match quoteStyle? word, rest.drop tail.length with
  | some style, quote :: body =>
      if isQuote quote then readText style (tail.length + 1) quote body column
      else .ok ⟨wordKind word, word, tail.length⟩
  | _, _ => .ok ⟨wordKind word, word, tail.length⟩

def isGrouped (c : Char) : Bool :=
  isDigit c || c == '_'

/-- A point and the digits after it. -/
def fractionPart (t : Text) : Text :=
  match t with
  | '.' :: rest => '.' :: rest.takeWhile isGrouped
  | _ => []

/-- An exponent mark, a sign if there is one, and at least one digit. -/
def exponentPart (t : Text) : Text :=
  match t with
  | mark :: rest =>
      if mark == 'e' || mark == 'E' then
        let sign := match rest with
          | '+' :: _ => ['+']
          | '-' :: _ => ['-']
          | _ => []
        match (rest.drop sign.length).takeWhile isDigit with
        | [] => []
        | digits => mark :: sign ++ digits
      else []
  | [] => []

def hasDoubleUnderscore : Text → Bool
  | '_' :: '_' :: _ => true
  | _ :: rest => hasDoubleUnderscore rest
  | [] => false

/-- More than one digit, the first a zero, not all of them zeros. -/
def hasLeadingZeros (digits : Text) : Bool :=
  match digits with
  | '0' :: rest => rest.any fun c => c != '0' && c != '_'
  | _ => false

def readNumber (t : Text) (column : Nat) : Except ReadError Lexeme :=
  let whole := t.takeWhile isGrouped
  let afterWhole := t.drop whole.length
  let fraction := fractionPart afterWhole
  let afterFraction := afterWhole.drop fraction.length
  let exponent := exponentPart afterFraction
  let rest := afterFraction.drop exponent.length
  let raw := whole ++ fraction ++ exponent
  let isFloat := !fraction.isEmpty || !exponent.isEmpty
  if raw.getLast? == some '_' || hasDoubleUnderscore raw then .error (.invalidNumber column)
  else if !isFloat && hasLeadingZeros raw then .error (.leadingZeros column)
  else if rest.head?.any isNameStart then .error (.invalidNumber column)
  else .ok ⟨if isFloat then .float else .number, raw.filter (· != '_'), raw.length - 1⟩

def readOperator (c : Char) (rest : Text) (column : Nat) : Except ReadError Lexeme :=
  match operators.find? fun o => o.1.toList.isPrefixOf (c :: rest) with
  | some (symbol, kind) => .ok ⟨kind, symbol.toList, symbol.length - 1⟩
  | none => .error (.invalidCharacter c column)

def startsNumber (c : Char) (rest : Text) : Bool :=
  isDigit c || (c == '.' && rest.head?.any isDigit)

/-- Read the token that starts with `c`. -/
def read (c : Char) (rest : Text) (column : Nat) : Except ReadError Lexeme :=
  if isQuote c then readText ⟨false, false⟩ 0 c rest column
  else if startsNumber c rest then readNumber (c :: rest) column
  else if isNameStart c then readWord c rest column
  else readOperator c rest column

def finishAt (column : Nat) : Token :=
  { kind := .finish, value := [], column := column, span := [] }

/-- The tokens of a text that starts at a column, with the mark of its end. -/
def scanFrom (column : Nat) : Text → Except ReadError (List Token)
  | [] => .ok [finishAt column]
  | c :: rest =>
      if isLayout c then scanFrom (column + 1) rest
      else do
        let lexeme ← read c rest column
        let token := {
          kind := lexeme.kind, value := lexeme.value, column := column,
          span := c :: rest.take lexeme.more }
        let others ← scanFrom (column + 1 + lexeme.more) (rest.drop lexeme.more)
        return token :: others
termination_by t => t.length
decreasing_by all_goals simp +arith

/-- The tokens of a text. -/
def scan (t : Text) : Except ReadError (List Token) :=
  scanFrom 1 t

end Token

end Snippet
