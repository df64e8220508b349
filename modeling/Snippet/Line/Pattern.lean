import Snippet.Line
import Snippet.Line.Mask
import Snippet.Text.Numeric
import Snippet.Token

/-!
Patterns of masked lines. A pattern captures positions, so that the texts themselves come from the
line that was masked. A captured text holds no line break; blanks between the parts may.
-/

set_option autoImplicit false

namespace Snippet.Line

/-- A stretch of a line. -/
structure Capture where
  start : Nat
  length : Nat
  deriving Repr, DecidableEq

def Capture.of (c : Capture) (t : Text) : Text :=
  (t.drop c.start).take c.length

def blockKeywords : List String :=
  ["if", "elif", "else", "for", "while", "def", "class", "try", "except", "finally"]

def flowKeywords : List String :=
  ["return", "pass", "break", "continue"]

/-- Words that no assignment binds. -/
def reservedWords : List String :=
  keywords.map (·.1) ++ blockKeywords ++ flowKeywords ++
    ["lambda", "import", "from", "global", "nonlocal", "del", "with", "as", "assert", "yield",
      "raise", "async", "await"]

/-- The kinds of error that a line may raise. -/
def raisableKinds : List String :=
  ["ValueError"]

def isReserved (word : Text) : Bool :=
  reservedWords.any (·.toList == word)

/-- The word at the start of a text, if it is one of a list. -/
def leadingWord? (words : List String) (t : Text) : Option Text :=
  let word := t.takeWhile isWordChar
  if words.any (·.toList == word) then some word else none

def dropBlanks (t : Text) : Text :=
  t.dropWhile isBlank

def hasBreak (t : Text) : Bool :=
  t.contains '\n'

-- The position in `whole` at which its end part `rest` starts.
def position (whole rest : Text) : Nat :=
  whole.length - rest.length

/-- The stretch between an opening bracket that comes next and a closing one at the end. -/
def bracketed? (whole rest : Text) : Option Capture :=
  match rest with
  | '(' :: inner =>
      match inner.getLast? with
      | some ')' =>
          if hasBreak inner.dropLast then none
          else some ⟨position whole inner, inner.length - 1⟩
      | _ => none
  | _ => none

def afterWord? (word : String) (t : Text) : Option Text :=
  if word.toList.isPrefixOf t then some (t.drop word.length) else none

/-- `print`, then its arguments in brackets. -/
def print? (masked : Text) : Option Capture := do
  let rest ← afterWord? "print" masked
  bracketed? masked (dropBlanks rest)

/-- `raise`, then a kind of error and its arguments in brackets. -/
def raise? (masked : Text) : Option (Text × Capture) := do
  let rest ← afterWord? "raise" masked
  let kindPart := dropBlanks rest
  if kindPart.length == rest.length then none
  else
    raisableKinds.findSome? fun kind => do
      let rest ← afterWord? kind kindPart
      let arguments ← bracketed? masked (dropBlanks rest)
      if arguments.length == 0 then none else some (kind.toList, arguments)

/-- A name at the start of a text, and what follows it. -/
def leadingName? (t : Text) : Option (Text × Text) :=
  match t with
  | c :: _ =>
      if isWordChar c && !isDecimal c then some (t.takeWhile isWordChar, t.dropWhile isWordChar)
      else none
  | [] => none

/-- Names behind commas, as many as there are commas at most. -/
def moreNames? : Nat → Text → Option (List Text × Text)
  | 0, t => some ([], t)
  | turns + 1, t =>
      match dropBlanks t with
      | ',' :: rest => do
          let (name, rest) ← leadingName? (dropBlanks rest)
          let (names, rest) ← moreNames? turns rest
          some (name :: names, rest)
      | _ => some ([], t)

/-- A right-hand side: everything to the end of the line, which is not empty. -/
def rightSide? (whole rest : Text) : Option Capture :=
  let side := dropBlanks rest
  if side.isEmpty || hasBreak side then none else some ⟨position whole side, side.length⟩

/-- A single equals sign, then a right-hand side. -/
def equalsSide? (whole rest : Text) : Option Capture :=
  match dropBlanks rest with
  | '=' :: '=' :: _ => none
  | '=' :: rest => rightSide? whole rest
  | _ => none

def assignment? (masked : Text) : Option (List Text × Capture) := do
  let (first, rest) ← leadingName? masked
  let (others, rest) ← moreNames? masked.length rest
  let side ← equalsSide? masked rest
  some (first :: others, side)

def augmentingOps : List BinaryOp :=
  [.pow, .floorDiv, .add, .sub, .mul, .div, .mod]

/-- A name, an operator with an equals sign, then a right-hand side. -/
def augmented? (masked : Text) : Option (Text × BinaryOp × Capture) := do
  let (target, rest) ← leadingName? masked
  augmentingOps.findSome? fun op => do
    let rest ← afterWord? (op.symbol ++ "=") (dropBlanks rest)
    let side ← rightSide? masked rest
    some (target, op, side)

/-- The last closing bracket behind which a single equals sign and a right-hand side follow; there
is at least one character before it. `inner` characters have been passed. -/
def lastBracket? (whole : Text) : Nat → Text → Option (Nat × Capture)
  | _, [] => none
  | inner, c :: rest =>
      if c == '\n' then none
      else
        match lastBracket? whole (inner + 1) rest with
        | some found => some found
        | none =>
            if c == ']' && inner > 0 then
              (equalsSide? whole rest).map fun side => (position whole rest, side)
            else none

/-- A name with a subscript, an equals sign, then a right-hand side. -/
def itemAssignment? (masked : Text) : Option (Capture × Capture) := do
  let (_, rest) ← leadingName? masked
  match dropBlanks rest with
  | '[' :: inner =>
      let (stop, side) ← lastBracket? masked 0 inner
      some (⟨0, stop⟩, side)
  | _ => none

end Snippet.Line
