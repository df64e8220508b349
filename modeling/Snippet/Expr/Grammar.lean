import Snippet.Expr.Field
import Snippet.Number.Numeral

/-!
The grammar of expressions. Each level of precedence reads its operands at the next tighter one,
and brackets start again at the loosest. The levels are joined in `readAt`, which spends one unit
of a budget for each step from a level to another; loops over tokens inside a level are free.
-/

set_option autoImplicit false

namespace Snippet

/-- What is left of the tokens, with their number at hand. The list ends in the end mark. -/
structure Tokens where
  list : List Token
  size : Nat
  size_eq : size = list.length

namespace Tokens

def ofList (list : List Token) : Tokens :=
  ⟨list, list.length, rfl⟩

def tail (tokens : Tokens) : Tokens :=
  ⟨tokens.list.tail, tokens.size - 1, by simp [tokens.size_eq]⟩

end Tokens

/-- A reader takes tokens from the front. -/
abbrev Reader (α : Type) := StateT Tokens (Except ReadError) α

namespace Reader

def fail {α : Type} (e : ReadError) : Reader α :=
  fun _ => .error e

/-- The next token. Behind the end mark there is none. -/
def peek : Reader Token :=
  fun tokens =>
    match tokens.list with
    | token :: _ => .ok (token, tokens)
    | [] => .error .pastEnd

/-- The token after the next one. -/
def peekSecond : Reader Token :=
  fun tokens =>
    match tokens.list with
    | _ :: second :: _ => .ok (second, tokens)
    | [last] => .ok (last, tokens)
    | [] => .ok (Token.finishAt 1, tokens)

/-- Go on behind the next token. The end mark is not gone past. -/
def advance : Reader Unit :=
  fun tokens =>
    match tokens.list with
    | _ :: _ :: _ => .ok ((), tokens.tail)
    | _ => .error .pastEnd

/-- Take a token of a kind. -/
def expect (kind : TokenKind) : Reader Token := do
  let token ← peek
  if token.kind == kind then
    advance
    return token
  else fail (.expected kind.label.toList token.value token.column)

/-- Take a token of a kind if it is next. -/
def accept (kind : TokenKind) : Reader Bool := do
  let token ← peek
  if token.kind == kind then
    advance
    return true
  else return false

def remaining : Reader Nat :=
  fun tokens => .ok (tokens.size, tokens)

def expectEnd : Reader Unit := do
  let token ← peek
  if token.kind == .finish then return ()
  else fail (.unexpected token.value token.column)

end Reader

namespace Grammar

open Reader

/-- The levels of precedence, from the loosest to the tightest. -/
inductive Level where
  | conditional | or | and | not | comparison | sum | product | unary | power | trailed | atom
  deriving Repr, DecidableEq

/-- A reader of expressions at every level. -/
abbrev Levels := Level → Reader Expr

-- Each turn of a loop takes a token, so as many turns as there are tokens are enough.
def chainLoop (operand : Reader Expr) (join? : TokenKind → Option (Expr → Expr → Expr)) :
    Nat → Expr → Reader Expr
  | 0, left => return left
  | turns + 1, left => do
      match join? (← peek).kind with
      | none => return left
      | some join =>
          advance
          let right ← operand
          chainLoop operand join? turns (join left right)

/-- Operands joined by operators of one level, grouped to the left. -/
def chain (operand : Reader Expr) (join? : TokenKind → Option (Expr → Expr → Expr)) :
    Reader Expr := do
  let left ← operand
  chainLoop operand join? (← remaining) left

def joinBool (kind : TokenKind) (op : BoolOp) (k : TokenKind) : Option (Expr → Expr → Expr) :=
  if k == kind then some fun left right => .bool left.column op left right else none

def joinBinary (op? : TokenKind → Option BinaryOp) (k : TokenKind) :
    Option (Expr → Expr → Expr) :=
  (op? k).map fun op left right => .binary left.column op left right

def sumOp? : TokenKind → Option BinaryOp
  | .plus => some .add
  | .minus => some .sub
  | _ => none

def productOp? : TokenKind → Option BinaryOp
  | .star => some .mul
  | .slash => some .div
  | .floorDivide => some .floorDiv
  | .percent => some .mod
  | _ => none

def signOp? : TokenKind → Option UnaryOp
  | .plus => some .plus
  | .minus => some .minus
  | _ => none

def comparisonOf? : TokenKind → Option Comparison
  | .equal => some .eq
  | .notEqual => some .ne
  | .less => some .lt
  | .greater => some .gt
  | .lessEqual => some .le
  | .greaterEqual => some .ge
  | .in => some .isIn
  | _ => none

/-- Take a comparison operator, of one word or two, if one is next. -/
def comparison? : Reader (Option Comparison) := do
  let token ← peek
  match comparisonOf? token.kind with
  | some op =>
      advance
      return some op
  | none =>
      if token.kind == .is then
        advance
        return some (if ← accept .not then .notSame else .same)
      else if token.kind == .not && (← peekSecond).kind == .in then
        advance
        advance
        return some .notIn
      else return none

def linksLoop (operand : Reader Expr) : Nat → Reader (List (Comparison × Expr))
  | 0 => return []
  | turns + 1 => do
      match ← comparison? with
      | none => return []
      | some op =>
          let right ← operand
          let rest ← linksLoop operand turns
          return (op, right) :: rest

/-- Tokens that may start an expression. -/
def startsExpr : TokenKind → Bool
  | .number | .float | .string | .formatted | .name | .true | .false | .none | .not | .minus
  | .plus | .openParen | .openBracket | .openBrace => true
  | _ => false

-- Items after a first one, each behind a comma; a comma may stand before the end.
def moreItems {α : Type} (item : Reader α) (goesOn : TokenKind → Bool) : Nat → Reader (List α)
  | 0 => return []
  | turns + 1 => do
      if ← accept .comma then
        if goesOn (← peek).kind then
          let first ← item
          let rest ← moreItems item goesOn turns
          return first :: rest
        else return []
      else return []

/-- Items up to a closing kind, separated by commas. -/
def itemsUntil {α : Type} (item : Reader α) (closing : TokenKind) : Reader (List α) := do
  if (← peek).kind == closing then return []
  else
    let first ← item
    let rest ← moreItems item (· != closing) (← remaining)
    return first :: rest

def argument (levels : Levels) (afterKeyword : Bool) : Reader Argument := do
  let token ← peek
  if token.kind == .name && (← peekSecond).kind == .assign then
    advance
    advance
    return (some token.value, ← levels .conditional)
  else if afterKeyword then fail (.positionalAfterKeyword token.column)
  else return (none, ← levels .conditional)

-- Positional arguments come before those with a keyword.
def argumentsLoop (levels : Levels) (closing : TokenKind) :
    Nat → Bool → Reader (List Argument)
  | 0, _ => return []
  | turns + 1, afterKeyword => do
      if (← peek).kind == closing then return []
      else
        let first ← argument levels afterKeyword
        if ← accept .comma then
          let rest ← argumentsLoop levels closing turns (afterKeyword || first.1.isSome)
          return first :: rest
        else return [first]

def arguments (levels : Levels) (closing : TokenKind) : Reader (List Argument) := do
  argumentsLoop levels closing (← remaining) false

/-- One expression, or a tuple of several without brackets. -/
def exprList (levels : Levels) : Reader Expr := do
  let first ← levels .conditional
  if (← peek).kind == .comma then
    let rest ← moreItems (levels .conditional) startsExpr (← remaining)
    return .tuple first.column (first :: rest)
  else return first

/-- Read a whole text. -/
def readWhole {α : Type} (reader : Reader α) (t : Text) : Except ReadError α := do
  let tokens ← Token.scan t
  let (result, _) ← (do
    let result ← reader
    expectEnd
    return result : Reader α).run (.ofList tokens)
  return result

def slicePart (levels : Levels) (closing : List TokenKind) : Reader (Option Expr) := do
  if closing.contains (← peek).kind then return none
  else return some (← levels .conditional)

/-- An item's position, or two or three parts separated by colons, each of which may be absent. -/
def subscript (levels : Levels) : Reader Subscript := do
  let column := (← peek).column
  let lower ← slicePart levels [.colon]
  match lower, (← peek).kind == .colon with
  | some position, false => return .item position
  | _, _ =>
      discard <| expect .colon
      let upper ← slicePart levels [.colon, .closeBracket]
      let step ←
        if ← accept .colon then slicePart levels [.closeBracket] else pure none
      return .slice column lower upper step

/-- Calls, subscripts and attributes behind an expression. -/
def trailersLoop (levels : Levels) : Nat → Expr → Reader Expr
  | 0, base => return base
  | turns + 1, base => do
      match (← peek).kind with
      | .openParen =>
          advance
          let args ← arguments levels .closeParen
          discard <| expect .closeParen
          trailersLoop levels turns (.call base.column base args)
      | .openBracket =>
          advance
          let sub ← subscript levels
          discard <| expect .closeBracket
          trailersLoop levels turns (.index base.column base sub)
      | .dot =>
          advance
          let id ← expect .name
          trailersLoop levels turns (.member base.column base id.value)
      | _ => return base

/-- The natural that a number token stands for. -/
def naturalOf? (digits : Text) : Option Nat :=
  if digits.length > maxDecimalDigits || !digits.all isDecimal then none
  else some (Numeral.ofDigits 10 (Numeral.plain digits))

def literalNumber (token : Token) : Reader Expr :=
  match naturalOf? token.value with
  | some n => return .literal token.column (.int n)
  | none => fail .unreadableNumber

def literalFloat (token : Token) : Reader Expr :=
  match Numeral.float? token.value with
  | some x => return .literal token.column (.float x)
  | none => fail .unreadableNumber

/-- The text of a field is read like a whole expression, on what is left of the budget. -/
def readField (levels : Levels) (t : Text) : Except ReadError Expr :=
  readWhole (exprList levels) t

/-- Texts that stand side by side join; with a formatted one among them, so is the whole. -/
def textsLoop (levels : Levels) : Nat → Reader (Bool × List Part)
  | 0 => return (false, [])
  | turns + 1 => do
      let token ← peek
      match token.kind with
      | .string =>
          advance
          let (formatted, rest) ← textsLoop levels turns
          return (formatted, .text token.value :: rest)
      | .formatted =>
          advance
          let parts ← Field.readBody (readField levels) token.column token.value
          let (_, rest) ← textsLoop levels turns
          return (true, parts ++ rest)
      | _ => return (false, [])

def partText : Part → Text
  | .text t => t
  | .field .. => []

def texts (levels : Levels) (column : Nat) : Reader Expr := do
  let (formatted, parts) ← textsLoop levels (← remaining)
  if formatted then return .formatted column parts
  match parts with
  | [part] => return .literal column (.text (partText part))
  | parts => return .literal column (.joined (parts.flatMap partText))

/-- What stands between round brackets: nothing, an expression in brackets, or a tuple. -/
def parenthesized (levels : Levels) (column : Nat) : Reader Expr := do
  advance
  if ← accept .closeParen then return .tuple column []
  else
    let first ← levels .conditional
    if (← peek).kind == .comma then
      let rest ← moreItems (levels .conditional) (· != .closeParen) (← remaining)
      discard <| expect .closeParen
      return .tuple column (first :: rest)
    else
      discard <| expect .closeParen
      return first

def entry (levels : Levels) : Reader (Expr × Expr) := do
  let key ← levels .conditional
  discard <| expect .colon
  return (key, ← levels .conditional)

def atom (levels : Levels) : Reader Expr := do
  let token ← peek
  match token.kind with
  | .number =>
      advance
      literalNumber token
  | .float =>
      advance
      literalFloat token
  | .string | .formatted => texts levels token.column
  | .true =>
      advance
      return .literal token.column (.bool true)
  | .false =>
      advance
      return .literal token.column (.bool false)
  | .none =>
      advance
      return .literal token.column .none
  | .name =>
      advance
      return .name token.column token.value
  | .openParen => parenthesized levels token.column
  | .openBracket =>
      advance
      let items ← itemsUntil (levels .conditional) .closeBracket
      discard <| expect .closeBracket
      return .list token.column items
  | .openBrace =>
      advance
      let entries ← itemsUntil (entry levels) .closeBrace
      discard <| expect .closeBrace
      return .dict token.column entries
  | .finish => fail .unexpectedEnd
  | _ => fail (.unexpected token.value token.column)

/-- One level, given a reader of all levels for its parts. -/
def level (levels : Levels) : Level → Reader Expr
  | .conditional => do
      let body ← levels .or
      if ← accept .if then
        let test ← levels .or
        discard <| expect .else
        let orelse ← levels .conditional
        return .conditional body.column test body orelse
      else return body
  | .or => chain (levels .and) (joinBool .or .or)
  | .and => chain (levels .not) (joinBool .and .and)
  | .not => do
      let token ← peek
      if token.kind == .not then
        advance
        return .unary token.column .not (← levels .not)
      else levels .comparison
  | .comparison => do
      let first ← levels .sum
      let links ← linksLoop (levels .sum) (← remaining)
      if links.isEmpty then return first
      else return .compare first.column first links
  | .sum => chain (levels .product) (joinBinary sumOp?)
  | .product => chain (levels .unary) (joinBinary productOp?)
  | .unary => do
      let token ← peek
      match signOp? token.kind with
      | some op =>
          advance
          return .unary token.column op (← levels .unary)
      | none => levels .power
  | .power => do
      let base ← levels .trailed
      if ← accept .power then
        let exponent ← levels .unary
        return .binary base.column .pow base exponent
      else return base
  | .trailed => do
      let base ← levels .atom
      trailersLoop levels (← remaining) base
  | .atom => atom levels

/-- All levels, as deep as a budget allows. -/
def readAt : Nat → Levels
  | 0 => fun _ => fail .tooDeep
  | budget + 1 => level (readAt budget)

/-- The steps from level to level that one text may nest. -/
def readBudget : Nat := 980

end Grammar

namespace Expr

/-- Read a text as an expression; a bare tuple needs no brackets. -/
def read (t : Text) : Except ReadError Expr :=
  Grammar.readWhole (Grammar.exprList (Grammar.readAt Grammar.readBudget)) t

/-- Read a text as the arguments of a call. -/
def readArguments (t : Text) : Except ReadError (List Argument) :=
  Grammar.readWhole (Grammar.arguments (Grammar.readAt Grammar.readBudget) .finish) t

end Expr

end Snippet
