import Snippet.Text.Ranges

/-!
Tokens of an expression.
-/

set_option autoImplicit false

namespace Snippet

inductive TokenKind where
  | number | float | string | formatted | name
  | true | false | none | and | or | not | in | is | if | else
  | power | floorDivide | equal | notEqual | lessEqual | greaterEqual
  | plus | minus | star | slash | percent | less | greater | assign
  | openParen | closeParen | openBracket | closeBracket | openBrace | closeBrace
  | comma | colon | dot
  | finish
  deriving Repr, DecidableEq

namespace TokenKind

/-- The name of a kind in token listings and messages. -/
def label : TokenKind → String
  | number => "NUMBER" | float => "FLOAT" | string => "STRING" | formatted => "FSTRING"
  | name => "NAME" | true => "TRUE" | false => "FALSE" | none => "NONE"
  | and => "AND" | or => "OR" | not => "NOT" | TokenKind.in => "IN" | is => "IS"
  | TokenKind.if => "IF" | TokenKind.else => "ELSE"
  | power => "POW" | floorDivide => "FLOORDIV" | equal => "EQ" | notEqual => "NE"
  | lessEqual => "LE" | greaterEqual => "GE" | plus => "PLUS" | minus => "MINUS"
  | star => "STAR" | slash => "SLASH" | percent => "PERCENT" | less => "LT"
  | greater => "GT" | assign => "EQUALS"
  | openParen => "LPAREN" | closeParen => "RPAREN"
  | openBracket => "LBRACKET" | closeBracket => "RBRACKET"
  | openBrace => "LBRACE" | closeBrace => "RBRACE"
  | comma => "COMMA" | colon => "COLON" | dot => "DOT"
  | finish => "EOF"

end TokenKind

structure Token where
  kind : TokenKind
  /-- The name, the operator, the digits without underscores, or the text with its escapes read. -/
  value : Text
  /-- Where the token starts, from 1. -/
  column : Nat
  /-- The source text that it was read from. -/
  span : Text
  deriving Repr, DecidableEq

/-- The words that are no names. -/
def keywords : List (String × TokenKind) := [
  ("True", .true), ("False", .false), ("None", .none), ("and", .and), ("or", .or),
  ("not", .not), ("in", .in), ("is", .is), ("if", .if), ("else", .else)]

def wordKind (word : Text) : TokenKind :=
  match keywords.find? fun k => k.1.toList == word with
  | some k => k.2
  | none => .name

/-- Operators, those of two characters first so that the longest match wins. -/
def operators : List (String × TokenKind) := [
  ("**", .power), ("//", .floorDivide), ("==", .equal), ("!=", .notEqual), ("<=", .lessEqual),
  (">=", .greaterEqual), ("+", .plus), ("-", .minus), ("*", .star), ("/", .slash),
  ("%", .percent), ("<", .less), (">", .greater), ("=", .assign), ("(", .openParen),
  (")", .closeParen), ("[", .openBracket), ("]", .closeBracket), ("\x7b", .openBrace),
  ("\x7d", .closeBrace), (",", .comma), (":", .colon), (".", .dot)]

end Snippet
