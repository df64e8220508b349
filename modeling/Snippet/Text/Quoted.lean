import Snippet.Text.Printable
import Snippet.Text.Search
import Snippet.Number.Decimal

/-!
Texts in quotes. `quoted` is a text literal: quotes, backslashes and what has no visible form are
escaped. `jsonQuoted` is a JSON string in ASCII.
-/

set_option autoImplicit false

namespace Snippet.Text

/-- At least so many hexadecimal digits. -/
def hexDigits (width n : Nat) : Text :=
  let digits := Nat.toDigits 16 n
  Decimal.zeros (width - digits.length) ++ digits

/-- An escape with as few digits as its form allows. -/
def codeEscape (c : Char) : Text :=
  let n := c.toNat
  if n < 0x100 then '\\' :: 'x' :: hexDigits 2 n
  else if n < 0x10000 then '\\' :: 'u' :: hexDigits 4 n
  else '\\' :: 'U' :: hexDigits 8 n

def quotedChar (quote : Char) (shown : Char → Bool) (c : Char) : Text :=
  if c == quote || c == '\\' then ['\\', c]
  else if c == '\n' then ['\\', 'n']
  else if c == '\r' then ['\\', 'r']
  else if c == '\t' then ['\\', 't']
  else if shown c then [c]
  else codeEscape c

/-- Single quotes, unless the text holds such and no double ones. -/
def quoteFor (t : Text) : Char :=
  if t.contains '\'' && !t.contains '"' then '"' else '\''

def quotedWith (shown : Char → Bool) (t : Text) : Text :=
  let quote := quoteFor t
  quote :: t.flatMap (quotedChar quote shown) ++ [quote]

/-- A text as a literal. -/
def quoted (t : Text) : Text :=
  quotedWith isPrintable t

/-- The same with everything beyond ASCII escaped. -/
def asciiOnly (t : Text) : Text :=
  t.flatMap fun c => if c.toNat < 128 then [c] else codeEscape c

def jsonUnit (n : Nat) : Text :=
  '\\' :: 'u' :: hexDigits 4 n

def jsonChar (c : Char) : Text :=
  let n := c.toNat
  if c == '"' || c == '\\' then ['\\', c]
  else if c == '\n' then ['\\', 'n']
  else if c == '\r' then ['\\', 'r']
  else if c == '\t' then ['\\', 't']
  else if n == 8 then ['\\', 'b']
  else if n == 12 then ['\\', 'f']
  else if 32 ≤ n && n < 127 then [c]
  else if n < 0x10000 then jsonUnit n
  else
    -- Two units of sixteen bits.
    let rest := n - 0x10000
    jsonUnit (0xD800 + rest / 0x400) ++ jsonUnit (0xDC00 + rest % 0x400)

def jsonQuoted (t : Text) : Text :=
  '"' :: t.flatMap jsonChar ++ ['"']

end Snippet.Text
