import Snippet.Number.Binary
import Snippet.Text.Numeric
import Snippet.Text.Blank

/-!
Reading numbers from text. Digits of every script count, blanks may stand at the ends, and a
single underscore may stand between two digits. In bases other than the powers of two an integer
has at most `maxDecimalDigits` digits.
-/

set_option autoImplicit false

namespace Snippet

/-- Longest decimal integer text that is read or written. -/
def maxDecimalDigits : Nat := 4300

namespace Numeral

def isAsciiBlank (c : Char) : Bool :=
  c == ' ' || (9 ≤ c.toNat && c.toNat ≤ 13)

/-- The plain form of a character in a numeral: other blanks as a space, other digits as ASCII
ones. -/
def plainChar (c : Char) : Char :=
  if c.toNat < 128 then c
  else if isBlank c then ' '
  else match digitValue? c with
    | some d => Char.ofNat (48 + d)
    | none => '?'

def plain (t : Text) : Text :=
  t.map plainChar

/-- Value of a digit or letter in bases up to 36. -/
def placeValue? (c : Char) : Option Nat :=
  if '0' ≤ c && c ≤ '9' then some (c.toNat - 48)
  else if 'a' ≤ c && c ≤ 'z' then some (c.toNat - 87)
  else if 'A' ≤ c && c ≤ 'Z' then some (c.toNat - 55)
  else none

/-- The digits of a run in which an underscore only stands between two digits. -/
def ungroup? (isPlace : Char → Bool) : Text → Option Text
  | [] => none
  | [c] => if isPlace c then some [c] else none
  | c :: '_' :: rest =>
      if isPlace c then (ungroup? isPlace rest).map (c :: ·) else none
  | c :: rest => if isPlace c then (ungroup? isPlace rest).map (c :: ·) else none

def ofDigits (base : Nat) (digits : Text) : Nat :=
  digits.foldl (fun n c => n * base + (placeValue? c).getD 0) 0

def isPowerOfTwo (n : Nat) : Bool :=
  Nat.pow 2 n.log2 == n

/-- A run of digits of a base, grouped or not. -/
def natural? (base : Nat) (t : Text) : Option Nat := do
  let digits ← ungroup? (fun c => (placeValue? c).any (· < base)) t
  if !isPowerOfTwo base && digits.length > maxDecimalDigits then none
  else some (ofDigits base digits)

def baseOfMark? : Char → Option Nat
  | 'x' | 'X' => some 16
  | 'o' | 'O' => some 8
  | 'b' | 'B' => some 2
  | _ => none

-- An underscore may follow the base mark.
def afterMark (t : Text) : Text :=
  match t with
  | '_' :: rest => rest
  | _ => t

/-- A natural in a base; base 0 lets a mark such as `0x` decide, and then allows no leading zeros.
-/
def unsigned? (base : Nat) (t : Text) : Option Nat :=
  match t with
  | '0' :: mark :: rest =>
      match baseOfMark? mark with
      | some marked =>
          if base == 0 || base == marked then natural? marked (afterMark rest) else natural? base t
      | none => if base == 0 then (natural? 10 t).filter (· == 0) else natural? base t
  | _ => natural? (if base == 0 then 10 else base) t

def splitSign (t : Text) : Bool × Text :=
  match t with
  | '-' :: rest => (true, rest)
  | '+' :: rest => (false, rest)
  | _ => (false, t)

/-- An integer with an optional sign between blanks. -/
def integer? (base : Nat) (t : Text) : Option Int :=
  let (negative, rest) := splitSign (Text.trimBy isAsciiBlank (plain t))
  (unsigned? base rest).map fun n => if negative then -(n : Int) else n

/-- A decimal fraction: digits counted in units of a power of ten. -/
structure Scaled where
  units : Nat
  exponent : Int

def isAsciiDigit (c : Char) : Bool :=
  '0' ≤ c && c ≤ '9'

def exponent? (t : Text) : Option Int :=
  match t with
  | [] => some 0
  | mark :: rest =>
      if mark == 'e' || mark == 'E' then
        let (negative, digits) := splitSign rest
        if digits.isEmpty || !digits.all isAsciiDigit then none
        else
          let n : Int := ofDigits 10 digits
          some (if negative then -n else n)
      else none

/-- Digits with an optional point and an optional exponent; at least one digit stands before or
after the point. -/
def scaled? (t : Text) : Option Scaled :=
  let whole := t.takeWhile isAsciiDigit
  let afterWhole := t.dropWhile isAsciiDigit
  let (fraction, rest) := match afterWhole with
    | '.' :: more => (more.takeWhile isAsciiDigit, more.dropWhile isAsciiDigit)
    | _ => ([], afterWhole)
  if whole.isEmpty && fraction.isEmpty then none
  else (exponent? rest).map fun e =>
    { units := ofDigits 10 (whole ++ fraction), exponent := e - fraction.length }

/-- The float nearest to a decimal fraction. -/
def Scaled.toFloat (negative : Bool) (s : Scaled) : Float :=
  let size : Int := s.units.log2
  if s.units == 0 then signedZero negative
  -- Far outside the range of floats the power of ten is not worth computing.
  else if s.exponent > 400 then floatOfBits negative infinityBits
  else if size + 3 * (s.exponent + 400) < 0 then signedZero negative
  else nearest negative (s.units * Nat.pow 10 s.exponent.toNat) (Nat.pow 10 (-s.exponent).toNat)

def isNamedInfinity (t : Text) : Bool :=
  let word := t.map Char.toLower
  word == "inf".toList || word == "infinity".toList

def isNamedNaN (t : Text) : Bool :=
  t.map Char.toLower == "nan".toList

-- Underscores stand between two digits only; they are taken out.
def withoutUnderscores? : Bool → Text → Option Text
  | _, [] => some []
  | afterDigit, '_' :: rest =>
      match rest with
      | d :: _ => if afterDigit && isAsciiDigit d then withoutUnderscores? false rest else none
      | [] => none
  | _, c :: rest => (withoutUnderscores? (isAsciiDigit c) rest).map (c :: ·)

/-- A float between blanks: a decimal fraction, an infinity or a NaN, with an optional sign. -/
def float? (t : Text) : Option Float := do
  let bare ← withoutUnderscores? false (Text.trimBy isAsciiBlank (plain t))
  let (negative, rest) := splitSign bare
  if isNamedInfinity rest then some (floatOfBits negative infinityBits)
  else if isNamedNaN rest then some notANumber
  else (scaled? rest).map (Scaled.toFloat negative)

end Numeral

end Snippet
