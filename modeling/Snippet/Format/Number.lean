import Snippet.Format.Layout
import Snippet.Number.Complex
import Snippet.Value.Render

/-!
Numbers and texts under a format specification.
-/

set_option autoImplicit false

namespace Snippet.Format

/-- How a finite float is written under a type. -/
structure FloatForm where
  wanted : Decimal.Wanted
  layout : Decimal → Decimal.Layout

def scientificForm (alternate : Bool) (mark : Char) (precision : Nat) : FloatForm where
  wanted := .significant (precision + 1)
  layout _ := { exponent := some mark, upTo := precision + 1, keepPoint := alternate }

def fixedForm (alternate : Bool) (precision : Nat) : FloatForm where
  wanted := .places precision
  layout d := { exponent := none, upTo := d.point + precision, keepPoint := alternate }

/-- Positional or scientific, whichever suits the size; `showFraction` keeps a digit after the
point. -/
def generalForm (alternate showFraction : Bool) (mark : Char) (precision : Nat) : FloatForm where
  wanted := .significant (max precision 1)
  layout d :=
    let most : Int := if showFraction then max precision 1 - 1 else max precision 1
    let scientific := d.point ≤ -4 || d.point > most
    { exponent := if scientific then some mark else none
      upTo := max (if alternate then (max precision 1 : Int) else 0)
        (if showFraction && !scientific then d.point + 1 else 0)
      keepPoint := alternate }

def shortestForm (alternate showFraction : Bool) : FloatForm where
  wanted := .shortest
  layout d :=
    let scientific := d.point ≤ -4 || d.point > 16
    { exponent := if scientific then some 'e' else none
      upTo := if showFraction && !scientific then d.point + 1 else 0
      keepPoint := alternate }

/-- The form that a type asks for; six is the default precision. -/
def floatForm? (alternate showFraction : Bool) (code : Option Char) (precision : Option Nat) :
    Option FloatForm :=
  let p := precision.getD 6
  match code with
  | none =>
      match precision with
      | none => some (shortestForm alternate showFraction)
      | some p => some (generalForm alternate showFraction 'e' p)
  | some c =>
      if c == 'e' || c == 'E' then some (scientificForm alternate c p)
      else if c == 'f' || c == 'F' || c == '%' then some (fixedForm alternate p)
      else if c == 'g' || c == 'n' then some (generalForm alternate false 'e' p)
      else if c == 'G' then some (generalForm alternate false 'E' p)
      else none

def isUpperCode (code : Option Char) : Bool :=
  code == some 'E' || code == some 'F' || code == some 'G'

/-- A float in a form, with a minus sign if it is negative. -/
def floatInForm (form : FloatForm) (upper dropNegativeZero : Bool) (x : Float) : Text :=
  match Binary.ofFloat? x with
  | some b =>
      let d := Decimal.ofBinary b form.wanted
      let isZero := d.digits.all (· == '0')
      signText (b.negative && !(dropNegativeZero && isZero)) ++ d.setOut (form.layout d)
  | none =>
      let name := if x.isNaN then "nan".toList else signText (isNegative x) ++ "inf".toList
      if upper then name.map Char.toUpper else name

def formatFloat (spec : Spec) (x : Float) : Except Breach Text :=
  match floatForm? spec.alternate true spec.code spec.precision with
  | none => .error .value
  | some form =>
      let isPercent := spec.code == some '%'
      let body := floatInForm form (isUpperCode spec.code) spec.dropNegativeZero
        (if isPercent then x * 100 else x)
      let body := if isPercent then body ++ ['%'] else body
      .ok ((Parts.ofText body).setOut spec 3)

/-- The base of an integer type and its mark. -/
def radixOf? : Char → Option (Nat × Text)
  | 'b' => some (2, "0b".toList)
  | 'o' => some (8, "0o".toList)
  | 'x' => some (16, "0x".toList)
  | 'X' => some (16, "0X".toList)
  | 'd' | 'n' => some (10, [])
  | _ => none

def magnitudeText (radix : Nat) (upper : Bool) (n : Nat) : Except Breach Text :=
  if radix == 10 && n ≥ decimalCap then .error .value
  else
    let digits := Nat.toDigits radix n
    .ok (if upper then digits.map Char.toUpper else digits)

def isCodePoint (n : Int) : Bool :=
  0 ≤ n && n < 0x110000

/-- The character of a code point in place of a number. -/
def formatCharacter (spec : Spec) (n : Int) : Except Breach Text :=
  if spec.sign.isSome || spec.alternate then .error .value
  else if !isCodePoint n then .error .overflow
  else
    let parts : Parts :=
      { negative := false, mark := [], digits := [], rest := [Char.ofNat n.toNat] }
    .ok (parts.setOut spec 3)

def floatCodes : List Char :=
  "eEfFgG%".toList

def formatInt (spec : Spec) (n : Int) : Except Breach Text := do
  let code := spec.code.getD 'd'
  if floatCodes.contains code then
    match floatOfInt? n with
    | some x => formatFloat spec x
    | none => throw .overflow
  else
    if code != 'c' && (radixOf? code).isNone then throw .value
    if spec.precision.isSome || spec.dropNegativeZero then throw .value
    match radixOf? code with
    | none => formatCharacter spec n
    | some (radix, mark) =>
        let digits ← magnitudeText radix (code == 'X') n.natAbs
        let mark := if spec.alternate then mark else []
        let parts : Parts := { negative := n < 0, mark, digits, rest := [] }
        return parts.setOut spec (if radix == 10 then 3 else 4)

/-- Both parts in the same form; neither zeros nor the inner alignment fill a complex number. -/
def formatComplex (spec : Spec) (z : Complex) : Except Breach Text := do
  if spec.code == some '%' then throw .value
  match floatForm? spec.alternate false spec.code spec.precision with
  | none => throw .value
  | some form =>
      if spec.fill == '0' || spec.align == .inner then throw .value
      let plain := { spec with fill := ' ', align := .left, width := none }
      let part (rule : Option SignRule) (x : Float) : Text :=
        (Parts.ofText (floatInForm form (isUpperCode spec.code) spec.dropNegativeZero x)).setOut
          { plain with sign := rule } 3
      let isDefault := spec.code.isNone
      let skipsReal := isDefault && z.re == 0 && !isNegative z.re
      let body :=
        if skipsReal then part spec.sign z.im ++ ['j']
        else part spec.sign z.re ++ part (some .always) z.im ++ ['j']
      return padded spec (if isDefault && !skipsReal then '(' :: body ++ [')'] else body)

/-- A text of such a length is left as it is. -/
def Spec.leaves (spec : Spec) (length : Nat) : Bool :=
  spec.width.all (· ≤ length) && spec.precision.all (length ≤ ·)

def formatText (spec : Spec) (t : Text) : Except Breach Text :=
  if spec.code != some 's' || spec.sign.isSome || spec.dropNegativeZero || spec.alternate
      || spec.align == .inner then .error .value
  else
    match spec.precision with
    | some p => .ok (padded spec (t.take p))
    | none => .ok (padded spec t)

end Snippet.Format
