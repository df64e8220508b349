import Snippet.Number.Binary
import Snippet.Text.Search

/-!
Decimal digits of floats. `shortest` has the fewest digits that read back as the same float and, of
those, the nearest; `significant` and `fixedUnits` round the exact value, a half going to even.
-/

set_option autoImplicit false

namespace Snippet

def digitsOf (n : Nat) : Text :=
  Nat.toDigits 10 n

def intText (n : Int) : Text :=
  if n < 0 then '-' :: digitsOf n.natAbs else digitsOf n.natAbs

/-- Digits d₁d₂… and the position of the point: the number 0.d₁d₂… · 10^point. -/
structure Decimal where
  digits : Text
  point : Int
  deriving Repr, DecidableEq

namespace Decimal

-- num / den counted in units of 10^k, as a quotient.
def inUnits (num den : Nat) (k : Int) : Nat × Nat :=
  (num * Nat.pow 10 (-k).toNat, den * Nat.pow 10 k.toNat)

def reaches (num den : Nat) (k : Int) : Bool :=
  (inUnits num den k).2 ≤ (inUnits num den k).1

/-- Greatest k with 10^k ≤ num / den, for a positive quotient. -/
def floorLog10 (num den : Nat) : Int :=
  -- The binary logarithm gives the answer up to one.
  let guess := floorLog2 num den * 30103 / 100000
  if reaches num den (guess + 1) then guess + 1
  else if reaches num den guess then guess
  else guess - 1

def ofUnits (n : Nat) (k : Int) : Decimal :=
  let digits := digitsOf n
  { digits := digits, point := digits.length + k }

/-- Without zeros at the end of the digits, the first digit apart. -/
def trimmed (d : Decimal) : Decimal :=
  match Text.dropEnd (· == '0') d.digits with
  | [] => { d with digits := ['0'] }
  | kept => { d with digits := kept }

/-- Four times the mantissas of the ends of the numbers that round to this one. -/
def roundingEnds (b : Binary) : Nat × Nat :=
  let below := if b.mantissa == Nat.pow 2 52 && b.exponent != -1074 then 1 else 2
  (4 * b.mantissa - below, 4 * b.mantissa + 2)

/-- A count of units of 10^k rounds to the number; the ends do so for an even mantissa. -/
def roundsTo (b : Binary) (k : Int) (count : Nat) : Bool :=
  let ends := roundingEnds b
  let candidate := Binary.shifted (4 * count * Nat.pow 10 k.toNat) (-b.exponent)
  let unit := Binary.shifted (Nat.pow 10 (-k).toNat) b.exponent
  if b.mantissa % 2 == 0 then ends.1 * unit ≤ candidate && candidate ≤ ends.2 * unit
  else ends.1 * unit < candidate && candidate < ends.2 * unit

/-- The nearest count of units of 10^k that rounds to the number, if one does. -/
def hit? (b : Binary) (k : Int) : Option Nat :=
  let (num, den) := inUnits b.quotient.1 b.quotient.2 k
  let below := num / den
  match roundsTo b k below, roundsTo b k (below + 1) with
  | true, true => some (roundHalfEven num den)
  | true, false => some below
  | false, true => some (below + 1)
  | false, false => none

/-- The fewest digits that read back as the number, for a number other than zero. -/
def shortest (b : Binary) : Decimal :=
  let top := floorLog10 b.quotient.1 b.quotient.2
  let found := (List.range 17).findSome? fun (i : Nat) =>
    (hit? b (top - i)).map fun count => trimmed (ofUnits count (top - i))
  found.getD { digits := ['0'], point := 1 }

/-- Rounded to a positive number of significant digits, for a positive quotient. -/
def significant (num den : Nat) (count : Nat) : Decimal :=
  let k := floorLog10 num den + 1 - count
  let (n, d) := inUnits num den k
  let rounded := roundHalfEven n d
  -- Rounding up may add a digit, which is then a zero at the end.
  if rounded == Nat.pow 10 count then ofUnits (Nat.pow 10 (count - 1)) (k + 1) else ofUnits rounded k

/-- Rounded to units of 10^(-places). -/
def fixedUnits (num den : Nat) (places : Nat) : Nat :=
  roundHalfEven (num * Nat.pow 10 places) den

/-- Which digits of a number are wanted. -/
inductive Wanted where
  /-- As few as read back. -/
  | shortest
  /-- So many significant ones, at least one. -/
  | significant (count : Nat)
  /-- All those up to so many places after the point. -/
  | places (count : Nat)

/-- The wanted digits of a finite float, without zeros at the end. -/
def ofBinary (b : Binary) (wanted : Wanted) : Decimal :=
  if b.mantissa == 0 then { digits := ['0'], point := 1 } else
    let (num, den) := b.quotient
    match wanted with
    | .shortest => shortest b
    | .significant count => trimmed (significant num den count)
    | .places count =>
        match fixedUnits num den count with
        | 0 => { digits := [], point := -count }
        | units => trimmed (ofUnits units (-count))

-- An exponent with its sign and at least two digits.
def exponentText (e : Int) : Text :=
  let digits := digitsOf e.natAbs
  let padded := if digits.length < 2 then '0' :: digits else digits
  (if e < 0 then '-' else '+') :: padded

def zeros (n : Int) : Text :=
  List.replicate n.toNat '0'

/-- How digits are set out. -/
structure Layout where
  /-- The mark of the exponent, in scientific form. -/
  exponent : Option Char
  /-- Zeros fill up to this digit. -/
  upTo : Int
  /-- Keep a point that no digit follows. -/
  keepPoint : Bool

/-- The digits with point, filling zeros and exponent. -/
def setOut (d : Decimal) (layout : Layout) : Text :=
  let point := if layout.exponent.isSome then 1 else d.point
  let upTo := max layout.upTo point
  let shown := d.digits.length
  let whole :=
    if point ≤ 0 then ['0'] else d.digits.take point.toNat ++ zeros (point - shown)
  let fraction :=
    zeros (-point) ++ d.digits.drop point.toNat ++ zeros (upTo - max point shown)
  let pointed :=
    if fraction.isEmpty && !layout.keepPoint then whole else whole ++ '.' :: fraction
  match layout.exponent with
  | some mark => pointed ++ mark :: exponentText (d.point - 1)
  | none => pointed

end Decimal

def signText (negative : Bool) : Text :=
  if negative then ['-'] else []

/-- Sign and magnitude of a float; the magnitude of a finite one comes from `finite`. -/
def floatTextWith (finite : Binary → Text) (x : Float) : Text :=
  match Binary.ofFloat? x with
  | some b => signText b.negative ++ finite b
  | none => if x.isNaN then "nan".toList else signText (isNegative x) ++ "inf".toList

/-- The shortest text: positional from 10^-4 up to below 10^16, else scientific. A whole number in
positional form shows `.0` if asked to. -/
def shortestText (showFraction : Bool) : Float → Text :=
  floatTextWith fun b =>
    let d := Decimal.ofBinary b .shortest
    let scientific := d.point ≤ -4 || d.point > 16
    d.setOut {
      exponent := if scientific then some 'e' else none
      upTo := if showFraction && !scientific then d.point + 1 else 0
      keepPoint := false }

def floatText (x : Float) : Text :=
  shortestText true x

/-- Real part, imaginary part with its sign, and the mark; the real part is left out when it is
+0. -/
def complexText (re im : Float) : Text :=
  if re == 0 && !isNegative re then shortestText false im ++ ['j']
  else
    let sign := if isNegative im && !im.isNaN then [] else ['+']
    '(' :: shortestText false re ++ sign ++ shortestText false im ++ "j)".toList

end Snippet
