import Snippet.Number.Decimal
import Snippet.Number.Numeral

/-!
Arithmetic of floats where the result depends on more than the machine operation: remainder and
floored quotient, powers, rounding to decimal places, and the exact comparison with integers.
-/

set_option autoImplicit false

namespace Snippet

namespace Real

def isFinite (x : Float) : Bool :=
  x.toBits.toNat / Nat.pow 2 52 % Nat.pow 2 11 != 2047

def withSign (negative : Bool) (x : Float) : Float :=
  if isNegative x == negative then x else -x

/-- What is left of `x` after taking out `y` as often as possible; it has the sign of `x`. -/
def remainder (x y : Float) : Float :=
  match Binary.ofFloat? x, Binary.ofFloat? y with
  | some a, some b =>
      if b.mantissa == 0 then notANumber
      else
        let e := min a.exponent b.exponent
        let left := Binary.shifted a.mantissa (a.exponent - e)
          % Binary.shifted b.mantissa (b.exponent - e)
        nearest a.negative (Binary.shifted left e) (Binary.shifted 1 (-e))
  | some _, none => if y.isNaN then y else x
  | none, _ => notANumber

/-- The remainder that has the sign of the divisor. -/
def modulo (x y : Float) : Float :=
  let left := remainder x y
  if left == 0 then signedZero (isNegative y)
  else if decide (y < 0) != decide (left < 0) then left + y
  else left

/-- The quotient rounded down. -/
def floorDivide (x y : Float) : Float :=
  let left := remainder x y
  let quotient := (x - left) / y
  let adjusted :=
    if left != 0 && decide (y < 0) != decide (left < 0) then quotient - 1 else quotient
  if adjusted == 0 then signedZero (isNegative (x / y))
  else
    let floor := adjusted.floor
    if adjusted - floor > 0.5 then floor + 1 else floor

/-- The integer part, toward zero; none for an infinity or a NaN. -/
def truncate? (x : Float) : Option Int :=
  (Binary.ofFloat? x).map fun b =>
    let n : Int := b.quotient.1 / b.quotient.2
    if b.negative then -n else n

def floor? (x : Float) : Option Int :=
  (Binary.ofFloat? x).map fun b => b.signedNumerator / (b.quotient.2 : Int)

def ceil? (x : Float) : Option Int :=
  (Binary.ofFloat? x).map fun b => -(-b.signedNumerator / (b.quotient.2 : Int))

/-- The nearest integer, a half going to the even neighbour. -/
def nearestInt? (x : Float) : Option Int :=
  (Binary.ofFloat? x).map fun b =>
    let n : Int := roundHalfEven b.quotient.1 b.quotient.2
    if b.negative then -n else n

/-- Rounded to decimal places (tens, hundreds, … for a negative count); none when it is too large.
-/
def roundPlaces? (x : Float) (places : Int) : Option Float :=
  match Binary.ofFloat? x with
  | none => some x
  | some b =>
      if places > 323 then some x
      else if places < -308 then some (0 * x)
      else
        let (num, den) := Decimal.inUnits b.quotient.1 b.quotient.2 (-places)
        let units := roundHalfEven num den
        let (n, d) := Decimal.inUnits units 1 places
        let rounded := nearest b.negative n d
        if isFinite rounded then some rounded else none

def isInteger (x : Float) : Bool :=
  x.floor == x

def isOddInteger (x : Float) : Bool :=
  isFinite x && (remainder x 2).abs == 1

inductive PowerFailure where
  | zeroToNegative
  | tooLarge
  deriving Repr, DecidableEq

inductive Power where
  | real (x : Float)
  /-- A negative number to a fractional power. -/
  | offLine
  | failed (why : PowerFailure)

def power (base exponent : Float) : Power :=
  if exponent == 0 then .real 1
  else if base.isNaN then .real base
  else if exponent.isNaN then .real (if base == 1 then 1 else exponent)
  else if !isFinite exponent then
    if base.abs == 1 then .real 1
    else .real (if decide (exponent > 0) == decide (base.abs > 1) then exponent.abs else 0)
  else if !isFinite base then
    let size : Float := if exponent > 0 then base.abs else 0
    .real (if isOddInteger exponent then withSign (isNegative base) size else size)
  else if base == 0 then
    if exponent < 0 then .failed .zeroToNegative
    else .real (if isOddInteger exponent then base else 0)
  else if base < 0 && !isInteger exponent then .offLine
  else
    let size := if base.abs == 1 then 1 else base.abs.pow exponent
    if !isFinite size then .failed .tooLarge
    else .real (if base < 0 && isOddInteger exponent then -size else size)

/-- Exact order of an integer and a float; none for a NaN. -/
def compareInt? (n : Int) (x : Float) : Option Ordering :=
  match Binary.ofFloat? x with
  | some b => some (compare (n * b.quotient.2) b.signedNumerator)
  | none => if x.isNaN then none else some (if isNegative x then .gt else .lt)

/-- The square root of the sum of two squares, for legs in falling order and not close to the ends
of the range. The rounding error of the squares is taken out of the root. -/
def diagonal (long short : Float) : Float :=
  let root := (long * long + short * short).sqrt
  let error :=
    if root ≤ 2 * short then
      let rest := root - short
      long * (2 * rest - long) + (rest - 2 * (long - short)) * rest
    else
      let rest := root - long
      2 * rest * (long - 2 * short) + ((4 * rest - short) * short + rest * rest)
  root - error / (2 * root)

/-- The same for all finite legs: those whose squares would be too large or too small are scaled,
and a leg that is lost beside the other one is only added. -/
def scaledDiagonal (long short : Float) : Float :=
  let scale : Float := Float.scaleB 1 (-600)
  let grain : Float := Float.scaleB 1 (-54)
  if long > Float.scaleB 1 511 then
    if short ≤ long * grain then long + short
    else diagonal (long * scale) (short * scale) / scale
  else if short < Float.scaleB 1 (-459) then
    if long ≥ short / grain then long + short
    else diagonal (long / scale) (short / scale) * scale
  else if short ≤ long * grain then long + short
  else diagonal long short

/-- Length of the hypotenuse over two legs. -/
def hypotenuse (x y : Float) : Float :=
  let isInfinite (x : Float) : Bool := !isFinite x && !x.isNaN
  if isInfinite x || isInfinite y then infinity
  else if x.isNaN || y.isNaN then notANumber
  else if x.abs < y.abs then scaledDiagonal y.abs x.abs
  else scaledDiagonal x.abs y.abs

end Real

end Snippet
