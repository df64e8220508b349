/-!
Floats as exact binary fractions. `Binary.ofFloat?` reads a finite float exactly; `nearest` is the
float nearest to a quotient of naturals, a tie going to the even neighbour.
-/

set_option autoImplicit false

namespace Snippet

/-- The number ±mantissa · 2^exponent. -/
structure Binary where
  negative : Bool
  mantissa : Nat
  exponent : Int
  deriving Repr, DecidableEq

namespace Binary

def ofFloat? (x : Float) : Option Binary :=
  let bits := x.toBits.toNat
  let negative : Bool := bits / Nat.pow 2 63 == 1
  let biased : Nat := bits / Nat.pow 2 52 % Nat.pow 2 11
  let fraction : Nat := bits % Nat.pow 2 52
  if biased == 2047 then none
  else if biased == 0 then some ⟨negative, fraction, -1074⟩
  else some ⟨negative, Nat.pow 2 52 + fraction, (biased : Int) - 1075⟩

-- Scale a natural by a power of two that is not negative.
def shifted (n : Nat) (e : Int) : Nat :=
  n * Nat.pow 2 e.toNat

/-- The magnitude as a quotient of naturals. -/
def quotient (b : Binary) : Nat × Nat :=
  (shifted b.mantissa b.exponent, shifted 1 (-b.exponent))

def signedNumerator (b : Binary) : Int :=
  if b.negative then -(b.quotient.1 : Int) else b.quotient.1

end Binary

/-- Round a quotient to a natural, a half going to the even neighbour. -/
def roundHalfEven (num den : Nat) : Nat :=
  let q := num / den
  let twice := 2 * (num % den)
  if twice < den then q
  else if twice > den then q + 1
  else q + q % 2

/-- Greatest k with 2^k · den ≤ num, for positive arguments. -/
def floorLog2 (num den : Nat) : Int :=
  let k := (num.log2 : Int) - den.log2
  if Binary.shifted den k ≤ Binary.shifted num (-k) then k else k - 1

def floatOfBits (negative : Bool) (bits : Nat) : Float :=
  Float.ofBits (UInt64.ofNat (if negative then Nat.pow 2 63 + bits else bits))

def infinityBits : Nat :=
  2047 * Nat.pow 2 52

def infinity : Float :=
  floatOfBits false infinityBits

def notANumber : Float :=
  floatOfBits false (infinityBits + Nat.pow 2 51)

def signedZero (negative : Bool) : Float :=
  floatOfBits negative 0

/-- The bits of the float nearest to a quotient; the bits of infinity when it is too large. -/
def nearestBits (num den : Nat) : Nat :=
  if num == 0 then 0 else
    let e := max (floorLog2 num den - 52) (-1074)
    let q := roundHalfEven (Binary.shifted num (-e)) (Binary.shifted den e)
    min ((e + 1074).toNat * Nat.pow 2 52 + q) infinityBits

/-- The float nearest to a quotient. -/
def nearest (negative : Bool) (num den : Nat) : Float :=
  floatOfBits negative (nearestBits num den)

def isNegative (x : Float) : Bool :=
  x.toBits.toNat / Nat.pow 2 63 == 1

/-- The float nearest to an integer, unless it is too large for one. -/
def floatOfInt? (n : Int) : Option Float :=
  if nearestBits n.natAbs 1 == infinityBits then none
  else some (nearest (n < 0) n.natAbs 1)

/-- The float nearest to a quotient of integers with a nonzero divisor, unless it is too large for
one. -/
def divideInts? (a b : Int) : Option Float :=
  if nearestBits a.natAbs b.natAbs == infinityBits then none
  else some (nearest ((a < 0) != (b < 0)) a.natAbs b.natAbs)

end Snippet
