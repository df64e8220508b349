import Snippet.Value

/-!
The numbers among the values. A bool counts as 0 or 1; comparisons of different kinds of numbers are
exact.
-/

set_option autoImplicit false

namespace Snippet

inductive Numeric where
  | int (n : Int)
  | float (x : Float)
  | complex (z : Complex)

namespace Numeric

def ofValue? : Value → Option Numeric
  | .bool b => some (.int b.toInt)
  | .int _ n => some (.int n)
  | .float _ x => some (.float x)
  | .complex _ z => some (.complex z)
  | _ => none

def floatOrder? (x y : Float) : Option Ordering :=
  if x < y then some .lt
  else if x == y then some .eq
  else if x > y then some .gt
  else none

/-- The order of two real numbers; none if one of them is a NaN. -/
def realOrder? : Numeric → Numeric → Option Ordering
  | int a, int b => some (compare a b)
  | int a, float y => Real.compareInt? a y
  | float x, int b => (Real.compareInt? b x).map Ordering.swap
  | float x, float y => floatOrder? x y
  | _, _ => none

def isComplex : Numeric → Bool
  | complex _ => true
  | _ => false

def equal : Numeric → Numeric → Bool
  | complex z, complex w => z.re == w.re && z.im == w.im
  | complex z, n | n, complex z => z.im == 0 && realOrder? (float z.re) n == some .eq
  | a, b => realOrder? a b == some .eq

/-- Differs from zero. -/
def isTrue : Numeric → Bool
  | int n => n != 0
  | float x => x != 0
  | complex z => !z.isZero

end Numeric

end Snippet
