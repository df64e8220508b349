import Snippet.Number.Real

/-!
Complex numbers, which arise from powers of negative numbers with a fractional exponent.
-/

set_option autoImplicit false

namespace Snippet

structure Complex where
  re : Float
  im : Float

namespace Complex

def ofReal (x : Float) : Complex :=
  ⟨x, 0⟩

def neg (z : Complex) : Complex :=
  ⟨-z.re, -z.im⟩

def add (z w : Complex) : Complex :=
  ⟨z.re + w.re, z.im + w.im⟩

def sub (z w : Complex) : Complex :=
  ⟨z.re - w.re, z.im - w.im⟩

def mul (z w : Complex) : Complex :=
  ⟨z.re * w.re - z.im * w.im, z.re * w.im + z.im * w.re⟩

def isZero (z : Complex) : Bool :=
  z.re == 0 && z.im == 0

/-- The quotient, scaled by the larger part of the divisor; none for a zero divisor. -/
def div? (z w : Complex) : Option Complex :=
  if isZero w then none
  else if w.re.abs ≥ w.im.abs then
    let ratio := w.im / w.re
    let scale := w.re + w.im * ratio
    some ⟨(z.re + z.im * ratio) / scale, (z.im - z.re * ratio) / scale⟩
  else if w.im.abs ≥ w.re.abs then
    let ratio := w.re / w.im
    let scale := w.re * ratio + w.im
    some ⟨(z.re * ratio + z.im) / scale, (z.im * ratio - z.re) / scale⟩
  else some ⟨notANumber, notANumber⟩

/-- A natural power by repeated squaring. -/
def powNat (z : Complex) (n : Nat) : Complex :=
  go (n.log2 + 1) z n ⟨1, 0⟩
where
  go : Nat → Complex → Nat → Complex → Complex
    | 0, _, _, r => r
    | fuel + 1, p, k, r =>
        if k == 0 then r
        else go fuel (mul p p) (k / 2) (if k % 2 == 1 then mul r p else r)

def isInfinite (x : Float) : Bool :=
  !Real.isFinite x && !x.isNaN

/-- The number of a length and an angle; an infinite angle points nowhere. -/
def ofPolar? (length angle : Float) : Option Complex :=
  if isInfinite angle then none else some ⟨length * angle.cos, length * angle.sin⟩

/-- A power through modulus and angle. -/
def powPolar? (z w : Complex) : Option Complex :=
  if isZero w then some ⟨1, 0⟩
  else if isZero z then
    if w.im != 0 || w.re < 0 then none else some ⟨0, 0⟩
  else
    let modulus := Real.hypotenuse z.re z.im
    let length := modulus.pow w.re
    let angle := Float.atan2 z.im z.re
    let phase := angle * w.re
    if w.im != 0 then
      ofPolar? (length / (angle * w.im).exp) (phase + w.im * modulus.log)
    else ofPolar? length phase

/-- A power; small integer exponents go by multiplication. Fails by a zero divisor, by an angle that
is infinite, or by a result that is too large. -/
def pow (z w : Complex) : Except Real.PowerFailure Complex :=
  let result :=
    if w.im == 0 && w.re == w.re.floor && w.re.abs ≤ 100 then
      let n := (Real.truncate? w.re).getD 0
      if n > 0 then some (powNat z n.toNat) else div? ⟨1, 0⟩ (powNat z n.natAbs)
    else powPolar? z w
  match result with
  | none => .error .zeroToNegative
  | some r => if isInfinite r.re || isInfinite r.im then .error .tooLarge else .ok r

end Complex

end Snippet
