import Snippet.Proofs.Eval.Evaluated

/-!
Integers and the operators. What an operator gives for two integers, if it is an integer, is exact:
the sum, the difference, the product, the quotient rounded down, what this leaves, or the power.
-/

set_option autoImplicit false

namespace Snippet

open Eval (Yields)

variable {s s' : Store} {a b v : Value} {m n : Int}

/-- The integer that an operator stands for; a quotient and a power with a negative exponent are
none. -/
def BinaryOp.exact : BinaryOp → Int → Int → Option Int
  | .add, m, n => some (m + n)
  | .sub, m, n => some (m - n)
  | .mul, m, n => some (m * n)
  | .div, _, _ => none
  | .floorDiv, m, n => if n = 0 then none else some (m.fdiv n)
  | .mod, m, n => if n = 0 then none else some (m.fmod n)
  | .pow, m, n => if n < 0 then none else some (m ^ n.toNat)

/-- An integer, if a value is one, is the exact one. -/
def Value.IsExact (exact : Option Int) (v : Value) : Prop :=
  ∀ tag r, v = .int tag r → exact = some r

namespace Value

theorem yields_ofInt {exact : Option Int} {r : Int} (same : exact = some r) :
    Yields (ofInt r) (IsExact exact) := by
  have given (tag : Tag) : IsExact exact (.int tag r) := by
    rintro _ _ ⟨⟩
    exact same
  unfold ofInt
  split
  · exact Yields.pure (given _)
  · exact Yields.bind_any fun tag => Yields.pure (given tag)

theorem yields_ofFloat {exact : Option Int} (x : Float) : Yields (ofFloat x) (IsExact exact) :=
  Yields.bind_any fun _ => Yields.pure nofun

theorem yields_ofComplex {exact : Option Int} (z : Complex) :
    Yields (ofComplex z) (IsExact exact) :=
  Yields.bind_any fun _ => Yields.pure nofun

theorem yields_checked {P : Value → Prop} (h : P v) :
    Yields v.checked fun v => P v ∧ ∀ tag r, v = .int tag r → bitLength r ≤ maxBits := by
  intro s u s' ran
  obtain ⟨c, refused⟩ | ⟨passed, small, -⟩ := v.checked_apply s
  · rw [refused] at ran
    cases ran
  · rw [passed] at ran
    cases ran
    exact ⟨h, small⟩

theorem text?_of_int? (whole : v.int? = some n) : v.text? = Option.none := by
  cases v <;> first | rfl | cases whole

end Value

theorem Numeric.ofValue?_of_int? (whole : v.int? = some n) :
    Numeric.ofValue? v = some (.int n) := by
  cases v <;> cases whole <;> rfl

namespace Operator

theorem pairOf_of_int? (left : a.int? = some m) (right : b.int? = some n) :
    pairOf a b = .ok (.ints m n) := by
  rw [pairOf, Numeric.ofValue?_of_int? left, Numeric.ofValue?_of_int? right]

theorem realPairOf_of_int? (left : a.int? = some m) (right : b.int? = some n) :
    realPairOf a b = .ok (.ints m n) := by
  have pair := pairOf_of_int? left right
  simpa [realPairOf, Numeric.ofValue?_of_int? left, Numeric.ofValue?_of_int? right,
    Numeric.isComplex] using pair

-- Integers are neither repeated nor joined.
theorem addPlain_of_int? (left : a.int? = some m) (right : b.int? = some n) :
    addPlain a b = addNumbers a b := by
  cases a <;> cases left <;> cases b <;> cases right <;> rfl

theorem mulPlain_of_int? (left : a.int? = some m) (right : b.int? = some n) :
    mulPlain a b = mulNumbers a b := by
  cases a <;> cases left <;> cases b <;> cases right <;> rfl

variable (left : a.int? = some m) (right : b.int? = some n)
include left right

theorem yields_addNumbers : Yields (addNumbers a b) (Value.IsExact (some (m + n))) := by
  rw [addNumbers, pairOf_of_int? left right]
  exact Value.yields_ofInt rfl

theorem yields_sub : Yields (sub a b) (Value.IsExact (some (m - n))) := by
  rw [sub, pairOf_of_int? left right]
  exact Value.yields_ofInt rfl

theorem yields_mulNumbers : Yields (mulNumbers a b) (Value.IsExact (some (m * n))) := by
  rw [mulNumbers, pairOf_of_int? left right]
  exact Value.yields_ofInt rfl

theorem yields_div : Yields (div a b) (Value.IsExact none) := by
  rw [div, pairOf_of_int? left right]
  show Yields (if n == 0 then _ else _) _
  split
  · exact Yields.throw _
  · exact Yields.bind_any fun x => Value.yields_ofFloat x

theorem yields_floorDiv :
    Yields (floorDiv a b) (Value.IsExact (if n = 0 then none else some (m.fdiv n))) := by
  rw [floorDiv, realPairOf_of_int? left right]
  show Yields (if n == 0 then _ else _) _
  split
  · exact Yields.throw _
  · rename_i nonzero
    exact Value.yields_ofInt (if_neg (by simpa using nonzero))

theorem yields_modNumbers :
    Yields (modNumbers a b) (Value.IsExact (if n = 0 then none else some (m.fmod n))) := by
  rw [modNumbers, realPairOf_of_int? left right]
  show Yields (if n == 0 then _ else _) _
  split
  · exact Yields.throw _
  · rename_i nonzero
    have nonzero : ¬ n = 0 := by simpa using nonzero
    rw [if_neg nonzero]
    split
    · rename_i own
      cases left
      refine Yields.pure ?_
      rintro _ _ ⟨⟩
      rw [fmod_eq_of_isOwnRemainder own]
    · exact Value.yields_ofInt rfl

omit left right in
theorem yields_floatPower {exact : Option Int} (x y : Float) :
    Yields (floatPower x y) (Value.IsExact exact) := by
  rw [floatPower]
  dsimp only
  split
  · exact Value.yields_ofFloat _
  · split <;> exact Yields.throw _
  · split
    · exact Value.yields_ofComplex _
    · split <;> exact Yields.throw _

theorem yields_powNumbers :
    Yields (powNumbers a b) (Value.IsExact (if n < 0 then none else some (m ^ n.toNat))) := by
  rw [powNumbers, pairOf_of_int? left right]
  show Yields (if n ≥ 0 then _ else _) _
  split
  · rename_i positive
    refine Value.yields_ofInt ?_
    rw [if_neg (Int.not_lt.mpr positive), intPower_eq]
  · exact Yields.bind_any fun x => Yields.bind_any fun y => yields_floatPower x y

omit left right in
theorem yields_checked_of {m : Eval Value} {P : Value → Prop} (h : Yields m P) :
    Yields (m >>= Value.checked)
      fun v => P v ∧ ∀ tag r, v = .int tag r → bitLength r ≤ maxBits :=
  h.bind fun _ => Value.yields_checked

theorem yields_add : Yields (add a b) fun v => v.IsExact (some (m + n)) ∧
    ∀ tag r, v = .int tag r → bitLength r ≤ maxBits := by
  rw [add, addPlain_of_int? left right]
  exact yields_checked_of (yields_addNumbers left right)

theorem yields_mul : Yields (mul a b) fun v => v.IsExact (some (m * n)) ∧
    ∀ tag r, v = .int tag r → bitLength r ≤ maxBits := by
  rw [mul, mulPlain_of_int? left right]
  exact Yields.bind_any fun _ => yields_checked_of (yields_mulNumbers left right)

theorem yields_mod : Yields (mod a b) fun v =>
    v.IsExact (if n = 0 then none else some (m.fmod n)) ∧
      ∀ tag r, v = .int tag r → bitLength r ≤ maxBits := by
  rw [mod, Value.text?_of_int? left]
  exact Yields.bind_any fun _ => yields_checked_of (yields_modNumbers left right)

theorem yields_pow :
    Yields (pow a b) (Value.IsExact (if n < 0 then none else some (m ^ n.toNat))) := by
  rw [pow, left, right]
  dsimp only
  split
  · exact Yields.throw _
  · exact yields_powNumbers left right

omit left right in
theorem within_of_int? {w : Limits} (whole : a.int? = some m) (small : bitLength m ≤ maxBits) :
    a.Within w := by
  cases a with
  | int tag r =>
      cases whole
      exact .int tag (small.trans w.bits_ge)
  | bool b => exact .bool b
  | _ => cases whole

omit left right in
theorem yields_of_fits {w : Limits} {x : Eval Value} {exact : Option Int} {bits : Nat}
    (same : Yields x (Value.IsExact exact)) (fits : Eval.Fits w x) (few : w.bits = bits) :
    Yields x fun v => v.IsExact exact ∧ ∀ tag r, v = .int tag r → bitLength r ≤ bits := by
  refine fun s v s' ran => ⟨same s v s' ran, ?_⟩
  rintro tag r rfl
  exact few ▸ (fits s _ s' ran).of_int? rfl

/-- What an operator gives for two integers is exact; it keeps to the cap on their bits, but for a
difference, which may have one more. -/
theorem yields_binary (op : BinaryOp) (few : bitLength m ≤ maxBits) (few' : bitLength n ≤ maxBits) :
    Yields (binary op a b) fun v => v.IsExact (op.exact m n) ∧
      ∀ tag r, v = .int tag r → bitLength r ≤ maxBits + if op = .sub then 1 else 0 := by
  let w := Limits.initial maxLength (Nat.le_refl _) ∅
  have of_a : a.Within w := within_of_int? left few
  have of_b : b.Within w := within_of_int? right few'
  cases op with
  | add => exact yields_add left right
  | sub => exact yields_of_fits (yields_sub left right) (fits_sub of_a of_b) rfl
  | mul => exact yields_mul left right
  | div => exact yields_of_fits (yields_div left right) (fits_div (w := w) a b) rfl
  | floorDiv => exact yields_of_fits (yields_floorDiv left right) (fits_floorDiv of_a) rfl
  | mod => exact yields_mod left right
  | pow => exact yields_of_fits (yields_pow left right) (fits_pow (w := w) a b) rfl

omit right in
theorem yields_negate : Yields (unary .minus a) (Value.IsExact (some (-m))) := by
  show Yields (negate a) _
  rw [negate, Numeric.ofValue?_of_int? left]
  exact Value.yields_ofInt rfl

end Operator

end Snippet
