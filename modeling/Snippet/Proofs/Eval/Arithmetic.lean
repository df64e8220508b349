import Snippet.Proofs.Eval.Keeping
import Snippet.Proofs.Number.Bits

/-!
What the operators give within the limits. A difference takes one bit more than its operands, as
nothing checks it; the other operators give what their operands are within, or are checked.
-/

set_option autoImplicit false

namespace Snippet

variable {α : Type} {w : Limits} {s s' : Store} {a b v : Value}

theorem Value.Within.of_int? (within : v.Within w) {n : Int} (whole : v.int? = some n) :
    bitLength n ≤ w.bits := by
  cases within with
  | int tag fits => cases whole; exact fits
  | bool b =>
      cases whole
      exact (bitLength_bool b).trans (Nat.le_trans (by decide) w.bits_ge)
  | _ => cases whole

theorem Value.Within.of_text? (within : v.Within w) {t : Text} (shown : v.text? = some t) :
    t.length ≤ w.chars := by
  cases within with
  | text tag fits | raw tag fits => cases shown; exact fits
  | _ => cases shown

namespace Eval

/-- Gives values that are within the limits. -/
def Fits (w : Limits) (m : Eval Value) : Prop :=
  Yields m fun v => v.Within w

variable {m : Eval α} {next : α → Eval Value}

@[grind ←]
theorem fits_pure (h : v.Within w) : Fits w (pure v) :=
  Yields.pure h

@[grind ←]
theorem fits_bind (then_ : ∀ a, Fits w (next a)) : Fits w (m >>= next) :=
  Yields.bind_any then_

@[grind ←]
theorem fits_fail (c : Cause) : Fits w (fail c) :=
  Yields.throw _

@[grind ←]
theorem fits_breach (b : Breach) : Fits w (breach b) :=
  Yields.throw _

theorem fits_lift_bind {r : Except Breach α} (then_ : ∀ a, r = .ok a → Fits w (next a)) :
    Fits w (lift r >>= next) :=
  (Yields.lift fun _ done => done).bind then_

end Eval

open Eval (Fits Yields)

namespace Value

attribute [local grind ←] Within.none Within.bool Within.int Within.float Within.complex Within.text

@[grind ←]
theorem fits_ofInt {n : Int} (fits : bitLength n ≤ w.bits) : Fits w (ofInt n) := by
  grind [ofInt]

@[grind ←]
theorem fits_ofFloat (x : Float) : Fits w (ofFloat x) := by
  grind [ofFloat]

@[grind ←]
theorem fits_ofComplex (z : Complex) : Fits w (ofComplex z) := by
  grind [ofComplex]

@[grind ←]
theorem fits_ofText {t : Text} (fits : t.length ≤ w.chars) : Fits w (ofText t) := by
  grind [ofText]

@[grind ←]
theorem fits_ofNewText {t : Text} (fits : t.length ≤ w.chars) : Fits w (ofNewText t) := by
  grind [ofNewText]

@[grind ←]
theorem fits_exactText {t : Text} (within : v.Within w) (fits : t.length ≤ w.chars) :
    Fits w (exactText v t) := by
  unfold exactText
  split <;> grind

end Value

theorem Numeric.int?_of_int {n : Int} (number : Numeric.ofValue? v = some (.int n)) :
    v.int? = some n := by
  cases v <;> cases number <;> rfl

namespace Operator

theorem pairOf_ints {m n : Int} (paired : pairOf a b = .ok (.ints m n)) :
    a.int? = some m ∧ b.int? = some n := by
  rw [pairOf] at paired
  split at paired
  · rename_i left right
    cases paired
    exact ⟨Numeric.int?_of_int left, Numeric.int?_of_int right⟩
  · split at paired
    · obtain ⟨z, -, paired⟩ := bind_eq_ok.mp paired
      obtain ⟨y, -, paired⟩ := bind_eq_ok.mp paired
      cases paired
    · obtain ⟨z, -, paired⟩ := bind_eq_ok.mp paired
      obtain ⟨y, -, paired⟩ := bind_eq_ok.mp paired
      cases paired
  · cases paired

theorem realPairOf_ints {m n : Int} (paired : realPairOf a b = .ok (.ints m n)) :
    a.int? = some m ∧ b.int? = some n := by
  rw [realPairOf] at paired
  dsimp only at paired
  split at paired
  · cases paired
  · exact pairOf_ints paired

theorem fits_sub (of_a : a.Within w) (of_b : b.Within w) : Fits (w.widened 1) (sub a b) := by
  refine Eval.fits_lift_bind fun pair paired => ?_
  cases pair with
  | ints m n =>
      obtain ⟨left, right⟩ := pairOf_ints paired
      exact Value.fits_ofInt (bitLength_sub_le (of_a.of_int? left) (of_b.of_int? right))
  | floats x y => exact Value.fits_ofFloat _
  | complexes z y => exact Value.fits_ofComplex _

theorem fits_div (a b : Value) : Fits w (div a b) := by
  grind [div]

theorem fits_floorDiv (of_a : a.Within w) : Fits w (floorDiv a b) := by
  refine Eval.fits_lift_bind fun pair paired => ?_
  cases pair with
  | ints m n =>
      have fits := (bitLength_fdiv_le m n).trans (of_a.of_int? (realPairOf_ints paired).1)
      dsimp only
      split
      · exact Eval.fits_breach _
      · exact Value.fits_ofInt fits
  | floats x y => grind
  | complexes z y => grind

theorem fits_floatPower (x y : Float) : Fits w (floatPower x y) := by
  grind [floatPower]

-- A power that passes the check before it is built has at most as many bits as the check allows.
theorem bitLength_intPower_le {m n : Int} (positive : n ≥ 0)
    (small : ¬(n > 0 && m.natAbs > 1 && (bitLength m : Int) * n > maxBits)) :
    bitLength (intPower m n.toNat) ≤ maxBits := by
  have one : 1 ≤ maxBits := by decide
  obtain ⟨k, rfl⟩ := Int.eq_ofNat_of_zero_le positive
  rw [intPower_eq, Int.toNat_natCast]
  by_cases grows : m.natAbs > 1
  · have bounded := bitLength_pow_le m k
    rcases Nat.eq_zero_or_pos k with rfl | more
    · exact bounded.trans (by simp [one])
    · simp only [Bool.and_eq_true, decide_eq_true_eq, not_and, gt_iff_lt, Int.not_lt] at small
      have product : bitLength m * k ≤ maxBits := by
        exact_mod_cast small ⟨Int.natCast_pos.mpr more, grows⟩
      omega
  · exact (bitLength_small_pow_le (Nat.le_of_not_gt grows) k).trans one

theorem fits_powNumbers (large : ∀ m n : Int, a.int? = some m → b.int? = some n → n ≥ 0 →
    bitLength (intPower m n.toNat) ≤ maxBits) : Fits w (powNumbers a b) := by
  refine Eval.fits_lift_bind fun pair paired => ?_
  cases pair with
  | ints m n =>
      obtain ⟨left, right⟩ := pairOf_ints paired
      dsimp only
      split
      · rename_i positive
        exact Value.fits_ofInt ((large m n left right positive).trans w.bits_ge)
      · exact Yields.bind_any fun x => Yields.bind_any fun y => fits_floatPower x y
  | floats x y => exact fits_floatPower x y
  | complexes z y => grind

theorem fits_pow (a b : Value) : Fits w (pow a b) := by
  rw [pow]
  split
  · rename_i m n left right
    split
    · exact Eval.fits_fail _
    · rename_i small
      refine fits_powNumbers fun m' n' of_a of_b positive => ?_
      rw [left] at of_a
      rw [right] at of_b
      cases of_a
      cases of_b
      exact bitLength_intPower_le positive small
  · rename_i other
    exact fits_powNumbers fun m n of_a of_b _ => absurd of_b (other m n of_a)

theorem fits_unary (op : UnaryOp) (of_v : v.Within w) : Fits w (unary op v) := by
  cases op with
  | not => exact Yields.bind_any fun s => Eval.fits_pure (.bool _)
  | minus =>
      show Fits w (negate v)
      rw [negate]
      split
      · rename_i n number
        refine Value.fits_ofInt ?_
        rw [bitLength_neg]
        exact of_v.of_int? (Numeric.int?_of_int number)
      · exact Value.fits_ofFloat _
      · exact Value.fits_ofComplex _
      · exact Eval.fits_breach _
  | plus =>
      cases v with
      | bool b => exact Value.fits_ofInt (of_v.of_int? rfl)
      | int | float | complex => exact Eval.fits_pure of_v
      | _ => exact Eval.fits_breach _

end Operator

end Snippet
