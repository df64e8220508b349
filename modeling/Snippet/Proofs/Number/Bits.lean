import Mathlib.Algebra.Ring.Int.Parity
import Snippet.Eval.Operator

/-!
Lengths of integers in bits, and what division and powers make of them.
-/

set_option autoImplicit false

namespace Snippet

theorem bitLength_le_iff {n : Int} {k : Nat} : bitLength n ≤ k ↔ n.natAbs < 2 ^ k := by
  rw [bitLength]
  split
  · rename_i zero
    rw [beq_iff_eq.mp zero]
    exact iff_of_true (Nat.zero_le k) (Nat.two_pow_pos k)
  · rename_i nonzero
    have positive : n.natAbs ≠ 0 := by simpa using nonzero
    rw [Nat.succ_le_iff, Nat.log2_lt positive]

theorem lt_bitLength_two_pow (k : Nat) : k < bitLength (2 ^ k) := by
  refine Nat.lt_of_not_le fun short => ?_
  have small := bitLength_le_iff.mp short
  rw [Int.natAbs_pow] at small
  exact absurd small (Nat.lt_irrefl _)

theorem natAbs_lt_two_pow_bitLength (n : Int) : n.natAbs < 2 ^ bitLength n :=
  bitLength_le_iff.mp (Nat.le_refl _)

theorem bitLength_le_of_natAbs_le {m n : Int} (small : m.natAbs ≤ n.natAbs) :
    bitLength m ≤ bitLength n :=
  bitLength_le_iff.mpr (Nat.lt_of_le_of_lt small (natAbs_lt_two_pow_bitLength n))

@[simp] theorem bitLength_neg (n : Int) : bitLength (-n) = bitLength n := by
  simp [bitLength]

theorem bitLength_bool (b : Bool) : bitLength b.toInt ≤ 1 := by
  cases b <;> decide

theorem bitLength_sub_le {m n : Int} {k : Nat} (left : bitLength m ≤ k) (right : bitLength n ≤ k) :
    bitLength (m - n) ≤ k + 1 := by
  rw [bitLength_le_iff] at left right ⊢
  rw [Nat.pow_succ]
  omega

theorem natAbs_fdiv_le (m n : Int) : (m.fdiv n).natAbs ≤ m.natAbs := by
  rcases m with (_ | m) | m <;> rcases n with (_ | n) | n
  all_goals simp only [Int.fdiv, Int.natAbs_negSucc, Int.natAbs_natCast, Int.ofNat_eq_natCast]
  all_goals first
    | exact Nat.zero_le _
    | exact Nat.div_le_self _ _
    | exact Nat.succ_le_succ (Nat.div_le_self _ _)

theorem bitLength_fdiv_le (m n : Int) : bitLength (m.fdiv n) ≤ bitLength m :=
  bitLength_le_of_natAbs_le (natAbs_fdiv_le m n)

theorem bitLength_pow_le (m : Int) (n : Nat) : bitLength (m ^ n) ≤ max 1 (bitLength m * n) := by
  rw [bitLength_le_iff, Int.natAbs_pow]
  rcases Nat.eq_zero_or_pos n with rfl | positive
  · simp
  · calc m.natAbs ^ n
      _ < (2 ^ bitLength m) ^ n :=
          Nat.pow_lt_pow_left (natAbs_lt_two_pow_bitLength m) (Nat.ne_of_gt positive)
      _ = 2 ^ (bitLength m * n) := (Nat.pow_mul ..).symm
      _ ≤ 2 ^ max 1 (bitLength m * n) := Nat.pow_le_pow_right (by decide) (Nat.le_max_right _ _)

-- Powers of small numbers stay small, however large the exponent.
theorem bitLength_small_pow_le {m : Int} (small : m.natAbs ≤ 1) (n : Nat) :
    bitLength (m ^ n) ≤ 1 := by
  rw [bitLength_le_iff, Int.natAbs_pow]
  have bounded := Nat.pow_le_pow_left small n
  rw [Nat.one_pow] at bounded
  omega

namespace Operator

theorem intPower_eq (m : Int) (n : Nat) : intPower m n = m ^ n := by
  rw [intPower]
  split
  · rename_i one
    rw [beq_iff_eq.mp one, one_pow]
  split
  · rename_i zero
    rw [beq_iff_eq.mp zero]
    split
    · rename_i none
      rw [beq_iff_eq.mp none, pow_zero]
    · rename_i some
      rw [zero_pow (by simpa using some)]
  extract_lets size
  have sized : size = (m.natAbs : Int) ^ n := by
    simp only [size]
    split
    · rename_i minus
      rw [beq_iff_eq.mp minus]
      simp
    · exact_mod_cast rfl
  rw [sized]
  split
  · rename_i odd
    simp only [Bool.and_eq_true, decide_eq_true_eq, beq_iff_eq] at odd
    have swapped : m = -(m.natAbs : Int) := by omega
    conv_rhs => rw [swapped]
    rw [Odd.neg_pow (Nat.odd_iff.mpr odd.2)]
  · rename_i even
    simp only [Bool.and_eq_true, decide_eq_true_eq, beq_iff_eq, not_and] at even
    by_cases negative : m < 0
    · have swapped : m = -(m.natAbs : Int) := by omega
      conv_rhs => rw [swapped]
      rw [Even.neg_pow (Nat.even_iff.mpr (by have := even negative; omega))]
    · rw [show (m.natAbs : Int) = m by omega]

theorem natAbs_lt_of_isOwnRemainder {m n : Int} (own : isOwnRemainder m n = true) :
    m.natAbs < n.natAbs ∧ (m < 0 ↔ n < 0) := by
  simp only [isOwnRemainder, Bool.and_eq_true, Bool.or_eq_true, decide_eq_true_eq, beq_iff_eq,
    decide_eq_decide] at own
  refine ⟨?_, own.2⟩
  apply Classical.byContradiction
  intro large
  have large : n.natAbs ≤ m.natAbs := Nat.le_of_not_lt large
  have digits : digitCount n ≤ digitCount m :=
    Nat.div_le_div_right (Nat.add_le_add_right (bitLength_le_of_natAbs_le large) 29)
  obtain fewer | ⟨⟨level, lower⟩, -⟩ := own.1
  · omega
  · rw [leadingDigit, leadingDigit, level] at lower
    have leading := Nat.div_le_div_right (c := Nat.pow 2 (30 * (digitCount n - 1))) large
    omega

-- A dividend that is handed on is smaller than the divisor and has its sign.
theorem fmod_eq_of_isOwnRemainder {m n : Int} (own : isOwnRemainder m n = true) :
    m.fmod n = m := by
  obtain ⟨small, signs⟩ := natAbs_lt_of_isOwnRemainder own
  rcases m with m | m <;> rcases n with n | n
  · show (m : Int).fmod (n : Int) = m
    rw [Int.fmod_eq_emod_of_nonneg _ (Int.natCast_nonneg n)]
    exact Int.emod_eq_of_lt (Int.natCast_nonneg m) (Int.ofNat_lt.mpr small)
  · simp at signs
    omega
  · simp at signs
    omega
  · exact congrArg (fun k : Nat => -(k : Int)) (Nat.mod_eq_of_lt small)

end Operator

end Snippet
