import Snippet.Expr.Grammar
import Snippet.Proofs.Number.Bits

/-!
The decimal digits of a natural are read as that natural. What few digits are read as is not large.
-/

set_option autoImplicit false

namespace Snippet

theorem toNat_of_isDigit {c : Char} (h : c.isDigit = true) : 48 ≤ c.toNat ∧ c.toNat ≤ 57 := by
  simp only [Char.isDigit, Bool.and_eq_true, decide_eq_true_eq] at h
  exact h

theorem isDigit_of_mem_digitsOf {n : Nat} {c : Char} (h : c ∈ digitsOf n) : c.isDigit = true :=
  Nat.isDigit_of_mem_toDigits (by decide) (by decide) h

theorem isDecimal_of_isDigit {c : Char} (h : c.isDigit = true) : isDecimal c = true := by
  obtain ⟨low, high⟩ := toNat_of_isDigit h
  show (if c.toNat < 0x30 then false else decide (c.toNat ≤ 0x39) || _) = true
  rw [if_neg (by omega), decide_eq_true high, Bool.true_or]

theorem plainChar_of_isDigit {c : Char} (h : c.isDigit = true) : Numeral.plainChar c = c := by
  have := toNat_of_isDigit h
  rw [Numeral.plainChar, if_pos (by omega)]

theorem placeValue?_of_isDigit {c : Char} (h : c.isDigit = true) :
    Numeral.placeValue? c = some (c.toNat - 48) := by
  have digit : ('0' ≤ c && c ≤ '9') = true := h
  rw [Numeral.placeValue?, if_pos digit]

theorem ofDigits_eq {digits : Text} (h : ∀ c ∈ digits, c.isDigit = true) (start : Nat) :
    digits.foldl (fun n c => n * 10 + (Numeral.placeValue? c).getD 0) start
      = Nat.ofDigitChars 10 digits start := by
  induction digits generalizing start with
  | nil => rfl
  | cons c rest ih =>
      have place := placeValue?_of_isDigit (h c (by simp))
      rw [List.foldl_cons, place, ih (fun d member => h d (by simp [member])),
        Nat.ofDigitChars_cons, Nat.mul_comm start]
      rfl

theorem naturalOf?_digitsOf {n : Nat} (short : (digitsOf n).length ≤ maxDecimalDigits) :
    Grammar.naturalOf? (digitsOf n) = some n := by
  have decimal : (digitsOf n).all isDecimal = true :=
    List.all_eq_true.mpr fun c member => isDecimal_of_isDigit (isDigit_of_mem_digitsOf member)
  have plain : Numeral.plain (digitsOf n) = digitsOf n :=
    calc (digitsOf n).map Numeral.plainChar
      _ = (digitsOf n).map id :=
          List.map_congr_left fun c member => plainChar_of_isDigit (isDigit_of_mem_digitsOf member)
      _ = digitsOf n := List.map_id _
  have value : Numeral.ofDigits 10 (digitsOf n) = n := by
    rw [Numeral.ofDigits, ofDigits_eq fun c => isDigit_of_mem_digitsOf]
    exact Nat.ofDigitChars_ten_toDigits
  simp [Grammar.naturalOf?, decimal, plain, value, Nat.not_lt.mpr short]

theorem placeValue?_lt (c : Char) : (Numeral.placeValue? c).getD 0 < 36 := by
  simp only [Numeral.placeValue?, Bool.and_eq_true, decide_eq_true_eq, Char.le_def,
    UInt32.le_iff_toNat_le]
  have at_nine : '9'.val.toNat = 57 := rfl
  have at_z : 'z'.val.toNat = 122 := rfl
  have at_Z : 'Z'.val.toNat = 90 := rfl
  have same : c.val.toNat = c.toNat := rfl
  split
  · simp only [Option.getD_some]
    omega
  · split
    · simp only [Option.getD_some]
      omega
    · split
      · simp only [Option.getD_some]
        omega
      · simp

theorem ofDigits_le (digits : Text) : Numeral.ofDigits 10 digits + 4 ≤ 4 * 10 ^ digits.length := by
  have from_ (start : Nat) :
      digits.foldl (fun n c => n * 10 + (Numeral.placeValue? c).getD 0) start + 4 ≤
        (start + 4) * 10 ^ digits.length := by
    induction digits generalizing start with
    | nil => simp
    | cons c rest ih =>
        have place := placeValue?_lt c
        refine Nat.le_trans (ih _) ?_
        rw [List.length_cons, Nat.pow_succ', ← Nat.mul_assoc]
        have carried : start * 10 + (Numeral.placeValue? c).getD 0 + 4 ≤ (start + 4) * 10 := by omega
        exact Nat.mul_le_mul_right _ carried
  simpa [Numeral.ofDigits] using from_ 0

-- As many bits as a check lets through are far more than the digits that are read may have.
theorem bitLength_le_of_naturalOf? {digits : Text} {n : Nat}
    (read : Grammar.naturalOf? digits = some n) : bitLength n ≤ maxBits := by
  rw [Grammar.naturalOf?] at read
  split at read
  · cases read
  · rename_i few
    simp only [Bool.or_eq_true, decide_eq_true_eq, not_or, Nat.not_lt] at few
    have length : (Numeral.plain digits).length = digits.length := List.length_map _
    have bounded := ofDigits_le (Numeral.plain digits)
    rw [Option.some.inj read, length] at bounded
    rw [bitLength_le_iff, Int.natAbs_natCast]
    calc n
      _ < 4 * 10 ^ digits.length := by omega
      _ ≤ 2 ^ 2 * (2 ^ 4) ^ digits.length :=
          Nat.mul_le_mul (by decide) (Nat.pow_le_pow_left (by decide) _)
      _ = 2 ^ (2 + 4 * digits.length) := by rw [← Nat.pow_mul, ← Nat.pow_add]
      _ ≤ 2 ^ maxBits := Nat.pow_le_pow_right (by decide) (by
          rw [maxDecimalDigits] at few
          rw [maxBits]
          omega)

theorem digitsOf_ne_nil (n : Nat) : digitsOf n ≠ [] :=
  Nat.toDigits_ne_nil

-- Only zero starts with a zero.
theorem head?_digitsOf {n : Nat} (positive : 0 < n) : (digitsOf n).head? ≠ some '0' := by
  induction n using Nat.strongRecOn with
  | ind n ih =>
      rw [digitsOf, Nat.toDigits_eq_if (by decide)]
      split
      · rename_i single
        intro zero
        have same : n.digitChar = '0' := by simpa using zero
        have := Nat.toNat_digitChar_of_lt_ten single
        rw [same] at this
        simp only [Char.reduceToNat] at this
        omega
      · rename_i more
        have shown := ih (n / 10) (by omega) (by omega)
        obtain ⟨c, rest, digits⟩ := List.exists_cons_of_ne_nil (digitsOf_ne_nil (n / 10))
        rw [digits] at shown
        rw [← digitsOf, digits]
        exact shown

theorem hasLeadingZeros_digitsOf (n : Nat) : Token.hasLeadingZeros (digitsOf n) = false := by
  by_cases zero : n = 0
  · rw [zero]
    rfl
  · have shown := head?_digitsOf (Nat.pos_of_ne_zero zero)
    unfold Token.hasLeadingZeros
    split
    · rename_i rest digits
      rw [digits] at shown
      exact absurd rfl shown
    · rfl

end Snippet
