import Mathlib.Data.List.Chain
import Snippet.Line.Classify
import Snippet.Proofs.Token.Lexeme

/-!
Characters of words and characters of names. The two are close: four characters of names belong to
no word, and a word may hold number characters and letters that belong to no name. What is said of
a class of characters is checked on its ranges.
-/

set_option autoImplicit false

namespace Snippet

namespace Ranges

/-- Every range lies within one of others. -/
def within (inner outer : Ranges) : Bool :=
  inner.all fun r => outer.any fun s => s.1.ble r.1 && r.2.ble s.2

/-- No range meets one of others; both rise. -/
def apart : Ranges → Ranges → Bool
  | [], _ => true
  | r :: rest, others =>
      let later := others.dropWhile fun s => s.2.blt r.1
      later.head?.all (fun s => r.2.blt s.1) && apart rest later

/-- The starts rise. -/
def Rising (ranges : Ranges) : Prop :=
  ranges.IsChain fun r s => r.1 < s.1

instance (ranges : Ranges) : Decidable ranges.Rising :=
  inferInstanceAs (Decidable (ranges.IsChain _))

theorem Rising.pairwise {ranges : Ranges} (rising : ranges.Rising) :
    ranges.Pairwise fun r s => r.1 < s.1 := by
  have : IsTrans (Nat × Nat) fun r s => r.1 < s.1 := ⟨fun _ _ _ => Nat.lt_trans⟩
  exact List.isChain_iff_pairwise.mp rising

theorem exists_of_hasCode {ranges : Ranges} {n : Nat} (h : ranges.hasCode n = true) :
    ∃ r ∈ ranges, r.1 ≤ n ∧ n ≤ r.2 := by
  induction ranges with
  | nil => contradiction
  | cons first rest ih =>
      simp only [hasCode] at h
      split at h
      · contradiction
      · rename_i started
        rw [Bool.or_eq_true, decide_eq_true_eq] at h
        obtain here | later := h
        · exact ⟨first, List.mem_cons_self, Nat.le_of_not_lt started, here⟩
        · obtain ⟨r, member, inside⟩ := ih later
          exact ⟨r, List.mem_cons_of_mem _ member, inside⟩

theorem hasCode_of_mem {ranges : Ranges} {r : Nat × Nat} {n : Nat} (rising : ranges.Rising)
    (member : r ∈ ranges) (from_start : r.1 ≤ n) (to_end : n ≤ r.2) : ranges.hasCode n = true := by
  have order := rising.pairwise
  clear rising
  induction ranges with
  | nil => contradiction
  | cons first rest ih =>
      rw [List.pairwise_cons] at order
      obtain rfl | later := List.mem_cons.mp member
      · simp [hasCode, Nat.not_lt.mpr from_start, to_end]
      · have started : ¬ n < first.1 := by
          have := order.1 r later
          omega
        simp [hasCode, started, ih later order.2]

theorem has_of_within {inner outer : Ranges} {c : Char} (rising : outer.Rising)
    (inside : inner.within outer = true) (h : inner.has c = true) : outer.has c = true := by
  obtain ⟨r, member, from_start, to_end⟩ := exists_of_hasCode h
  obtain ⟨s, listed, around⟩ := List.any_eq_true.mp (List.all_eq_true.mp inside r member)
  simp only [Bool.and_eq_true, Nat.ble_eq] at around
  exact hasCode_of_mem rising listed (around.1.trans from_start) (to_end.trans around.2)

theorem apart_of_mem {ranges others : Ranges} (rising : ranges.Rising)
    (others_rising : others.Rising) (h : ranges.apart others = true) :
    ∀ r ∈ ranges, ∀ s ∈ others, s.2 < r.1 ∨ r.2 < s.1 := by
  induction ranges generalizing others with
  | nil => exact nofun
  | cons first rest ih =>
      simp only [apart, Bool.and_eq_true] at h
      obtain ⟨next, behind⟩ := h
      -- The ranges skipped lie below the first one; the next lies above it, and so do all behind
      -- that.
      have split := List.takeWhile_append_dropWhile (p := fun s => s.2.blt first.1) (l := others)
      generalize others.dropWhile (fun s => s.2.blt first.1) = later at *
      have before : ∀ s ∈ others.takeWhile fun s => s.2.blt first.1, s.2 < first.1 := by
        intro s member
        simpa using List.all_eq_true.mp List.all_takeWhile s member
      have later_rising : Rising later := by
        rw [← split] at others_rising
        exact others_rising.right_of_append
      intro r member s listed
      rw [← split, List.mem_append] at listed
      obtain rfl | more := List.mem_cons.mp member
      · obtain passed | listed := listed
        · exact .inl (before s passed)
        · cases later with
          | nil => contradiction
          | cons start behind =>
              have far : r.2 < start.1 := by simpa using next
              obtain rfl | higher := List.mem_cons.mp listed
              · exact .inr far
              · exact .inr (far.trans ((List.pairwise_cons.mp later_rising.pairwise).1 s higher))
      · obtain passed | listed := listed
        · have higher := (List.pairwise_cons.mp rising.pairwise).1 r more
          exact .inl ((before s passed).trans higher)
        · exact ih rising.tail later_rising behind r more s listed

theorem not_has_of_apart {ranges others : Ranges} {c : Char} (rising : ranges.Rising)
    (others_rising : others.Rising) (separate : ranges.apart others = true)
    (h : ranges.has c = true) : others.has c = false := by
  rw [Bool.eq_false_iff]
  intro also
  obtain ⟨r, member, from_start, to_end⟩ := exists_of_hasCode h
  obtain ⟨s, listed, start, stop⟩ := exists_of_hasCode also
  have far := apart_of_mem rising others_rising separate r member s listed
  omega

end Ranges

open Token (isNameRest isPlain isQuote)

/-- Characters of names that belong to no word. -/
def wordlessRanges : Ranges :=
  [(0x1885, 0x1886), (0x2118, 0x2118), (0x212E, 0x212E)]

theorem tables_rising :
    letterRanges.Rising ∧ numberRanges.Rising ∧ decimalRanges.Rising ∧ digitFormRanges.Rising
      ∧ nameStartExtras.Rising := by
  decide +kernel

theorem tables_apart :
    wordlessRanges.apart letterRanges ∧ wordlessRanges.apart numberRanges
      ∧ letterRanges.apart blankRanges ∧ numberRanges.apart blankRanges
      ∧ letterRanges.apart decimalRanges ∧ letterRanges.apart digitFormRanges
      ∧ nameStartExtras.apart decimalRanges ∧ nameStartExtras.apart digitFormRanges := by
  decide +kernel

-- The starts of names that are no letters are the underscore, numbers, and those without a word.
theorem tables_within :
    decimalRanges.within numberRanges ∧ digitFormRanges.within numberRanges
      ∧ nameStartExtras.all fun r => r == (0x5F, 0x5F) || wordlessRanges.contains r
        || Ranges.within [r] numberRanges := by
  decide

theorem letterRanges_rising : letterRanges.Rising :=
  tables_rising.1

theorem numberRanges_rising : numberRanges.Rising :=
  tables_rising.2.1

theorem isWordChar_of_isDecimal {c : Char} (h : isDecimal c = true) : isWordChar c = true := by
  rw [isWordChar, Ranges.has_of_within numberRanges_rising tables_within.1 h, Bool.or_true]

theorem isWordChar_of_isDigit {c : Char} (h : isDigit c = true) : isWordChar c = true := by
  obtain ⟨-, inside, -⟩ := tables_within
  rw [isDigit, Bool.or_eq_true] at h
  obtain decimal | form := h
  · exact isWordChar_of_isDecimal decimal
  · rw [isWordChar, Ranges.has_of_within numberRanges_rising inside form, Bool.or_true]

theorem isWordChar_or_wordless_of_isNameStart {c : Char} (h : isNameStart c = true) :
    isWordChar c = true ∨ wordlessRanges.has c = true := by
  rw [isNameStart, Bool.or_eq_true, Bool.and_eq_true] at h
  obtain extra | letter := h
  · obtain ⟨r, member, from_start, to_end⟩ := Ranges.exists_of_hasCode extra
    have kind := List.all_eq_true.mp tables_within.2.2 r member
    simp only [Bool.or_eq_true, beq_iff_eq, List.contains_iff_mem] at kind
    obtain (rfl | wordless) | number := kind
    · have same : c = '_' := Char.toNat_inj.mp (Nat.le_antisymm to_end from_start)
      exact .inl (by rw [isWordChar, same]; rfl)
    · exact .inr (Ranges.hasCode_of_mem (by decide) wordless from_start to_end)
    · have within_self : Ranges.has [r] c = true :=
        Ranges.hasCode_of_mem (by simp [Ranges.Rising]) (List.mem_singleton_self r) from_start to_end
      exact .inl (by rw [isWordChar, Ranges.has_of_within numberRanges_rising number within_self,
        Bool.or_true])
  · exact .inl (by rw [isWordChar, letter.1, Bool.or_true, Bool.true_or])

theorem not_isWordChar_of_wordless {c : Char} (h : wordlessRanges.has c = true) :
    isWordChar c = false := by
  have rising : wordlessRanges.Rising := by decide
  obtain ⟨from_letters, from_numbers, -⟩ := tables_apart
  have no_letter := Ranges.not_has_of_apart rising letterRanges_rising from_letters h
  have no_number := Ranges.not_has_of_apart rising numberRanges_rising from_numbers h
  have no_underscore : (c == '_') = false := by
    apply beq_false_of_ne
    rintro rfl
    exact absurd h (by decide)
  rw [isWordChar, no_letter, no_number, no_underscore]
  rfl

/-- Among the characters of names, those of words are all but four. -/
theorem isWordChar_of_isNameRest {c : Char} (h : isNameRest c = true) :
    isWordChar c = !wordlessRanges.has c := by
  cases wordless : wordlessRanges.has c with
  | true => exact not_isWordChar_of_wordless wordless
  | false =>
      rw [isNameRest, Bool.or_eq_true] at h
      obtain start | digit := h
      · exact (isWordChar_or_wordless_of_isNameStart start).resolve_right (by simp [wordless])
      · exact isWordChar_of_isDigit digit

theorem not_isDigit_of_isNameStart {c : Char} (h : isNameStart c = true) : isDigit c = false := by
  obtain ⟨-, -, decimals_rising, forms_rising, extras_rising⟩ := tables_rising
  obtain ⟨-, -, -, -, decimals, forms, extra_decimals, extra_forms⟩ := tables_apart
  rw [isNameStart, Bool.or_eq_true, Bool.and_eq_true] at h
  rw [isDigit, Bool.or_eq_false_iff]
  obtain extra | ⟨letter, -⟩ := h
  · exact ⟨Ranges.not_has_of_apart extras_rising decimals_rising extra_decimals extra,
      Ranges.not_has_of_apart extras_rising forms_rising extra_forms extra⟩
  · exact ⟨Ranges.not_has_of_apart letterRanges_rising decimals_rising decimals letter,
      Ranges.not_has_of_apart letterRanges_rising forms_rising forms letter⟩

theorem not_isBlank_of_isWordChar {c : Char} (h : isWordChar c = true) : isBlank c = false := by
  have rising : blankRanges.Rising := by decide
  obtain ⟨-, -, letters, numbers, -⟩ := tables_apart
  rw [isWordChar, Bool.or_eq_true, Bool.or_eq_true, beq_iff_eq] at h
  obtain (rfl | letter) | number := h
  · decide
  · exact Ranges.not_has_of_apart letterRanges_rising rising letters letter
  · exact Ranges.not_has_of_apart numberRanges_rising rising numbers number

-- Quotes, brackets and other signs are in no word.
theorem ne_of_isWordChar {c d : Char} (h : isWordChar c = true) (sign : isWordChar d = false) :
    c ≠ d := by
  rintro rfl
  rw [h] at sign
  contradiction

theorem isPlain_of_isWordChar {c : Char} (h : isWordChar c = true) : isPlain c = true := by
  have not_double := ne_of_isWordChar (d := '"') h (by decide)
  have not_single := ne_of_isWordChar (d := '\'') h (by decide)
  have not_comment := ne_of_isWordChar (d := '#') h (by decide)
  simp [isPlain, isQuote, not_double, not_single, not_comment]

end Snippet
