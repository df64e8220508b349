import Mathlib.Data.List.DropRight
import Snippet.Proofs.Text.NormalForm

/-!
What the normal form of a text tells of it: its trimmed lines without the empty ones at both ends,
and nothing else.
-/

set_option autoImplicit false

namespace Snippet.Text

/-- The lines of a text, each of which ends at a carriage return, at a line feed, or at one behind
the other. -/
def breakLines : Text → List Text
  | [] => [[]]
  | '\r' :: '\n' :: rest => [] :: breakLines rest
  | '\r' :: rest => [] :: breakLines rest
  | '\n' :: rest => [] :: breakLines rest
  | c :: rest => (breakLines rest).modifyHead (c :: ·)

/-- Lists of lines without the empty ones at both ends. -/
def dropEmptyEnds (ls : List Text) : List Text :=
  (ls.dropWhile List.isEmpty).rdropWhile List.isEmpty

/-- What a text shows: its trimmed lines without the empty ones at both ends. -/
def shownLines (t : Text) : List Text :=
  dropEmptyEnds ((breakLines t).map trim)

theorem breakLines_eq (t : Text) : breakLines t = lines (unifyBreaks t) := by
  fun_induction breakLines t with
  | case1 => simp [unifyBreaks]
  | case2 rest ih => simp [unifyBreaks, ih]
  | case3 rest single ih => simp [unifyBreaks.eq_3 _ single, ih]
  | case4 rest ih => simp [unifyBreaks, ih]
  | case5 c rest _ no_return no_feed ih =>
      rw [unifyBreaks_cons _ no_return, lines_cons _ no_feed, ih]

theorem dropEmptyEnds_replicate_append (count : Nat) (ls : List Text) :
    dropEmptyEnds (List.replicate count [] ++ ls) = dropEmptyEnds ls := by
  induction count with
  | zero => rfl
  | succ count ih => exact ih

theorem dropEmptyEnds_append_replicate {ls : List Text} (some_line : ls ≠ [])
    (first : ∀ line ∈ ls.head?, line ≠ []) (last : ∀ line ∈ ls.getLast?, line ≠ [])
    (count : Nat) : dropEmptyEnds (ls ++ List.replicate count []) = ls := by
  have kept (count : Nat) : (ls ++ List.replicate count []).dropWhile List.isEmpty
      = ls ++ List.replicate count [] := by
    obtain ⟨line, rest, rfl⟩ := List.exists_cons_of_ne_nil some_line
    have shown := first line rfl
    exact List.dropWhile_cons_of_neg (by simpa using shown)
  rw [dropEmptyEnds, kept]
  induction count with
  | zero =>
      rw [List.replicate_zero, List.append_nil, List.rdropWhile_eq_self_iff]
      intro nonempty
      simpa using last _ (List.getLast?_eq_some_getLast nonempty)
  | succ count ih =>
      rwa [List.replicate_succ', ← List.append_assoc, List.rdropWhile_concat_pos _ _ _ rfl]

-- The trimmed lines of a text are those of its normal form, with empty ones around.
theorem map_trim_breakLines {t : Text} (shown : trim t ≠ []) : ∃ before behind,
    (breakLines t).map trim
      = List.replicate before [] ++ (normalLines t ++ List.replicate behind []) := by
  obtain ⟨front, back, whole, blank_front, blank_back⟩ := exists_blanks_around t
  refine ⟨List.count '\n' (unifyBreaks front), List.count '\n' (unifyBreaks back), ?_⟩
  rw [breakLines_eq, unifyBreaks_around_trim shown whole,
    map_trim_blank_append _ (all_isBlank_unifyBreaks blank_front),
    map_trim_append_blank _ (all_isBlank_unifyBreaks blank_back), normalLines]

theorem shownLines_of_shown {t : Text} (shown : trim t ≠ []) : shownLines t = normalLines t := by
  obtain ⟨before, behind, split⟩ := map_trim_breakLines shown
  rw [shownLines, split, dropEmptyEnds_replicate_append]
  exact dropEmptyEnds_append_replicate (normalLines_ne_nil t) (head?_normalLines shown)
    (getLast?_normalLines shown) behind

theorem shownLines_of_blank {t : Text} (gone : trim t = []) : shownLines t = [] := by
  have blank := all_isBlank_unifyBreaks (trim_eq_nil.mp gone)
  have split := map_trim_append_blank [] blank
  rw [List.nil_append, lines_nil, List.map_singleton, trim_nil, List.singleton_append,
    ← List.replicate_succ] at split
  have dropped := dropEmptyEnds_replicate_append (List.count '\n' (unifyBreaks t) + 1) []
  rw [shownLines, breakLines_eq, split, ← List.append_nil (List.replicate _ _), dropped]
  rfl

-- The lines that a text shows are what its normal form is put together from.
theorem normalForm_eq_join (t : Text) : normalForm t = join ['\n'] (shownLines t) := by
  by_cases gone : trim t = []
  · rw [shownLines_of_blank gone, normalForm, gone]
    rfl
  · rw [shownLines_of_shown gone]
    rfl

theorem normalForm_of_blank {t : Text} (gone : trim t = []) : normalForm t = [] := by
  rw [normalForm_eq_join, shownLines_of_blank gone]
  rfl

theorem breakLines_normalForm (t : Text) : breakLines (normalForm t) = normalLines t := by
  have no_return := not_mem_normalForm t
  rw [breakLines_eq, ← (BreaksPaired.of_not_mem no_return).sourceLines_eq, sourceLines_normalForm]

theorem shownLines_normalForm (t : Text) : shownLines (normalForm t) = shownLines t := by
  by_cases gone : trim t = []
  · rw [normalForm_of_blank gone, shownLines_of_blank gone]
    rfl
  · have trimmed : (normalLines t).map trim = normalLines t := by
      simp [normalLines]
    have whole := dropEmptyEnds_append_replicate (normalLines_ne_nil t) (head?_normalLines gone)
      (getLast?_normalLines gone) 0
    rw [List.replicate_zero, List.append_nil] at whole
    rw [shownLines_of_shown gone, shownLines, breakLines_normalForm, trimmed, whole]

/-- Two texts have one normal form exactly if they show the same lines. A normal form has no
carriage return, its lines are trimmed, and the first and the last of them are not empty unless it
is the empty text; writing it again changes nothing. -/
theorem normalForm_canonical (a b : Text) :
    (normalForm a = normalForm b ↔ shownLines a = shownLines b) ∧
      '\r' ∉ normalForm a ∧
        (∀ line ∈ breakLines (normalForm a), trim line = line) ∧
          (normalForm a ≠ [] → (∀ line ∈ (breakLines (normalForm a)).head?, line ≠ []) ∧
            ∀ line ∈ (breakLines (normalForm a)).getLast?, line ≠ []) ∧
              normalForm (normalForm a) = normalForm a := by
  refine ⟨⟨fun same => ?_, fun same => ?_⟩, not_mem_normalForm a, ?_, fun some_text => ?_,
    normalForm_normalForm a⟩
  · rw [← shownLines_normalForm a, same, shownLines_normalForm]
  · rw [normalForm_eq_join, same, ← normalForm_eq_join]
  · intro line member
    rw [breakLines_normalForm] at member
    exact trim_of_mem_normalLines member
  · have shown : trim a ≠ [] := fun gone => some_text (normalForm_of_blank gone)
    rw [breakLines_normalForm]
    exact ⟨head?_normalLines shown, getLast?_normalLines shown⟩

-- A line separator is a blank and ends no line, and a return apart from its feed ends one.
example : shownLines "\u2028\r\na\r \nb\x0bc\r".toList = ["a".toList, [], "b\x0bc".toList] := by
  decide

end Snippet.Text
