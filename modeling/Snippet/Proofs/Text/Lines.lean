import Snippet.Run

/-!
Lines of a text and blanks around them. Dropping the blanks around a text drops blank lines at its
ends and changes its other lines only by blanks at their ends.
-/

set_option autoImplicit false

namespace Snippet.Text

theorem isBlank_newline : isBlank '\n' = true := by decide

theorem isBlank_return : isBlank '\r' = true := by decide

-- Short separators are sought without hints, so a cut compares at every place.
theorem startHints_short (needle t : Text) (short : needle.length ≤ shortLength) :
    startHints needle t = [] := by
  simp [startHints, short]

theorem join_eq_intercalate (sep : Text) (pieces : List Text) :
    join sep pieces = sep.intercalate pieces := by
  induction pieces with
  | nil => rfl
  | cons piece rest ih =>
      cases rest with
      | nil => simp [join]
      | cons next rest => rw [join_cons _ _ (by simp), ih, List.intercalate_cons_cons]

theorem cutFrom_newline (limit : Nat) (piece t : Text) (enough : t.length < limit) :
    cutFrom ['\n'] limit 0 [] piece t = (t.splitOn '\n').modifyHead (piece.reverse ++ ·) := by
  induction t generalizing limit piece with
  | nil => simp [cutFrom]
  | cons c rest ih =>
      obtain ⟨limit, rfl⟩ : ∃ n, limit = n + 1 := ⟨limit - 1, by simp at enough; omega⟩
      simp only [List.length_cons, Nat.add_lt_add_iff_right] at enough
      by_cases newline : c = '\n'
      · subst newline
        simp [cutFrom, List.splitOn_cons_eq_if_modifyHead, ih limit [] enough]
        cases h : rest.splitOn '\n' <;> simp
      · simp [cutFrom, List.splitOn_cons_eq_if_modifyHead, newline, Ne.symm newline,
          ih (limit + 1) (c :: piece) (by omega), List.modifyHead_modifyHead, Function.comp_def]

theorem lines_eq_splitOn (t : Text) : lines t = t.splitOn '\n' := by
  rw [lines, cutAll, cut, startHints_short _ _ (by decide), cutFrom_newline _ _ _ (by simp)]
  cases t.splitOn '\n' <;> simp

@[simp] theorem lines_nil : lines [] = [[]] := by
  simp [lines_eq_splitOn]

@[simp] theorem lines_newline (t : Text) : lines ('\n' :: t) = [] :: lines t := by
  simp [lines_eq_splitOn, List.splitOn_cons_eq_if_modifyHead]

theorem lines_cons {c : Char} (t : Text) (other : c ≠ '\n') :
    lines (c :: t) = (lines t).modifyHead (c :: ·) := by
  simp [lines_eq_splitOn, List.splitOn_cons_eq_if_modifyHead, other]

theorem lines_ne_nil (t : Text) : lines t ≠ [] := by
  simp [lines_eq_splitOn]

theorem lines_append_newline (t : Text) : lines (t ++ ['\n']) = lines t ++ [[]] := by
  simp [lines_eq_splitOn, List.splitOn_append_cons_self]

theorem lines_join (pieces : List Text) (whole : ∀ piece ∈ pieces, '\n' ∉ piece)
    (some_piece : pieces ≠ []) : lines (join ['\n'] pieces) = pieces := by
  rw [lines_eq_splitOn, join_eq_intercalate, List.splitOn_intercalate _ whole some_piece]

theorem not_mem_of_mem_lines {t line : Text} (h : line ∈ lines t) : '\n' ∉ line := by
  induction t generalizing line with
  | nil => simp_all
  | cons c rest ih =>
      by_cases newline : c = '\n'
      · subst newline
        rw [lines_newline, List.mem_cons] at h
        rcases h with rfl | h
        · simp
        · exact ih h
      · rw [lines_cons _ newline] at h
        obtain ⟨first, others, split⟩ := List.exists_cons_of_ne_nil (lines_ne_nil rest)
        rw [split] at h ih
        rcases List.mem_cons.mp h with rfl | h
        · simp [ih (List.mem_cons_self ..), Ne.symm newline]
        · exact ih (List.mem_cons_of_mem _ h)

-- The last line takes a character that ends no line.
theorem lines_append_single (t : Text) {c : Char} (other : c ≠ '\n') :
    ∃ before last, lines t = before ++ [last] ∧ lines (t ++ [c]) = before ++ [last ++ [c]] := by
  induction t with
  | nil => exact ⟨[], [], by simp, by simp [lines_cons _ other]⟩
  | cons d rest ih =>
      obtain ⟨before, last, whole, longer⟩ := ih
      by_cases newline : d = '\n'
      · subst newline
        exact ⟨[] :: before, last, by simp [whole], by simp [longer]⟩
      · rw [List.cons_append, lines_cons _ newline, lines_cons _ newline, whole, longer]
        cases before with
        | nil => exact ⟨[], d :: last, by simp, by simp⟩
        | cons first before => exact ⟨(d :: first) :: before, last, by simp, by simp⟩

theorem trim_cons_blank {c : Char} (t : Text) (blank : isBlank c = true) :
    trim (c :: t) = trim t := by
  simp [trim, trimBy, dropStart, blank]

theorem trim_append_blank {c : Char} (t : Text) (blank : isBlank c = true) :
    trim (t ++ [c]) = trim t := by
  simp only [trim, trimBy, dropStart, List.dropWhile_append]
  split
  case isTrue gone =>
    have none : t.dropWhile isBlank = [] := List.isEmpty_iff.mp gone
    simp [none, dropEnd, blank]
  case isFalse => simp [dropEnd, blank]

theorem trim_around {front back : Text} (t : Text) (before : front.all isBlank = true)
    (behind : back.all isBlank = true) : trim (front ++ t ++ back) = trim t := by
  have drop_back (t : Text) : trim (t ++ back) = trim t := by
    induction back generalizing t with
    | nil => simp
    | cons c back ih =>
        simp only [List.all_cons, Bool.and_eq_true] at behind
        rw [List.append_cons, ih behind.2, trim_append_blank _ behind.1]
  rw [drop_back]
  induction front with
  | nil => rfl
  | cons c front ih =>
      simp only [List.all_cons, Bool.and_eq_true] at before
      rw [List.cons_append, trim_cons_blank _ before.1, ih before.2]

-- The blanks that trimming drops behind a text.
def blanksBehind (t : Text) : Text :=
  ((dropStart isBlank t).reverse.takeWhile isBlank).reverse

theorem trim_append_blanksBehind (t : Text) : trim t ++ blanksBehind t = dropStart isBlank t := by
  rw [trim, trimBy, dropEnd, blanksBehind, ← List.reverse_append, List.takeWhile_append_dropWhile,
    List.reverse_reverse]

theorem head?_trim (t : Text) : ∀ c ∈ (trim t).head?, isBlank c = false := by
  intro c first
  apply head?_dropStart isBlank t
  rw [← trim_append_blanksBehind, List.head?_append, Option.mem_def.mp first]
  rfl

theorem getLast?_trim (t : Text) : ∀ c ∈ (trim t).getLast?, isBlank c = false := by
  intro c last
  rw [trim, trimBy, dropEnd, List.getLast?_reverse] at last
  exact head?_dropStart isBlank _ c last

-- A text is what trimming leaves between two runs of blanks.
theorem exists_blanks_around (t : Text) :
    ∃ front back, t = front ++ trim t ++ back ∧ front.all isBlank ∧ back.all isBlank := by
  refine ⟨t.takeWhile isBlank, blanksBehind t, ?_, List.all_takeWhile, ?_⟩
  · rw [List.append_assoc, trim_append_blanksBehind, dropStart, List.takeWhile_append_dropWhile]
  · rw [blanksBehind, List.all_reverse]
    exact List.all_takeWhile

@[simp] theorem trim_nil : trim [] = [] := rfl

theorem trim_eq_nil {t : Text} : trim t = [] ↔ t.all isBlank = true := by
  obtain ⟨front, back, whole, before, behind⟩ := exists_blanks_around t
  constructor
  · intro gone
    rw [whole, gone]
    simp_all
  · intro blank
    cases h : trim t with
    | nil => rfl
    | cons c rest =>
        rw [whole, h] at blank
        have shown := head?_trim t c (by simp [h])
        simp_all

theorem trim_eq_self {t : Text} (first : ∀ c ∈ t.head?, isBlank c = false)
    (last : ∀ c ∈ t.getLast?, isBlank c = false) : trim t = t := by
  have behind : ∀ c ∈ t.reverse.head?, isBlank c = false := by simpa using last
  rw [trim, trimBy, dropStart_eq_self isBlank _ first, dropEnd]
  exact List.reverse_eq_iff.mpr (dropStart_eq_self isBlank _ behind)

@[simp] theorem trim_trim (t : Text) : trim (trim t) = trim t :=
  trim_eq_self (head?_trim t) (getLast?_trim t)

theorem mem_of_mem_trim {t : Text} {c : Char} (h : c ∈ trim t) : c ∈ t := by
  obtain ⟨front, back, whole, -, -⟩ := exists_blanks_around t
  rw [whole]
  simp [h]

theorem mem_join {sep : Text} {pieces : List Text} {c : Char} (h : c ∈ join sep pieces) :
    c ∈ sep ∨ ∃ piece ∈ pieces, c ∈ piece := by
  fun_induction join sep pieces with
  | case1 => simp at h
  | case2 piece => exact .inr ⟨piece, by simp, h⟩
  | case3 piece rest _ ih =>
      rcases List.mem_append.mp h with h | h
      · rcases List.mem_append.mp h with h | h
        · exact .inr ⟨piece, by simp, h⟩
        · exact .inl h
      · rcases ih h with h | ⟨piece, member, h⟩
        · exact .inl h
        · exact .inr ⟨piece, List.mem_cons_of_mem _ member, h⟩

theorem mem_join_of_mem {sep piece : Text} {pieces : List Text} {c : Char}
    (member : piece ∈ pieces) (inside : c ∈ piece) : c ∈ join sep pieces := by
  fun_induction join sep pieces <;> simp_all
  grind

theorem mem_of_mem_lines {t line : Text} {c : Char} (member : line ∈ lines t)
    (inside : c ∈ line) : c ∈ t := by
  rw [← join_cut ['\n'] t (t.length + 1) (by simp)]
  exact mem_join_of_mem member inside

theorem map_trim_blank_append {front : Text} (t : Text) (blank : front.all isBlank = true) :
    (lines (front ++ t)).map trim
      = List.replicate (List.count '\n' front) [] ++ (lines t).map trim := by
  induction front with
  | nil => simp
  | cons c front ih =>
      simp only [List.all_cons, Bool.and_eq_true] at blank
      by_cases newline : c = '\n'
      · subst newline
        simp [ih blank.2, List.replicate_succ]
      · rw [List.cons_append, lines_cons _ newline, List.count_cons_of_ne newline, ← ih blank.2]
        cases lines (front ++ t) <;> simp [trim_cons_blank _ blank.1]

theorem map_trim_append_blank {back : Text} (t : Text) (blank : back.all isBlank = true) :
    (lines (t ++ back)).map trim
      = (lines t).map trim ++ List.replicate (List.count '\n' back) [] := by
  induction back generalizing t with
  | nil => simp
  | cons c back ih =>
      simp only [List.all_cons, Bool.and_eq_true] at blank
      have later := ih (t ++ [c]) blank.2
      rw [List.append_assoc, List.singleton_append] at later
      rw [later]
      by_cases newline : c = '\n'
      · subst newline
        simp [lines_append_newline, List.replicate_succ]
      · obtain ⟨before, last, whole, longer⟩ := lines_append_single t newline
        simp [whole, longer, newline, trim_append_blank _ blank.1]

end Snippet.Text
