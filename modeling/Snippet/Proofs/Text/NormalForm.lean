import Snippet.Proofs.Text.Break

/-!
The normal form of a source text, line by line: its lines are the trimmed lines of the source
without the blank ones at both ends.
-/

set_option autoImplicit false

namespace Snippet.Text

-- Every carriage return is the first half of a line break.
def BreaksPaired (t : Text) : Prop :=
  ∀ i < t.length, t[i]? = some '\r' → t[i + 1]? = some '\n'

instance (t : Text) : Decidable (BreaksPaired t) :=
  inferInstanceAs (Decidable (∀ i < t.length, _))

theorem BreaksPaired.tail {c : Char} {t : Text} (h : BreaksPaired (c :: t)) : BreaksPaired t := by
  intro i inside here
  simpa using h (i + 1) (by simpa using inside) (by simpa using here)

theorem BreaksPaired.head? {t : Text} (h : BreaksPaired ('\r' :: t)) : t.head? = some '\n' := by
  simpa [List.head?_eq_getElem?] using h 0 (by simp) rfl

theorem BreaksPaired.of_not_mem {t : Text} (h : '\r' ∉ t) : BreaksPaired t :=
  fun _ _ here => absurd (List.mem_of_getElem? here) h

theorem BreaksPaired.dropReturns_eq {t : Text} (paired : BreaksPaired t) :
    dropReturns t = unifyBreaks t := by
  fun_induction unifyBreaks t with
  | case1 => rfl
  | case2 rest ih => simp [dropReturns, ih paired.tail.tail]
  | case3 rest single ih =>
      cases rest with
      | nil => simpa using paired.head?
      | cons c rest => exact absurd (by simpa using paired.head?) (single rest)
  | case4 c rest _ _ ih => simp [dropReturns, ih paired.tail]

theorem unifyBreaks_cons {c : Char} (t : Text) (other : c ≠ '\r') :
    unifyBreaks (c :: t) = c :: unifyBreaks t := by
  simp [unifyBreaks, other]

theorem unifyBreaks_append {a b : Text} (h : a.getLast? = some '\r' → b.head? ≠ some '\n') :
    unifyBreaks (a ++ b) = unifyBreaks a ++ unifyBreaks b := by
  fun_induction unifyBreaks a with
  | case1 => rfl
  | case2 rest ih =>
      have later := ih fun last => h (by simp [List.getLast?_cons, last])
      simpa [unifyBreaks] using later
  | case3 rest single ih =>
      have later := ih fun last => h (by simp [List.getLast?_cons, last])
      have apart : ∀ after, rest ++ b ≠ '\n' :: after := by
        intro after same
        cases rest with
        | nil => exact h rfl (by simp_all)
        | cons d rest => simp_all
      rw [List.cons_append, unifyBreaks.eq_3 _ apart, later]
      rfl
  | case4 c rest _ other ih =>
      have later := ih fun last => h (by simp [List.getLast?_cons, last])
      rw [List.cons_append, unifyBreaks_cons _ other, later]
      rfl

theorem all_isBlank_unifyBreaks {t : Text} (blank : t.all isBlank = true) :
    (unifyBreaks t).all isBlank = true := by
  fun_induction unifyBreaks t <;> simp_all [isBlank_newline]

theorem all_isBlank_dropReturns {t : Text} (blank : t.all isBlank = true) :
    (dropReturns t).all isBlank = true := by
  fun_induction dropReturns t <;> simp_all [isBlank_newline]

theorem BreaksPaired.sourceLines_eq {t : Text} (paired : BreaksPaired t) :
    sourceLines t = lines (unifyBreaks t) := by
  rw [sourceLines_eq_lines, paired.dropReturns_eq]

-- The lines that the normal form of a text is made of.
def normalLines (t : Text) : List Text :=
  (lines (unifyBreaks (trim t))).map trim

theorem normalLines_ne_nil (t : Text) : normalLines t ≠ [] := by
  simp [normalLines, lines_ne_nil]

theorem trim_of_mem_normalLines {t line : Text} (member : line ∈ normalLines t) :
    trim line = line := by
  obtain ⟨raw, -, rfl⟩ := List.mem_map.mp member
  exact trim_trim raw

theorem not_mem_normalForm (t : Text) : '\r' ∉ normalForm t := by
  intro member
  rcases mem_join member with member | ⟨piece, inside, member⟩
  · simp at member
  · obtain ⟨line, within, rfl⟩ := List.mem_map.mp inside
    exact not_mem_unifyBreaks _ (mem_of_mem_lines within (mem_of_mem_trim member))

theorem sourceLines_normalForm (t : Text) : sourceLines (normalForm t) = normalLines t := by
  have no_returns := not_mem_normalForm t
  have whole : ∀ piece ∈ normalLines t, '\n' ∉ piece := by
    intro piece inside member
    obtain ⟨line, within, rfl⟩ := List.mem_map.mp inside
    exact not_mem_of_mem_lines within (mem_of_mem_trim member)
  rw [(BreaksPaired.of_not_mem no_returns).sourceLines_eq, unifyBreaks_of_not_mem _ no_returns]
  exact lines_join _ whole (normalLines_ne_nil t)

/-- The blank lines at the start of a source text. -/
def leadingBlankLines (t : Text) : Nat :=
  ((sourceLines t).takeWhile (·.all isBlank)).length

-- The ends of what trimming leaves are shown characters, so no line break is cut in two there.
theorem apart_around_trim {t : Text} (shown : trim t ≠ []) (back : Text) :
    (trim t ++ back).head? ≠ some '\n' ∧ (trim t).getLast? ≠ some '\r' := by
  constructor
  · intro h
    obtain ⟨c, rest, split⟩ := List.exists_cons_of_ne_nil shown
    have visible := head?_trim t c (by simp [split])
    have newline : c = '\n' := by simpa [split] using h
    rw [newline, isBlank_newline] at visible
    cases visible
  · intro h
    have visible := getLast?_trim t _ h
    rw [isBlank_return] at visible
    cases visible

theorem unifyBreaks_around_trim {t front back : Text} (shown : trim t ≠ [])
    (whole : t = front ++ trim t ++ back) :
    unifyBreaks t = unifyBreaks front ++ (unifyBreaks (trim t) ++ unifyBreaks back) := by
  obtain ⟨first, last⟩ := apart_around_trim shown back
  conv => lhs; rw [whole, List.append_assoc]
  rw [unifyBreaks_append fun _ => first, unifyBreaks_append fun h => absurd h last]

theorem dropReturns_around_trim {t front back : Text} (shown : trim t ≠ [])
    (whole : t = front ++ trim t ++ back) :
    dropReturns t = dropReturns front ++ (dropReturns (trim t) ++ dropReturns back) := by
  obtain ⟨first, last⟩ := apart_around_trim shown back
  conv => lhs; rw [whole, List.append_assoc]
  rw [dropReturns_append fun _ => first, dropReturns_append fun h => absurd h last]

theorem takeWhile_isBlank_lines (ls : List Text) (rest : List Text) (before : Nat)
    (h : ls.map trim = List.replicate before [] ++ rest) (shown : ∀ line ∈ rest.head?, line ≠ []) :
    (ls.takeWhile (·.all isBlank)).length = before := by
  induction before generalizing ls with
  | zero =>
      cases ls with
      | nil => rfl
      | cons line ls =>
          have visible := shown (trim line) (by simp [← show _ = rest from h])
          simp_all [trim_eq_nil]
  | succ before ih =>
      cases ls with
      | nil => simp [List.replicate_succ] at h
      | cons line ls =>
          simp only [List.map_cons, List.replicate_succ, List.cons_append, List.cons.injEq,
            trim_eq_nil] at h
          simp [h.1, ih ls h.2]

theorem head?_normalLines {t : Text} (shown : trim t ≠ []) :
    ∀ line ∈ (normalLines t).head?, line ≠ [] := by
  obtain ⟨c, rest, split⟩ := List.exists_cons_of_ne_nil shown
  have visible := head?_trim t c (by simp [split])
  have no_return : c ≠ '\r' := fun h => by simp [h, isBlank_return] at visible
  have no_newline : c ≠ '\n' := fun h => by simp [h, isBlank_newline] at visible
  obtain ⟨first, others, cut⟩ := List.exists_cons_of_ne_nil (lines_ne_nil (unifyBreaks rest))
  rw [normalLines, split, unifyBreaks_cons _ no_return, lines_cons _ no_newline, cut]
  simp [trim_eq_nil, visible]

-- The trimmed lines of a source text are those of its normal form, with blank ones around.
theorem map_trim_sourceLines {t : Text} (paired : BreaksPaired t) (shown : trim t ≠ []) :
    ∃ behind, (sourceLines t).map trim
      = List.replicate (leadingBlankLines t) [] ++ (normalLines t ++ List.replicate behind []) := by
  obtain ⟨front, back, whole, blank_front, blank_back⟩ := exists_blanks_around t
  have split : (sourceLines t).map trim = List.replicate (List.count '\n' (unifyBreaks front)) []
      ++ (normalLines t ++ List.replicate (List.count '\n' (unifyBreaks back)) []) := by
    rw [paired.sourceLines_eq, unifyBreaks_around_trim shown whole,
      map_trim_blank_append _ (all_isBlank_unifyBreaks blank_front),
      map_trim_append_blank _ (all_isBlank_unifyBreaks blank_back), normalLines]
  refine ⟨List.count '\n' (unifyBreaks back), ?_⟩
  have leading : leadingBlankLines t = List.count '\n' (unifyBreaks front) := by
    apply takeWhile_isBlank_lines _ _ _ split
    obtain ⟨first, rest, kept⟩ := List.exists_cons_of_ne_nil (normalLines_ne_nil t)
    simpa [kept] using head?_normalLines shown
  rw [leading, split]

theorem trim_of_mem_sourceLines {t line : Text} (paired : BreaksPaired t) (blank : trim t = [])
    (member : line ∈ sourceLines t) : trim line = [] := by
  rw [trim_eq_nil] at blank ⊢
  have all_blank := all_isBlank_unifyBreaks blank
  rw [paired.sourceLines_eq] at member
  rw [List.all_eq_true] at all_blank ⊢
  exact fun c inside => all_blank c (mem_of_mem_lines member inside)

-- The trimmed lines of a source text are those of the trimmed text, with blank ones around.
theorem map_trim_sourceLines_trim (t : Text) :
    ∃ before behind, (sourceLines t).map trim
      = List.replicate before [] ++ ((sourceLines (trim t)).map trim ++ List.replicate behind []) := by
  simp only [sourceLines_eq_lines]
  by_cases gone : trim t = []
  · have blank := all_isBlank_dropReturns (trim_eq_nil.mp gone)
    have split := map_trim_append_blank [] blank
    rw [List.nil_append] at split
    exact ⟨0, _, by rw [gone, split]; rfl⟩
  · obtain ⟨front, back, whole, blank_front, blank_back⟩ := exists_blanks_around t
    refine ⟨List.count '\n' (dropReturns front), List.count '\n' (dropReturns back), ?_⟩
    rw [dropReturns_around_trim gone whole,
      map_trim_blank_append _ (all_isBlank_dropReturns blank_front),
      map_trim_append_blank _ (all_isBlank_dropReturns blank_back)]

@[simp] theorem normalForm_trim (t : Text) : normalForm (trim t) = normalForm t := by
  simp [normalForm]

theorem head?_join {sep piece : Text} (some_piece : piece ≠ []) (rest : List Text) :
    (join sep (piece :: rest)).head? = piece.head? := by
  obtain ⟨c, more, rfl⟩ := List.exists_cons_of_ne_nil some_piece
  cases rest with
  | nil => rfl
  | cons next rest => rw [join_cons _ _ (List.cons_ne_nil _ _)]; rfl

theorem getLast?_join {sep piece : Text} (some_piece : piece ≠ []) (before : List Text) :
    (join sep (before ++ [piece])).getLast? = piece.getLast? := by
  induction before with
  | nil => rfl
  | cons first before ih =>
      rw [List.cons_append, join_cons _ _ (by simp), List.getLast?_append, ih]
      exact Option.or_of_isSome (by simpa using some_piece)

theorem getLast?_normalLines {t : Text} (shown : trim t ≠ []) :
    ∀ line ∈ (normalLines t).getLast?, line ≠ [] := by
  obtain gone | ⟨front, c, split⟩ := List.eq_nil_or_concat (trim t)
  · exact absurd gone shown
  rw [List.concat_eq_append] at split
  have visible := getLast?_trim t c (by simp [split])
  have no_return : c ≠ '\r' := fun h => by simp [h, isBlank_return] at visible
  have no_newline : c ≠ '\n' := fun h => by simp [h, isBlank_newline] at visible
  have unified : unifyBreaks (front ++ [c]) = unifyBreaks front ++ [c] := by
    rw [unifyBreaks_append fun _ => by simpa using no_newline, unifyBreaks_cons _ no_return]
    rfl
  obtain ⟨before, last, -, cut⟩ := lines_append_single (unifyBreaks front) no_newline
  rw [normalLines, split, unified, cut]
  simp [trim_eq_nil, visible]

theorem trim_normalForm (t : Text) : trim (normalForm t) = normalForm t := by
  by_cases gone : trim t = []
  · rw [normalForm, gone]
    rfl
  apply trim_eq_self
  · obtain ⟨first, rest, split⟩ := List.exists_cons_of_ne_nil (normalLines_ne_nil t)
    have shown := head?_normalLines gone first (by simp [split])
    have member : first ∈ normalLines t := by simp [split]
    have same : (normalForm t).head? = (trim first).head? := by
      rw [trim_of_mem_normalLines member, ← head?_join shown rest, ← split]
      rfl
    rw [same]
    exact head?_trim first
  · obtain none_left | ⟨before, last, split⟩ := List.eq_nil_or_concat (normalLines t)
    · exact absurd none_left (normalLines_ne_nil t)
    rw [List.concat_eq_append] at split
    have shown := getLast?_normalLines gone last (by simp [split])
    have member : last ∈ normalLines t := by simp [split]
    have same : (normalForm t).getLast? = (trim last).getLast? := by
      rw [trim_of_mem_normalLines member, ← getLast?_join shown before, ← split]
      rfl
    rw [same]
    exact getLast?_trim last

/-- Writing the normal form again changes nothing. -/
@[simp] theorem normalForm_normalForm (t : Text) : normalForm (normalForm t) = normalForm t := by
  have lines_again : lines (unifyBreaks (trim (normalForm t))) = normalLines t := by
    rw [trim_normalForm, ← (BreaksPaired.of_not_mem (not_mem_normalForm t)).sourceLines_eq,
      sourceLines_normalForm]
  have trimmed : (normalLines t).map trim = normalLines t := by
    simp [normalLines]
  rw [normalForm, lines_again, trimmed]
  rfl

end Snippet.Text
