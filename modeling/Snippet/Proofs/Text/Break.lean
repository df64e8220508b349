import Snippet.Proofs.Text.Lines

/-!
Line breaks of two characters. A source text is cut into lines after each carriage return in front
of a line feed is dropped. Putting two texts together with a line feed between them puts their
lines together, up to a carriage return that the line feed takes along.
-/

set_option autoImplicit false

namespace Snippet.Text

/-- Drop the carriage returns that stand in front of a line feed. -/
def dropReturns : Text → Text
  | [] => []
  | '\r' :: '\n' :: rest => '\n' :: dropReturns rest
  | c :: rest => c :: dropReturns rest

theorem join_cutFrom_returns (limit : Nat) (piece t : Text) (enough : t.length < limit) :
    join ['\n'] (cutFrom ['\r', '\n'] limit 0 [] piece t) = piece.reverse ++ dropReturns t := by
  obtain ⟨limit, rfl⟩ : ∃ n, limit = n + 1 := ⟨limit - 1, by omega⟩
  fun_induction dropReturns t generalizing limit piece with
  | case1 => simp [cutFrom, join]
  | case2 rest ih =>
      obtain ⟨limit, rfl⟩ : ∃ n, limit = n + 1 := ⟨limit - 1, by simp at enough; omega⟩
      have rest_joined := ih [] limit (by simp at enough; omega)
      simp [cutFrom, join_cons _ _ (cutFrom_ne_nil _ _ _ _ _ _), rest_joined]
  | case3 c rest single ih =>
      have rest_joined := ih (c :: piece) limit (by simp at enough; omega)
      have other : ['\r', '\n'].isPrefixOf (c :: rest) = false := by
        apply Bool.eq_false_iff.mpr
        intro starts
        obtain ⟨after, same⟩ := List.isPrefixOf_iff_prefix.mp starts
        obtain ⟨rfl, rfl⟩ := List.cons.inj same
        exact single after rfl rfl
      rw [cutFrom]
      simp [other, rest_joined]

theorem replaceAll_returns (t : Text) : replaceAll ['\r', '\n'] ['\n'] t = dropReturns t := by
  simp [replaceAll, replace, cut, startHints_short _ _ (show ['\r', '\n'].length ≤ _ by decide),
    join_cutFrom_returns]

theorem sourceLines_eq_lines (t : Text) : sourceLines t = lines (dropReturns t) := by
  rw [sourceLines, replaceAll_returns]

theorem dropReturns_append {a b : Text} (h : a.getLast? = some '\r' → b.head? ≠ some '\n') :
    dropReturns (a ++ b) = dropReturns a ++ dropReturns b := by
  fun_induction dropReturns a with
  | case1 => rfl
  | case2 rest ih =>
      have later := ih fun last => h (by simp [List.getLast?_cons, last])
      simpa [dropReturns] using later
  | case3 c rest single ih =>
      have later := ih fun last => h (by simp [List.getLast?_cons, last])
      have apart : ∀ after, c = '\r' → rest ++ b ≠ '\n' :: after := by
        rintro after rfl same
        cases rest with
        | nil => exact h rfl (by simp_all)
        | cons d rest => simp_all
      rw [List.cons_append, dropReturns.eq_3 _ _ apart, later]
      rfl

theorem lines_append_newline_cons (a b : Text) :
    lines (a ++ '\n' :: b) = lines a ++ lines b := by
  simp [lines_eq_splitOn, List.splitOn_append_cons_self]

theorem map_trim_sourceLines_append (a b : Text) :
    (sourceLines (a ++ '\n' :: b)).map trim
      = (sourceLines a).map trim ++ (sourceLines b).map trim := by
  simp only [sourceLines_eq_lines]
  by_cases last : a.getLast? = some '\r'
  · obtain ⟨front, rfl⟩ := List.getLast?_eq_some_iff.mp last
    have together : dropReturns (front ++ ['\r'] ++ '\n' :: b)
        = dropReturns front ++ '\n' :: dropReturns b := by
      rw [List.append_assoc, dropReturns_append (by simp)]
      rfl
    have alone : dropReturns (front ++ ['\r']) = dropReturns front ++ ['\r'] :=
      dropReturns_append (by simp)
    obtain ⟨before, end_line, whole, longer⟩ :=
      lines_append_single (dropReturns front) (show '\r' ≠ '\n' by decide)
    rw [together, alone, lines_append_newline_cons, longer, whole]
    simp [trim_append_blank _ isBlank_return]
  · have apart : dropReturns (a ++ '\n' :: b) = dropReturns a ++ '\n' :: dropReturns b := by
      rw [dropReturns_append fun returned => absurd returned last]
      rfl
    rw [apart, lines_append_newline_cons, List.map_append]

end Snippet.Text
