import Snippet.Text.Search

/-!
The normal form of a snippet, for exact comparison: the text and each of its lines trimmed, with
one kind of line break.
-/

set_option autoImplicit false

namespace Snippet.Text

/-- Every line break becomes a single line feed. -/
def unifyBreaks : Text → Text
  | [] => []
  | '\r' :: '\n' :: rest => '\n' :: unifyBreaks rest
  | '\r' :: rest => '\n' :: unifyBreaks rest
  | c :: rest => c :: unifyBreaks rest

theorem not_mem_unifyBreaks (t : Text) : '\r' ∉ unifyBreaks t := by
  fun_induction unifyBreaks t with
  | case1 => simp
  | case2 rest ih => simp [ih]
  | case3 rest _ ih => simp [ih]
  | case4 c rest _ other ih => simp [ih, Ne.symm other]

/-- A text without carriage returns stays as it is. -/
theorem unifyBreaks_of_not_mem (t : Text) (h : '\r' ∉ t) : unifyBreaks t = t := by
  fun_induction unifyBreaks t <;> simp_all

theorem unifyBreaks_unifyBreaks (t : Text) : unifyBreaks (unifyBreaks t) = unifyBreaks t :=
  unifyBreaks_of_not_mem _ (not_mem_unifyBreaks t)

def normalForm (code : Text) : Text :=
  join ['\n'] ((lines (unifyBreaks (trim code))).map trim)

end Snippet.Text
