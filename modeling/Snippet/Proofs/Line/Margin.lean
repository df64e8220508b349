import Snippet.Proofs.Line.Shape
import Snippet.Proofs.Program

/-!
What stands around a line. Blanks in front of a line and behind it, and a comment behind these, do
not matter for what the line is, as long as the line closes its own quotes.
-/

set_option autoImplicit false

namespace Snippet.Line

open Place
open Text (trim)

-- Outside of quotes a comment takes nothing with it but itself and the blanks in front of it.
theorem beforeComment_append_comment {p : Place} {t back : Text}
    (closed : p.afterAll (p.beforeComment t) = outside) (blank : back.all isBlank = true)
    (comment : Text) :
    ∃ kept, kept.all isBlank = true ∧
      p.beforeComment (t ++ (back ++ '#' :: comment)) = p.beforeComment t ++ kept := by
  induction t generalizing p with
  | nil =>
      obtain rfl : p = outside := closed
      refine ⟨back, blank, ?_⟩
      rw [List.nil_append, beforeComment_blank_append blank]
      simp [beforeComment]
  | cons c rest ih =>
      by_cases starts : p = outside ∧ c = '#'
      · exact ⟨[], rfl, by simp [beforeComment, starts]⟩
      · have later : (p.after c).afterAll ((p.after c).beforeComment rest) = outside := by
          rw [beforeComment, if_neg starts] at closed
          exact closed
        obtain ⟨kept, blank_kept, same⟩ := ih later
        exact ⟨kept, blank_kept, by simp [beforeComment, starts, same]⟩

/-- Blanks around a line and a comment behind it leave the bare line as it is. -/
theorem bare_margin {raw front back : Text} (closed : (mask (withoutComment raw)).closed = true)
    (before : front.all isBlank = true) (behind : back.all isBlank = true) (comment : Text) :
    bare (front ++ raw ++ back ++ '#' :: comment) = bare raw := by
  have ends : outside.afterAll (outside.beforeComment raw) = outside := by
    rw [mask_eq, withoutComment, withoutCommentFrom_eq] at closed
    exact quote?_eq_none.mp (Option.isNone_iff_eq_none.mp closed)
  obtain ⟨kept, blank_kept, cut⟩ := beforeComment_append_comment ends behind comment
  have around : withoutComment (front ++ raw ++ back ++ '#' :: comment)
      = front ++ withoutComment raw ++ kept := by
    simp only [withoutComment, withoutCommentFrom_eq, ofQuote, List.append_assoc]
    rw [beforeComment_blank_append before, cut]
  rw [bare_eq, around, Text.trim_around _ before blank_kept, bare_eq]

/-- A blank line shows the source text that it was read from. -/
def showing (raw : Text) (line : Line) : Line :=
  match line.form with
  | .blank => { line with text := trim raw }
  | _ => line

theorem formOf_ne_blank (text masked : Text) : formOf text masked ≠ .blank := by
  have assigns : assignmentForm? text masked ≠ some .blank := by
    simp [assignmentForm?, Option.bind_eq_some_iff]
  simp [formOf, Option.getD_eq_iff, assigns]

/-- What a line is depends on the bare line alone; only a blank line shows more. -/
theorem classify_of_bare_eq {raw other : Text} (same : bare raw = bare other) (number : Int) :
    classify raw number = (classify other number).map (showing raw) := by
  by_cases empty : bare other = []
  · rw [classify_of_isEmpty empty, classify_of_isEmpty (same.trans empty)]
    rfl
  have some_text : bare raw ≠ [] := same ▸ empty
  cases verdict : mistake? (mask (bare other)) with
  | some mistake =>
      rw [classify_of_mistake empty verdict, classify_of_mistake some_text (same ▸ verdict)]
      rfl
  | none =>
      rw [classify_of_correct empty verdict, classify_of_correct some_text (same ▸ verdict), same]
      have shown := formOf_ne_blank (bare other) (mask (bare other)).text
      rw [Except.map, showing]
      split
      · contradiction
      · rfl

/-- Blanks in front of a line, blanks behind it and a comment behind these do not matter if the
line closes its quotes: what is left is the same mistake, or a line with the same number, form and
text. Only a blank line shows the source text as it is. -/
theorem classify_margin {raw front back : Text}
    (closed : (mask (withoutComment raw)).closed = true) (before : front.all isBlank = true)
    (behind : back.all isBlank = true) (comment : Text) (number : Int) :
    classify (front ++ raw ++ back ++ '#' :: comment) number
      = (classify raw number).map (showing (front ++ raw ++ back ++ '#' :: comment)) :=
  classify_of_bare_eq (bare_margin closed before behind comment) number

/-- A line that holds a sign of a comment in quotes, and a comment of its own with a quote. -/
theorem classify_margin_quoted_sign :
    (mask (withoutComment "x = '#\\'' # it's".toList)).closed = true ∧
      " \t".toList.all isBlank = true ∧ "\u2003".toList.all isBlank = true ∧
      classify (" \t".toList ++ "x = '#\\'' # it's".toList ++ "\u2003".toList ++ '#' :: "'(".toList) 7
        = .ok ⟨7, "x = '#\\''".toList, .assignment ["x".toList] "'#\\''".toList none⟩ := by
  have closed : (mask (withoutComment "x = '#\\'' # it's".toList)).closed = true := by decide
  have before : " \t".toList.all isBlank = true := by decide
  have behind : "\u2003".toList.all isBlank = true := by decide
  have read : classify "x = '#\\'' # it's".toList 7
      = .ok ⟨7, "x = '#\\''".toList, .assignment ["x".toList] "'#\\''".toList none⟩ :=
    ok_of_toOption (by decide)
  refine ⟨closed, before, behind, ?_⟩
  rw [classify_margin closed before behind, read]
  rfl

end Snippet.Line
