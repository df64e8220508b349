import Snippet.Proofs.Line.Target
import Snippet.Proofs.Token.Names
import Snippet.Run.Execute

/-!
Names in the texts that a line evaluates. These texts are cut out of the line; only an assignment
with an operator writes a new one, from its target and its right-hand side with signs between them.
So a line evaluates no name that does not stand in it.
-/

set_option autoImplicit false

namespace Snippet

variable {P : Text → Prop} {t : Text}

/-- The texts that a line evaluates. -/
def LineForm.sources : LineForm → List Text
  | .print arguments => [arguments]
  | .assignment targets source op => [Exec.assignedExpression targets source op]
  | .itemAssignment target source => [source, target]
  | .expression source => [source]
  | _ => []

theorem Text.trim_isInfix (t : Text) : Text.trim t <:+: t := by
  obtain ⟨front, back, whole, -, -⟩ := Text.exists_blanks_around t
  exact ⟨front, back, whole.symm⟩

namespace Exec

-- The operator and the brackets around the right-hand side are no part of a name.
theorem namesAre_assignedExpression {target expression : Text} (op : BinaryOp)
    (of_target : Text.NamesAre P target) (of_expression : Text.NamesAre P expression) :
    Text.NamesAre P (assignedExpression [target] expression (some op)) := by
  have signs : (op.symbol.toList ++ " (".toList).all (fun c => !Token.isNameRest c) = true := by
    cases op <;> decide
  have closed := of_expression.around .nil (c := ')') (by decide)
  have whole := of_target.around (closed.signs signs) (c := ' ') (by decide)
  simpa [assignedExpression] using whole

end Exec

namespace Line

open Token (isPlain)

theorem withoutCommentFrom_isPrefix (quote : Option Char) (t : Text) :
    withoutCommentFrom quote t <+: t := by
  fun_induction withoutCommentFrom quote t with
  | case1 => exact List.nil_prefix
  | case2 q c rest ih =>
      exact List.cons_prefix_cons.mpr ⟨rfl, List.cons_prefix_cons.mpr ⟨rfl, ih⟩⟩
  | case3 q c rest _ ih => exact List.cons_prefix_cons.mpr ⟨rfl, ih⟩
  | case4 => exact List.nil_prefix
  | case5 c rest _ ih => exact List.cons_prefix_cons.mpr ⟨rfl, ih⟩

theorem bare_isInfix (raw : Text) : bare raw <:+: raw := by
  rw [bare_eq]
  exact (Text.trim_isInfix _).trans (withoutCommentFrom_isPrefix none raw).isInfix

theorem Capture.of_isInfix (c : Capture) (t : Text) : c.of t <:+: t :=
  (List.take_prefix _ _).isInfix.trans (List.drop_suffix _ _).isInfix

-- A mask shows what stands before the first quote.
theorem prefix_of_mask {front behind : Text} (plain : front.all isPlain = true)
    (masked : (mask t).text = front ++ behind) : front <+: t := by
  rw [mask] at masked
  induction front generalizing t with
  | nil => exact List.nil_prefix
  | cons c rest ih =>
      simp only [List.all_cons, Bool.and_eq_true, isPlain, bne_iff_ne, Bool.not_eq_true'] at plain
      obtain ⟨⟨unquoted, -⟩, plain⟩ := plain
      cases t with
      | nil => cases masked
      | cons d t =>
          simp only [maskFrom, Masked.add, List.cons_append, List.nil_append, List.cons.injEq]
            at masked
          obtain ⟨rfl, masked⟩ := masked
          have outside : quoteAfter none d = none := by simp [quoteAfter, unquoted]
          rw [outside] at masked
          exact List.cons_prefix_cons.mpr ⟨rfl, ih plain masked⟩

theorem target_of_assignmentForm? {text masked side : Text} {targets : List Text} {op : BinaryOp}
    (h : assignmentForm? text masked = some (.assignment targets side (some op))) :
    ∃ target rest, targets = [target] ∧ leadingName? masked = some (target, rest) := by
  obtain ⟨target, c, found, rfl, -⟩ := augmented?_of_assignmentForm? h
  obtain ⟨rest, _, leading, -⟩ := leadingName?_of_augmented? found
  exact ⟨target, rest, rfl, leading⟩

/-- The names in the texts that a line evaluates stand in the line. -/
theorem namesAre_of_classify {raw : Text} {number : Int} {line : Line}
    (names : Text.NamesAre P raw) (h : classify raw number = .ok line) :
    ∀ t ∈ line.form.sources, Text.NamesAre P t := by
  have of_bare := names.within (bare_isInfix raw)
  by_cases blank : line.form = .blank
  · rw [blank]
    exact nofun
  obtain ⟨-, masked, rfl⟩ := correct_of_classify h blank
  have shape := sameShape_formOf masked masked
  have of_capture (c : Capture) : Text.NamesAre P (c.of (bare raw)) :=
    of_bare.within (c.of_isInfix _)
  dsimp only
  generalize made : formOf (bare raw) (mask (bare raw)).text = form at shape ⊢
  cases shape with
  | print c | expression c => exact List.forall_mem_singleton.mpr (of_capture c)
  | itemAssignment target side =>
      exact List.forall_mem_cons.mpr ⟨of_capture side,
        List.forall_mem_singleton.mpr (of_capture target)⟩
  | assignment targets side op =>
      refine List.forall_mem_singleton.mpr ?_
      cases op with
      | none => exact of_capture side
      | some op =>
          -- The target is evaluated too, so it is a name of the text that is evaluated.
          obtain ⟨target, rest, rfl, leading⟩ :=
            target_of_assignmentForm? (assignmentForm?_of_formOf made)
          obtain ⟨c, more, rfl, word, -, all, shown⟩ := leadingName?_some leading
          have plain : (c :: more).all isPlain = true := by
            have each := List.all_eq_true.mp all
            simpa [isPlain_of_isWordChar word] using fun d member =>
              isPlain_of_isWordChar (each d member)
          have front := (prefix_of_mask plain shown).isInfix
          exact Exec.namesAre_assignedExpression op (of_bare.within front) (of_capture side)
  | blank | header keyword | flow keyword | raise kind c => exact nofun

end Line

end Snippet
