import Snippet.Proofs.Expr.Grouped
import Snippet.Proofs.Line.Call
import Snippet.Proofs.Line.Depth
import Snippet.Proofs.Line.Target

/-!
Right-hand sides of augmented assignments. What stands behind the operator of a line closes its
quotes and brackets by itself, so it stays together in the brackets that are put around it.
-/

set_option autoImplicit false

namespace Snippet

namespace Line

open Exec (assignedExpression)
open Grammar (Nested depthOver nextKind)
open Token (isLayout isPlain isRound)

variable {t side target : Text} {op : BinaryOp}

theorem not_isRound_of_isWordChar {c : Char} (h : isWordChar c = true) : isRound c = false := by
  have no_opening : c ≠ '(' := ne_of_isWordChar h (by decide)
  have no_closing : c ≠ ')' := ne_of_isWordChar h (by decide)
  simp [isRound, no_opening, no_closing]

theorem not_isRound_of_isBlank {c : Char} (h : isBlank c = true) : isRound c = false := by
  have no_opening : c ≠ '(' := ne_of_isBlank h (by decide)
  have no_closing : c ≠ ')' := ne_of_isBlank h (by decide)
  simp [isRound, no_opening, no_closing]

/-- Characters that stand for themselves under a mask, none of them a round bracket. -/
def isFlat (c : Char) : Bool :=
  isPlain c && !isRound c

theorem isFlat_of_isWordChar {c : Char} (h : isWordChar c = true) : isFlat c = true := by
  simp [isFlat, isPlain_of_isWordChar h, not_isRound_of_isWordChar h]

theorem isFlat_of_isBlank {c : Char} (h : isBlank c = true) : isFlat c = true := by
  simp [isFlat, isPlain_of_isBlank h, not_isRound_of_isBlank h]

theorem all_isFlat_operator (op : BinaryOp) : (op.symbol ++ "=").toList.all isFlat = true := by
  cases op <;> decide

theorem all_isFlat {p : Char → Bool} (flat : ∀ {c}, p c = true → isFlat c = true) {t : Text}
    (all : t.all p = true) : t.all isFlat = true :=
  List.all_eq_true.mpr fun c member => flat (List.all_eq_true.mp all c member)

theorem rightSide?_some {whole rest : Text} {c : Capture} (h : rightSide? whole rest = some c) :
    ∃ blanks side, rest = blanks ++ side ∧ blanks.all isBlank = true ∧
      (∃ d ∈ side.head?, isBlank d = false) ∧ c = ⟨position whole side, side.length⟩ := by
  simp only [rightSide?] at h
  split at h
  · contradiction
  · rename_i shown
    cases h
    refine ⟨rest.takeWhile isBlank, dropBlanks rest, ?_, List.all_takeWhile, ?_, rfl⟩
    · exact List.takeWhile_append_dropWhile.symm
    · have first := List.head?_dropWhile_not isBlank rest
      cases side : dropBlanks rest with
      | nil => simp [side] at shown
      | cons d side =>
          rw [← dropBlanks, side] at first
          exact ⟨d, rfl, first⟩

-- The right-hand side of an augmented assignment begins behind flat characters.
theorem augmented?_some {masked : Text} {c : Capture} (h : augmented? masked = some (target, op, c)) :
    ∃ front side, masked = front ++ side ∧ front.all isFlat = true ∧
      (∃ d ∈ side.head?, isBlank d = false) ∧ c = ⟨front.length, side.length⟩ := by
  obtain ⟨rest, behind, leading, word, right⟩ := leadingName?_of_augmented? h
  obtain ⟨blanks, side, rfl, blank, shown, rfl⟩ := rightSide?_some right
  obtain ⟨first, more, rfl, first_word, -, all, whole⟩ := leadingName?_some leading
  have split : rest = rest.takeWhile isBlank ++ ((op.symbol ++ "=").toList ++ (blanks ++ side)) := by
    rw [← afterWord?_some word]
    exact List.takeWhile_append_dropWhile.symm
  have name_flat : (first :: more).all isFlat = true := by
    rw [List.all_cons, isFlat_of_isWordChar first_word, all_isFlat isFlat_of_isWordChar all]
    rfl
  have around_flat : (rest.takeWhile isBlank).all isFlat = true :=
    all_isFlat isFlat_of_isBlank List.all_takeWhile
  have blanks_flat := all_isFlat isFlat_of_isBlank blank
  have parts : masked = ((first :: more) ++ rest.takeWhile isBlank ++ (op.symbol ++ "=").toList
      ++ blanks) ++ side := by
    rw [whole]
    conv => lhs; rw [split]
    simp only [List.append_assoc]
  refine ⟨_, side, parts, ?_, shown, ?_⟩
  · simp only [List.all_append, name_flat, around_flat, all_isFlat_operator, blanks_flat]
    rfl
  · rw [position, parts, List.length_append, Nat.add_sub_cancel]

/-- What stands behind the operator of a line: closed quotes, balanced brackets, and no blank in
front. -/
structure Grouped (side : Text) : Prop where
  closed : (mask side).closed = true
  balanced : isBalanced '(' ')' (mask side).text = true
  begins : ∃ c ∈ side.head?, isLayout c = false

theorem isLayout_of_not_isBlank {c : Char} (shown : isBlank c = false) : isLayout c = false := by
  rw [Bool.eq_false_iff]
  intro layout
  simp only [isLayout, Bool.or_eq_true, beq_iff_eq] at layout
  obtain ((rfl | rfl) | rfl) | rfl := layout <;> exact absurd shown (by decide)

-- A mask shows the first character of a text as it is.
theorem head?_mask (t : Text) : (mask t).text.head? = t.head? := by
  rw [mask_eq]
  cases t <;> rfl

theorem grouped_of_augmented? {masked : Text} {c : Capture} (whole : mask t = ⟨masked, true⟩)
    (balanced : isBalanced '(' ')' masked = true) (found : augmented? masked = some (target, op, c)) :
    Grouped (c.of t) := by
  obtain ⟨front, side, rfl, flat, begins, rfl⟩ := augmented?_some found
  have plain : front.all isPlain = true := List.all_eq_true.mpr fun c member =>
    (Bool.and_eq_true_iff.mp (List.all_eq_true.mp flat c member)).1
  have free : front.any isRound = false := List.any_eq_false.mpr fun c member => by
    simpa using (Bool.and_eq_true_iff.mp (List.all_eq_true.mp flat c member)).2
  obtain ⟨body, rfl, masked⟩ := rest_of_mask whole plain
  have size : side.length = body.length := by rw [← length_mask body, masked]
  have captured : (⟨front.length, side.length⟩ : Capture).of (front ++ body) = body := by
    simp [Capture.of, size]
  rw [captured]
  refine ⟨by rw [masked], ?_, ?_⟩
  · rw [isBalanced, depthAfter?_append, depthAfter?_of_no_round free] at balanced
    rw [masked]
    exact balanced
  · obtain ⟨c, first, shown⟩ := begins
    rw [← head?_mask, masked]
    exact ⟨c, first, isLayout_of_not_isBlank shown⟩

theorem nextKind_of_scan {tokens : List Token} (scanned : Token.scan t = .ok tokens)
    (begins : ∃ c ∈ t.head?, isLayout c = false) : nextKind tokens ≠ .finish := by
  obtain ⟨c, first, shown⟩ := begins
  obtain ⟨rest, rfl⟩ : ∃ rest, t = c :: rest := List.head?_eq_some_iff.mp first
  cases Token.scansTo_of_scanFrom scanned with
  | layout blank =>
      rw [shown] at blank
      contradiction
  | token found => exact Token.kind_ne_finish_of_read found

theorem grouped_of_classify {raw : Text} {number : Int} {line : Line} {targets : List Text}
    (read : classify raw number = .ok line)
    (form : line.form = .assignment targets side (some op)) : Grouped side := by
  have some_text : line.form ≠ .blank := by
    rw [form]
    nofun
  obtain ⟨correct, masked, rfl⟩ := correct_of_classify read some_text
  obtain ⟨target, c, found, -, rfl⟩ := augmented?_of_assignmentForm? (assignmentForm?_of_formOf form)
  exact grouped_of_augmented? masked (balanced_of_mistake?_none correct).1 found

/-- An augmented assignment groups its right-hand side. The text that stands for its value is read
just if the right-hand side is read by itself, as deeply as texts may nest, and then it is the
operation of the target and the right-hand side, up to columns. -/
theorem augmented_groups {raw : Text} {number : Int} {line : Line}
    (classified : classify raw number = .ok line)
    (form : line.form = .assignment [target] side (some op)) (name : IsSingleName target)
    (shallow : Expr.read (assignedExpression [target] side (some op)) ≠ .error .tooDeep) :
    ((∃ e, Expr.read (assignedExpression [target] side (some op)) = .ok e)
        ↔ ∃ operand, Expr.read side = .ok operand) ∧
      ∀ e operand, Expr.read (assignedExpression [target] side (some op)) = .ok e →
        Expr.read side = .ok operand →
          e.bare = .binary 0 op (.name 0 target) operand.bare := by
  have grouped := grouped_of_classify classified form
  refine read_assignedExpression (isSingleName_iff.mp name) (fun tokens scanned => ?_) shallow
  obtain ⟨nested, balanced⟩ := nested_of_isBalanced scanned grouped.balanced
  exact ⟨nested, balanced, nextKind_of_scan scanned grouped.begins⟩

-- A tuple without brackets, with a bracket in a text, brackets of its own and a last comma.
theorem augmented_groups_tuple :
    let side := "(1), \"a)\" if b[0] else -(2),".toList
    ∃ line, classify "x *= (1), \"a)\" if b[0] else -(2),".toList 1 = .ok line ∧
      line.form = .assignment ["x".toList] side (some .mul) ∧ IsSingleName "x".toList ∧
      Expr.read (assignedExpression ["x".toList] side (some .mul)) ≠ .error .tooDeep ∧
      ∃ e operand, Expr.read (assignedExpression ["x".toList] side (some .mul)) = .ok e ∧
        Expr.read side = .ok operand ∧ e.bare = .binary 0 .mul (.name 0 "x".toList) operand.bare := by
  intro side
  have classified : classify "x *= (1), \"a)\" if b[0] else -(2),".toList 1
      = .ok ⟨1, "x *= (1), \"a)\" if b[0] else -(2),".toList,
        .assignment ["x".toList] side (some .mul)⟩ := by
    decide +kernel
  have name : IsSingleName "x".toList := isSingleName_iff.mpr (by decide)
  have readable :
      (Expr.read (assignedExpression ["x".toList] side (some .mul))).isOk = true := by
    decide +kernel
  cases whole : Expr.read (assignedExpression ["x".toList] side (some .mul)) with
  | error e =>
      rw [whole] at readable
      contradiction
  | ok e =>
      have shallow : Expr.read (assignedExpression ["x".toList] side (some .mul))
          ≠ .error .tooDeep := by
        rw [whole]
        nofun
      obtain ⟨both, same⟩ := augmented_groups classified rfl name shallow
      obtain ⟨operand, alone⟩ := both.mp ⟨e, whole⟩
      exact ⟨_, classified, rfl, name, nofun, e, operand, rfl, alone, same e operand whole alone⟩

end Line

end Snippet
