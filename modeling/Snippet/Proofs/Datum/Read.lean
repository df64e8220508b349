import Mathlib.Data.Nat.Digits.Defs
import Snippet.Proofs.Datum.Written
import Snippet.Proofs.Expr.RoundTrip

/-!
Reading what is written for data. It is the expression for the datum, as long as its brackets are
not nested too deeply.
-/

set_option autoImplicit false

namespace Snippet

open Grammar (Layout maxOf)

variable {d : Datum}

theorem length_digitsOf_le {n : Nat} (short : n < decimalCap) :
    (digitsOf n).length ≤ maxDecimalDigits := by
  have positive : 0 < maxDecimalDigits := by decide
  unfold decimalCap at short
  -- The power is too large to be evaluated.
  generalize maxDecimalDigits = k at *
  exact Nat.toDigits_length 10 n k positive short

theorem Datum.Literal.plain (literal : d.Literal) : d.expr.Plain := by
  induction literal with
  | none => exact .literal trivial
  | bool b => exact .literal trivial
  | @int n short =>
      have digits : Literal.IsPlain (.int n.natAbs) := length_digitsOf_le short
      show (if n < 0 then _ else _ : Expr).Plain
      split
      · exact .unary (.literal digits)
      · exact .literal digits
  | text legible => exact .literal trivial
  | list _ ih =>
      rw [Datum.expr_list]
      exact .list (List.forall_mem_map.mpr ih)
  | tuple _ ih =>
      rw [Datum.expr_tuple]
      exact .tuple (List.forall_mem_map.mpr ih)
  | dict _ _ _ _ ihKeys ihValues =>
      rw [Datum.expr_dict]
      exact .dict (List.forall_mem_map.mpr ihKeys) (List.forall_mem_map.mpr ihValues)

/-- The steps that reading an expression takes, for so deep a nesting: eleven levels for each
bracket, and one more for a sign. -/
def stepsFor (nesting : Nat) : Nat :=
  11 * nesting + 12

theorem stepsFor_mono {m n : Nat} (le : m ≤ n) : stepsFor m ≤ stepsFor n := by
  rw [stepsFor, stepsFor]
  omega

theorem Grammar.nesting_whole_le {opening closing : TokenKind} {inner : List Symbol}
    {nestings : List Nat} {n : Nat} (each : ∀ k ∈ nestings, k ≤ stepsFor n) :
    (Layout.enclosed opening closing inner nestings).whole.nesting ≤ stepsFor (1 + n) := by
  have inside : (Layout.enclosed opening closing inner nestings).nesting ≤ stepsFor n + 1 :=
    nesting_enclosed_le.mpr each
  show 10 - 0 + (Layout.enclosed opening closing inner nestings).nesting ≤ _
  rw [stepsFor] at inside ⊢
  omega

namespace Datum

theorem Literal.nesting_layout (literal : d.Literal) :
    d.expr.layout.whole.nesting ≤ stepsFor d.nesting := by
  induction literal with
  | none => exact (by decide : 11 ≤ 12)
  | bool b => cases b <;> exact (by decide : 11 ≤ 12)
  | @int n short =>
      show (if n < 0 then _ else _ : Expr).layout.whole.nesting ≤ _
      split
      · exact (by decide : 12 ≤ 12)
      · exact (by decide : 11 ≤ 12)
  | text legible => exact (by decide : 11 ≤ 12)
  -- Each part is within its own bound, and bounds rise with the nesting.
  | @list items _ ih =>
      rw [expr_list, nesting_list, Expr.layout, layouts_eq, List.map_map]
      refine Grammar.nesting_whole_le (List.forall_mem_map.mpr (List.forall_mem_map.mpr ?_))
      exact fun d member => (ih d member).trans (stepsFor_mono (le_nesting member))
  | @tuple items _ ih =>
      rw [expr_tuple, nesting_tuple, Expr.layout, layouts_eq, List.map_map]
      refine Grammar.nesting_whole_le (List.forall_mem_map.mpr (List.forall_mem_map.mpr ?_))
      exact fun d member => (ih d member).trans (stepsFor_mono (le_nesting member))
  | @dict entries _ _ _ _ ihKeys ihValues =>
      rw [expr_dict, nesting_dict, Expr.layout, entryLayouts_eq, List.map_map]
      refine Grammar.nesting_whole_le (List.forall_mem_flatMap.mpr (List.forall_mem_map.mpr ?_))
      intro e member
      obtain ⟨key, value⟩ := Nat.max_le.mp (le_nesting_entries member)
      exact List.forall_mem_cons.mpr ⟨(ihKeys e member).trans (stepsFor_mono key),
        List.forall_mem_singleton.mpr ((ihValues e member).trans (stepsFor_mono value))⟩

/-- However a datum is written, it is read back. -/
theorem Literal.read {t : Text} (literal : d.Literal) (shallow : d.nesting ≤ 60)
    (written : d.IsWritten t) : (Expr.read t).map Expr.bare = .ok d.expr.bare := by
  have spelled := written [] [] (@Spells.nil [] rfl) nofun
  rw [List.append_nil, List.append_nil] at spelled
  refine ((Expr.read_spelled literal.plain).2 t spelled).1 (literal.nesting_layout.trans ?_)
  exact (stepsFor_mono shallow).trans (by decide)

end Datum

end Snippet
