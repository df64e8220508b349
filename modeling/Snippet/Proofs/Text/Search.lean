import Mathlib.Algebra.BigOperators.Group.List.Basic
import Mathlib.Algebra.Ring.Nat
import Snippet.Text.Search

/-!
How long the texts are that joining and replacing build.
-/

set_option autoImplicit false

namespace Snippet.Text

theorem length_join (sep : Text) (pieces : List Text) :
    (join sep pieces).length
      = (pieces.map List.length).sum + sep.length * (pieces.length - 1) := by
  induction pieces with
  | nil => rfl
  | cons piece rest ih =>
      cases rest with
      | nil => simp [join]
      | cons next rest =>
          rw [join_cons _ _ (List.cons_ne_nil _ _), List.length_append, List.length_append, ih]
          simp only [List.map_cons, List.sum_cons, List.length_cons, Nat.add_sub_cancel,
            Nat.mul_add, Nat.mul_one]
          omega

-- A limit that allows more cuts makes no fewer pieces.
theorem length_cutFrom_le (sep : Text) {limit more : Nat} (le : limit ≤ more) (skip : Nat)
    (hints : List Bool) (piece t : Text) :
    (cutFrom sep limit skip hints piece t).length
      ≤ (cutFrom sep more skip hints piece t).length := by
  induction t generalizing limit more skip hints piece with
  | nil => simp [cutFrom]
  | cons c rest ih =>
      cases skip with
      | succ skip =>
          rw [cutFrom, cutFrom]
          exact ih le skip hints.tail piece
      | zero =>
          cases limit with
          | zero =>
              rw [cutFrom]
              exact List.length_pos_iff.mpr (cutFrom_ne_nil _ _ _ _ _ _)
          | succ limit =>
              obtain ⟨more, rfl⟩ : ∃ fewer, more = fewer + 1 := ⟨more - 1, by omega⟩
              rw [cutFrom, cutFrom]
              split
              · exact Nat.succ_le_succ (ih (Nat.le_of_succ_le_succ le) ..)
              · exact ih le 0 hints.tail (c :: piece)

theorem length_interleave (new : Text) (limit : Nat) (t : Text) :
    (interleave new limit t).length = t.length + new.length * min limit (t.length + 1) := by
  induction t generalizing limit with
  | nil => cases limit <;> simp [interleave]
  | cons c rest ih =>
      cases limit with
      | zero => simp [interleave]
      | succ limit =>
          rw [interleave, List.length_append, List.length_cons, ih, List.length_cons,
            Nat.add_min_add_right, Nat.mul_add]
          omega

/-- Replacing makes room for each occurrence at most. -/
theorem length_replace_le (old new : Text) {limit : Nat} {t : Text} (few : limit ≤ t.length + 1) :
    (replace old new limit t).length
      ≤ t.length + count old t * (new.length - old.length) := by
  rw [replace, count]
  split
  case isTrue empty =>
    rw [List.isEmpty_iff.mp empty, length_interleave, Nat.mul_comm new.length]
    have cuts := Nat.mul_le_mul_right new.length (Nat.min_le_right limit (t.length + 1))
    simpa using cuts
  case isFalse some_old =>
    let pieces := cut old limit t
    let cuts := pieces.length - 1
    have few_cuts : cuts ≤ (cutAll old t).length - 1 :=
      Nat.sub_le_sub_right (length_cutFrom_le old few 0 (startHints old t) [] t) 1
    have taken : (pieces.map List.length).sum + old.length * cuts = t.length := by
      rw [← length_join, join_cut old t limit (by simpa using some_old)]
    have longer : new.length ≤ old.length + (new.length - old.length) := by omega
    calc (join new pieces).length
        = (pieces.map List.length).sum + new.length * cuts := length_join ..
      _ ≤ (pieces.map List.length).sum
            + (old.length + (new.length - old.length)) * cuts :=
          Nat.add_le_add_left (Nat.mul_le_mul_right cuts longer) _
      _ = t.length + cuts * (new.length - old.length) := by
          rw [Nat.add_mul, ← Nat.add_assoc, taken, Nat.mul_comm cuts]
      _ ≤ _ := Nat.add_le_add_left (Nat.mul_le_mul_right _ few_cuts) _

end Snippet.Text
