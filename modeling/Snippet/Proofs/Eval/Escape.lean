import Snippet.Proofs.Eval.Accepted
import Snippet.Proofs.Program
import Snippet.Proofs.Value.Written

/-!
Failures that escape an evaluation. Every failure is settled except two: memory that ran out, and a
missing key that cannot be written, since the key is written to word the failure.
-/

set_option autoImplicit false

namespace Snippet

open Value (Unwritable)

variable {α β : Type}

-- The failures of an evaluation that are not settled.
def Fault.Escapes (s : Store) : Fault → Prop
  | .breach .memory => True
  | .missingKey key => Unwritable s key
  | _ => False

def Eval.Escapes (m : Eval α) (s : Store) : Prop :=
  Ends (fun fault s' => fault.Escapes s') m s

namespace Session

def Escapes (m : Session α) (s : Store) : Prop :=
  Ends (fun stop _ => ∃ b, stop = .escaped b) m s

theorem stopOf_escaped (s : Store) (fault : Fault) :
    (∃ b, stopOf s fault = .escaped b) ↔ fault.Escapes s := by
  cases fault with
  | cause c => simp [stopOf, Fault.Escapes]
  | breach b => cases b <;> simp [stopOf, Fault.Escapes]
  | missingKey key =>
      show _ ↔ Unwritable s key
      rw [← Value.fails_written, stopOf]
      cases Value.written s key with
      | ok shown => simp
      | error b => simp [fails_error]

theorem escapes_guarded (m : Eval α) (s : Store) : Escapes (guarded m) s ↔ m.Escapes s := by
  cases ended : m s with
  | ok a s' =>
      have settled : guarded m s = .ok a s' := by rw [guarded, ended]
      simp only [Escapes, Eval.Escapes, not_ends_of_ok ended, not_ends_of_ok settled]
  | error fault s' =>
      have settled : guarded m s = .error (stopOf s' fault) s' := by rw [guarded, ended]
      rw [Escapes, Eval.Escapes, ends_of_error ended, ends_of_error settled, stopOf_escaped]

end Session

-- A text that cannot be read is an answer, so only what was read can escape.
theorem Eval.escapes_reading (r : Except ReadError α) (k : α → Eval β) (s : Store) :
    Eval.Escapes (Evaluate.reading r >>= k) s ↔ ∃ a, r = .ok a ∧ (k a).Escapes s := by
  cases r with
  | ok a =>
      have same : Evaluate.reading (.ok a) s = .ok a s := rfl
      rw [Eval.Escapes, ends_bind_of_ok same]
      simp [Eval.Escapes]
  | error e =>
      have settled : ∃ fault, Evaluate.reading (α := α) (.error e) s = .error fault s
          ∧ ¬ fault.Escapes s := by
        cases e
        case tooDeep => exact ⟨.breach .depth, rfl, id⟩
        all_goals exact ⟨.cause _, rfl, id⟩
      obtain ⟨fault, ended, answered⟩ := settled
      rw [Eval.Escapes, ends_bind]
      simp [ended, ends_of_error ended, answered]

namespace Session

theorem escapes_evaluate (env : Env) (t : Text) (s : Store) :
    Escapes (evaluate env t) s ↔
      ∃ e, Expr.read t = .ok e ∧ (Evaluate.eval env e).Escapes s := by
  rw [evaluate, escapes_guarded, Eval.escapes_reading]

theorem escapes_evaluateArguments (env : Env) (t : Text) (s : Store) :
    Escapes (evaluateArguments env t) s ↔
      ∃ args, Expr.readArguments t = .ok args ∧
        (Evaluate.arguments (Evaluate.eval env) args).Escapes s := by
  rw [evaluateArguments, escapes_guarded, Eval.escapes_reading]

theorem escapes_storeItem (env : Env) (target : Text) (value : Value) (s : Store) :
    Escapes (storeItem env target value) s ↔ (Evaluate.assignItem env target value).Escapes s := by
  rw [storeItem, escapes_guarded]

theorem not_escapes_display (v : Value) (s : Store) : ¬ Escapes (display v) s := by
  rw [display, escapes_guarded]
  rintro ⟨fault, s', ended, escapes⟩
  rw [bind_eq, Value.checkWeight_apply] at ended
  by_cases heavy : (v.isContainer && Value.weight s maxLength v > maxLength) = true
  · rw [if_pos heavy] at ended
    cases ended
    exact escapes
  · rw [if_neg heavy] at ended
    have rendered : Eval.lift (Value.shown s v) s = .error fault s' := ended
    cases written : Value.shown s v with
    | ok t =>
        rw [written] at rendered
        cases rendered
    | error b =>
        rw [written] at rendered
        cases rendered
        obtain rfl | rfl := Value.shown_error written <;> exact escapes

end Session

end Snippet
