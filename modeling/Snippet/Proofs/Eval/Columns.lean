import Snippet.Eval.Evaluate
import Snippet.Proofs.Expr.Layout

/-!
Columns play no part in evaluating: an expression gives what it gives without its columns.
-/

set_option autoImplicit false

namespace Snippet.Evaluate

variable {env : Env} {eval : Evaluator}

section Bare

variable (same : ∀ e, eval e.bare = eval e)
include same

theorem entries_bare (done : Entries) (es : List (Expr × Expr)) :
    entries eval done (bareEntries es) = entries eval done es := by
  induction es generalizing done with
  | nil => rfl
  | cons e rest ih => simp only [bareEntries, entries, same, ih]

theorem links_bare (left : Value) (ls : List (Comparison × Expr)) :
    links eval left (bareLinks ls) = links eval left ls := by
  induction ls generalizing left with
  | nil => rfl
  | cons l rest ih => simp only [bareLinks, links, same, ih]

theorem argumentsFrom_bare (args : List Value) (keywords : Bindings) (rest : List Argument) :
    argumentsFrom eval args keywords (bareArguments rest) =
      argumentsFrom eval args keywords rest := by
  induction rest generalizing args keywords with
  | nil => rfl
  | cons a rest ih =>
      obtain ⟨_ | k, e⟩ := a
      · simp only [bareArguments, argumentsFrom, same, ih]
      · simp only [bareArguments, argumentsFrom, same, ih]

theorem optional_bare (e : Option Expr) : optional eval (bareOption e) = optional eval e := by
  cases e with
  | none => rfl
  | some e => simp only [bareOption, optional, same]

theorem index_bare (base : Value) (sub : Subscript) :
    index eval base sub.bare = index eval base sub := by
  cases sub with
  | item e => simp only [Subscript.bare, index, same]
  | slice c lower upper step =>
      simp only [Subscript.bare, index, slice, optional_bare same]

theorem part_bare (p : Part) : part eval p.bare = part eval p := by
  cases p with
  | text t => rfl
  | field e conversion spec => simp only [Part.bare, part, same]

theorem mapM_part_bare (parts : List Part) :
    (bareParts parts).mapM (part eval) = parts.mapM (part eval) := by
  induction parts with
  | nil => rfl
  | cons p rest ih => rw [bareParts, List.mapM_cons, List.mapM_cons, part_bare same, ih]

theorem mapM_bare (items : List Expr) : (bareItems items).mapM eval = items.mapM eval := by
  induction items with
  | nil => rfl
  | cons e rest ih => rw [bareItems, List.mapM_cons, List.mapM_cons, same, ih]

theorem callFunction_bare (func : Expr) (args : List Argument) :
    callFunction env eval func.bare (bareArguments args) = callFunction env eval func args := by
  simp only [callFunction, arguments, same, argumentsFrom_bare same]

theorem step_bare (e : Expr) : step env eval e.bare = step env eval e := by
  cases e with
  | literal c v => rfl
  | name c id => rfl
  | formatted c parts => simp only [Expr.bare, step, mapM_part_bare same]
  | list c items => simp only [Expr.bare, step, mapM_bare same]
  | tuple c items => simp only [Expr.bare, step, mapM_bare same]
  | dict c es => simp only [Expr.bare, step, entries_bare same]
  | unary c op e => simp only [Expr.bare, step, same]
  | bool c op left right => simp only [Expr.bare, step, same]
  | binary c op left right => simp only [Expr.bare, step, same]
  | compare c first rest => simp only [Expr.bare, step, same, links_bare same]
  | conditional c test body orelse => simp only [Expr.bare, step, same]
  | index c base sub => simp only [Expr.bare, step, same, index_bare same]
  | member c base id => simp only [Expr.bare, step, same]
  | call c func args =>
      cases func with
      | member d base id =>
          simp only [Expr.bare, step, callMethod, arguments, same, argumentsFrom_bare same]
      | _ => exact callFunction_bare same _ args

end Bare

theorem evalAt_bare (budget : Nat) (e : Expr) :
    evalAt env budget e.bare = evalAt env budget e := by
  induction budget generalizing e with
  | zero => rfl
  | succ budget ih => exact step_bare ih e

/-- A text that is read as an expression, up to its columns, has the value of that expression. -/
theorem evaluate_of_read {t : Text} {e : Expr} (read : (Expr.read t).map Expr.bare = .ok e.bare) :
    Session.evaluate env t = Session.guarded (Evaluate.eval env e) := by
  cases ran : Expr.read t with
  | error fault =>
      rw [ran] at read
      cases read
  | ok e' =>
      rw [ran] at read
      have bare : e'.bare = e.bare := Except.ok.inj read
      have same : Evaluate.eval env e' = Evaluate.eval env e := by
        rw [Evaluate.eval, ← evalAt_bare, bare, evalAt_bare]
      rw [Session.evaluate, ran, ← same]
      rfl

end Snippet.Evaluate
