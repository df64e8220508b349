import Snippet.Proofs.Eval.Extending
import Snippet.Proofs.Run.Frame

/-!
Expressions that are only read. Unless it calls one of the methods that change their receiver, an
expression leaves the machine as it was, but for new lists and dicts in the store. What sums,
products, slices and copies give is such a new list.
-/

set_option autoImplicit false

namespace Snippet

variable {α : Type}

namespace Expr

/-- Calls a method that changes its receiver. -/
def CallsChanging : Expr → Prop
  | .call _ (.member _ _ id) _ => ∃ word ∈ Method.changing, id = word.toList
  | _ => False

/-- No changing method is called anywhere in the expression. -/
def IsReadOnly (e : Expr) : Prop :=
  e.Everywhere fun p => ¬ p.CallsChanging

theorem IsReadOnly.isQuiet {env : Env} (core : env.builtins = Builtin.core) {e : Expr}
    (readOnly : e.IsReadOnly) : e.Everywhere (·.IsQuiet env) := by
  refine readOnly.imp fun p unchanging => ?_
  have settled : ∀ b ∈ env.builtins, ∀ args keywords, Extending (b.run args keywords) :=
    fun b known => Builtin.extending_core (core ▸ known)
  cases p with
  | call column func args =>
      cases func with
      | member start base id =>
          exact fun word changing same => unchanging ⟨word, changing, same⟩
      | _ => exact settled
  | _ => trivial

end Expr

namespace Session

theorem extending_guarded {m : Eval α} (h : Extending m) : Extending (guarded m) := by
  intro s
  have after := h s
  unfold guarded
  cases ran : m s <;> simpa only [ran] using after

theorem extending_evaluate {env : Env} {t : Text}
    (quiet : ∀ e, Expr.read t = .ok e → e.Everywhere (·.IsQuiet env)) :
    Extending (evaluate env t) := by
  refine extending_guarded ?_
  cases read : Expr.read t with
  | ok e => exact Evaluate.extending_evalAt (quiet e read) Evaluate.evalBudget
  | error r => cases r <;> exact .throw _

end Session

namespace Exec

-- The store is all that an evaluation can change.
theorem machineOf_attempt (setup : Setup) (f : Env → Session α) (m : Machine) :
    ∃ s, machineOf (attempt setup f m) = { m with store := s } ∧
      (Extending (f (m.env setup)) → m.store.Extends s) := by
  unfold attempt
  cases ran : f (m.env setup) m.store with
  | ok a s => exact ⟨s, rfl, fun h => h.ok ran⟩
  | error stop s => cases stop <;> exact ⟨s, rfl, fun h => h.error ran⟩

end Exec

/-- An expression that calls no changing method leaves all names and the contents of all lists and
dicts as they were, whether it has a value or not. What joins, repeats, cuts or copies a list gives
a new one, so that no change to it is seen in an old one. -/
theorem readOnly_extends {e : Expr} (readOnly : e.IsReadOnly) :
    (∀ env budget, env.builtins = Builtin.core → Extending (Evaluate.evalAt env budget e)) ∧
    (∀ setup t m, setup.builtins = Builtin.core → Expr.read t = .ok e →
      ∃ s, Exec.machineOf (Exec.attempt setup (fun env => Session.evaluate env t) m)
          = { m with store := s } ∧ m.store.Extends s) ∧
    ∀ m, Eval.Copying m → ∀ s v s', m s = .ok v s' →
      ∃ r, v = .list r ∧ s.lists.size ≤ r ∧ r < s'.lists.size ∧
        ∀ items, s.Extends (s'.setItems r items) := by
  refine ⟨fun env budget core => ?_, fun setup t m core read => ?_, fun m copying s v s' ran => ?_⟩
  · exact Evaluate.extending_evalAt (readOnly.isQuiet core) budget
  · obtain ⟨s, left, extends_⟩ :=
      Exec.machineOf_attempt setup (fun env => Session.evaluate env t) m
    refine ⟨s, left, extends_ (Session.extending_evaluate fun other same => ?_)⟩
    rw [read] at same
    cases same
    exact readOnly.isQuiet core
  · obtain ⟨r, rfl, new, inside⟩ := copying.fresh s v s' ran
    exact ⟨r, rfl, new, inside, (copying.extending.ok ran).setItems_new new⟩

-- A list is sorted, copied and joined with itself.
theorem readOnly_extends_sorted_copy :
    let xs : Expr := .name 0 "xs".toList
    let e : Expr := .binary 0 .add (.call 0 (.name 0 "sorted".toList) [(none, xs)])
      (.call 0 (.member 0 xs "copy".toList) [])
    e.IsReadOnly ∧ ∀ budget, Extending (Evaluate.evalAt ⟨.empty, Builtin.core⟩ budget e) := by
  intro xs e
  have plain (name : Text) : (Expr.name 0 name).IsReadOnly := .intro id nofun
  have sorted : (Expr.call 0 (.name 0 "sorted".toList) [(none, xs)]).IsReadOnly :=
    .intro id (List.forall_mem_cons.mpr ⟨plain _, List.forall_mem_singleton.mpr (plain _)⟩)
  have copied : (Expr.call 0 (.member 0 xs "copy".toList) []).IsReadOnly := by
    refine .intro (by simp [Expr.CallsChanging, Method.changing]) ?_
    exact List.forall_mem_singleton.mpr (.intro id (List.forall_mem_singleton.mpr (plain _)))
  have readOnly : e.IsReadOnly :=
    .intro id (List.forall_mem_cons.mpr ⟨sorted, List.forall_mem_singleton.mpr copied⟩)
  exact ⟨readOnly, fun budget => (readOnly_extends readOnly).1 _ budget rfl⟩

end Snippet
