import Snippet.Eval.Evaluate
import Snippet.Proofs.Expr.Parts
import Snippet.Proofs.Program

/-!
How deep an expression may be evaluated plays no part in what its value is: with less depth an
evaluation does the same, or it is refused for want of depth. An expression that is no deeper than
it may be evaluated does the same for sure.
-/

set_option autoImplicit false

namespace Snippet

variable {α β : Type} {P : Prop}

namespace Eval

/-- The first evaluation does what the second one does, unless it is too deep and may be so. -/
def UpToDepth (P : Prop) (x y : Eval α) : Prop :=
  ∀ s, x s = y s ∨ P ∧ ∃ t, x s = .error (.breach .depth) t

namespace UpToDepth

variable {x y : Eval α} {f g : α → Eval β}

theorem refl (x : Eval α) : UpToDepth P x x :=
  fun _ => .inl rfl

theorem bind (first : UpToDepth P x y) (next : ∀ a, UpToDepth P (f a) (g a)) :
    UpToDepth P (x >>= f) (y >>= g) := by
  intro s
  rw [bind_eq, bind_eq]
  obtain same | ⟨may, t, refused⟩ := first s
  · rw [same]
    cases y s with
    | ok a t => exact next a t
    | error fault t => exact .inl rfl
  · rw [refused]
    exact .inr ⟨may, t, rfl⟩

theorem ite {c : Prop} [Decidable c] {x' y' : Eval α} (yes : UpToDepth P x y) (no : UpToDepth P x' y') :
    UpToDepth P (if c then x else x') (if c then y else y') := by
  split
  · exact yes
  · exact no

theorem mapM {f g : α → Eval β} {xs : List α} (each : ∀ a ∈ xs, UpToDepth P (f a) (g a)) :
    UpToDepth P (xs.mapM f) (xs.mapM g) := by
  induction xs with
  | nil => exact refl _
  | cons a rest ih =>
      obtain ⟨here, later⟩ := List.forall_mem_cons.mp each
      rw [List.mapM_cons, List.mapM_cons]
      exact here.bind fun b => (ih later).bind fun bs => refl _

end UpToDepth

end Eval

open Eval (UpToDepth)

namespace Evaluate

variable {env : Env} {eval eval' : Evaluator}

/-! ### One expression, given its parts -/

theorem part_upToDepth {p : Part} (each : ∀ e ∈ p.expr?, UpToDepth P (eval e) (eval' e)) :
    UpToDepth P (part eval p) (part eval' p) := by
  cases p with
  | text t => exact .refl _
  | field e conversion spec => exact (each e rfl).bind fun v => .refl _

theorem entries_upToDepth {es : List (Expr × Expr)}
    (each : ∀ e ∈ es, UpToDepth P (eval e.1) (eval' e.1) ∧ UpToDepth P (eval e.2) (eval' e.2))
    (done : Entries) : UpToDepth P (entries eval done es) (entries eval' done es) := by
  induction es generalizing done with
  | nil => exact .refl _
  | cons e rest ih =>
      obtain ⟨⟨ofKey, ofValue⟩, later⟩ := List.forall_mem_cons.mp each
      exact ofValue.bind fun v => ofKey.bind fun k => .ite (.refl _) (ih later _)

theorem links_upToDepth {ls : List (Comparison × Expr)}
    (each : ∀ l ∈ ls, UpToDepth P (eval l.2) (eval' l.2)) (left : Value) :
    UpToDepth P (links eval left ls) (links eval' left ls) := by
  induction ls generalizing left with
  | nil => exact .refl _
  | cons l rest ih =>
      obtain ⟨here, later⟩ := List.forall_mem_cons.mp each
      exact here.bind fun right => (UpToDepth.refl _).bind fun holds => .ite (ih later right) (.refl _)

theorem argumentsFrom_upToDepth {rest : List Argument}
    (each : ∀ a ∈ rest, UpToDepth P (eval a.2) (eval' a.2)) (args : List Value)
    (keywords : Bindings) :
    UpToDepth P (argumentsFrom eval args keywords rest) (argumentsFrom eval' args keywords rest) := by
  induction rest generalizing args keywords with
  | nil => exact .refl _
  | cons a rest ih =>
      obtain ⟨keyword, e⟩ := a
      obtain ⟨here, later⟩ := List.forall_mem_cons.mp each
      refine here.bind fun v => ?_
      cases keyword with
      | none => exact ih later _ _
      | some k => exact .ite (.refl _) (ih later _ _)

theorem optional_upToDepth {e : Option Expr} (each : ∀ i ∈ e, UpToDepth P (eval i) (eval' i)) :
    UpToDepth P (optional eval e) (optional eval' e) := by
  cases e with
  | none => exact .refl _
  | some i => exact (each i rfl).bind fun v => .refl _

theorem callMethod_upToDepth {base : Expr} {args : List Argument}
    (ofBase : UpToDepth P (eval base) (eval' base))
    (each : ∀ a ∈ args, UpToDepth P (eval a.2) (eval' a.2)) (id : Text) :
    UpToDepth P (callMethod eval base id args) (callMethod eval' base id args) :=
  ofBase.bind fun _ => (argumentsFrom_upToDepth each [] []).bind fun _ => .refl _

theorem callFunction_upToDepth (env : Env) {func : Expr} {args : List Argument}
    (ofFunc : UpToDepth P (eval func) (eval' func))
    (each : ∀ a ∈ args, UpToDepth P (eval a.2) (eval' a.2)) :
    UpToDepth P (callFunction env eval func args) (callFunction env eval' func args) :=
  ofFunc.bind fun _ => (argumentsFrom_upToDepth each [] []).bind fun _ => .refl _

-- A call of a method evaluates a part of a part.
theorem step_upToDepth {e : Expr}
    (inner : ∀ p ∈ e.parts, ∀ q ∈ p :: p.parts, UpToDepth P (eval q) (eval' q)) :
    UpToDepth P (step env eval e) (step env eval' e) := by
  have parts (p : Expr) (member : p ∈ e.parts) : UpToDepth P (eval p) (eval' p) :=
    inner p member p List.mem_cons_self
  cases e with
  | literal | name => exact .refl _
  | formatted column ps =>
      refine (UpToDepth.mapM fun p member => part_upToDepth fun e same => ?_).bind fun vs => .refl _
      exact parts e (List.mem_filterMap.mpr ⟨p, member, same⟩)
  | list column items => exact (UpToDepth.mapM parts).bind fun vs => .refl _
  | tuple column items => exact (UpToDepth.mapM parts).bind fun vs => .refl _
  | dict column es =>
      refine (entries_upToDepth (fun e member => ?_) []).bind fun es => .refl _
      have ofEntry (p : Expr) (member' : p ∈ [e.2, e.1]) :=
        parts p (List.mem_flatMap.mpr ⟨e, member, member'⟩)
      exact ⟨ofEntry e.1 (by simp), ofEntry e.2 (by simp)⟩
  | unary column op e => exact (parts e (by simp [Expr.parts])).bind fun v => .refl _
  | member column base id => exact (parts base (by simp [Expr.parts])).bind fun v => .refl _
  | binary column op left right =>
      exact (parts left (by simp [Expr.parts])).bind fun a =>
        (parts right (by simp [Expr.parts])).bind fun b => .refl _
  | bool column op left right =>
      exact (parts left (by simp [Expr.parts])).bind fun v => (UpToDepth.refl _).bind fun holds =>
        .ite (.refl _) (parts right (by simp [Expr.parts]))
  | compare column first rest =>
      obtain ⟨ofFirst, ofRest⟩ := List.forall_mem_cons.mp parts
      refine ofFirst.bind fun v => (links_upToDepth (fun l member => ?_) v).bind fun b => .refl _
      exact ofRest l.2 (List.mem_map_of_mem member)
  | conditional column test body orelse =>
      exact (parts test (by simp [Expr.parts])).bind fun v => (UpToDepth.refl _).bind fun holds =>
        .ite (parts body (by simp [Expr.parts])) (parts orelse (by simp [Expr.parts]))
  | index column base sub =>
      cases sub with
      | item e =>
          exact (parts base (by simp [Expr.parts])).bind fun v =>
            (parts e (by simp [Expr.parts])).bind fun i => .refl _
      | slice column' lower upper step =>
          have ofLower := optional_upToDepth (e := lower) fun i same =>
            parts i (by simp [Expr.parts, Option.mem_def.mp same])
          have ofUpper := optional_upToDepth (e := upper) fun i same =>
            parts i (by simp [Expr.parts, Option.mem_def.mp same])
          have ofStep := optional_upToDepth (e := step) fun i same =>
            parts i (by simp [Expr.parts, Option.mem_def.mp same])
          refine (parts base (by simp [Expr.parts])).bind fun v => UpToDepth.bind ?_ fun s => .refl _
          exact ofLower.bind fun l => ofUpper.bind fun u => ofStep.bind fun s => .refl _
  | call column func args =>
      obtain ⟨ofFunc, ofArgs⟩ := List.forall_mem_cons.mp parts
      have each : ∀ a ∈ args, UpToDepth P (eval a.2) (eval' a.2) :=
        fun a member => ofArgs a.2 (List.mem_map_of_mem member)
      have other := callFunction_upToDepth env ofFunc each
      cases func with
      | member column' base id =>
          have ofBase := inner (.member column' base id) List.mem_cons_self base (by simp [Expr.parts])
          exact callMethod_upToDepth ofBase each id
      | _ => exact other

end Evaluate

namespace Expr

/-- How deep an expression is nested. -/
def height (e : Expr) : Nat :=
  e.gather (fun part total => max (part + 1) total) fun _ => 1

theorem height_eq (e : Expr) :
    e.height = (e.parts.map height).foldr (fun part total => max (part + 1) total) 1 :=
  gather_eq _ _ e

theorem height_lt_of_mem_parts {e p : Expr} (member : p ∈ e.parts) : p.height < e.height := by
  have each (heights : List Nat) (h : Nat) (member : h ∈ heights) :
      h < heights.foldr (fun part total => max (part + 1) total) 1 := by
    induction heights with
    | nil => cases member
    | cons k rest ih =>
        rw [List.foldr_cons]
        obtain rfl | later := List.mem_cons.mp member
        · omega
        · have := ih later
          omega
  rw [height_eq e]
  exact each _ _ (List.mem_map_of_mem member)

theorem height_pos (e : Expr) : 0 < e.height := by
  rw [height_eq]
  induction e.parts.map height with
  | nil => exact Nat.one_pos
  | cons k rest ih => exact Nat.lt_of_lt_of_le ih (Nat.le_max_right _ _)

end Expr

namespace Evaluate

variable {env : Env}

/-- With less depth an evaluation does the same, or is refused; it is not refused if there is as
much depth as the expression has. -/
theorem evalAt_upToDepth {less more : Nat} {e : Expr} (fits : P ∨ e.height ≤ less) (le : less ≤ more) :
    UpToDepth P (evalAt env less e) (evalAt env more e) := by
  induction less generalizing more e with
  | zero =>
      obtain may | fits := fits
      · exact fun s => .inr ⟨may, s, rfl⟩
      · exact absurd fits (Nat.not_le_of_gt e.height_pos)
  | succ less ih =>
      obtain ⟨more, rfl⟩ := Nat.exists_eq_add_of_le' (Nat.lt_of_lt_of_le (Nat.succ_pos less) le)
      refine step_upToDepth fun p ofE q ofP => ih ?_ (Nat.le_of_succ_le_succ le)
      refine fits.imp_right fun fits => ?_
      have below := Expr.height_lt_of_mem_parts ofE
      obtain rfl | ofP := List.mem_cons.mp ofP
      · omega
      · have further := Expr.height_lt_of_mem_parts ofP
        omega

end Evaluate

end Snippet
