import Snippet.Proofs.Eval.Assigned

/-!
Evaluations under two tables of functions. A table is asked for the names in the source and for the
functions that values stand for. Where another table has the same functions for these, everything is
evaluated alike. The limits of an evaluation know the functions that its values stand for.
-/

set_option autoImplicit false

namespace Snippet

open Eval (Safe SafeAt)
open Value (weight)

variable {α β : Type} {w w' : Limits} {k chars : Nat} {s s' : Store} {v : Value}

def Env.withTable (env : Env) (table : List Builtin) : Env :=
  { env with builtins := table }

/-- Both tables have the same function for a name, or none. -/
def Env.Shares (env : Env) (table : List Builtin) (id : Text) : Prop :=
  Builtin.find? table id = Builtin.find? env.builtins id

/-- All that an expression may use is within limits, and another table has the functions that values
may stand for. -/
structure Env.Shared (w : Limits) (chars : Nat) (table : List Builtin) (env : Env) : Prop
    extends env.Within w chars where
  shares : ∀ id ∈ w.functions, env.Shares table id

theorem Env.Shared.grow {env : Env} {table : List Builtin} (shared : env.Shared w chars table)
    (grows : w.Grows k w') : env.Shared w' chars table where
  toWithin := shared.toWithin.grow grows
  shares id known := shared.shares id (grows.functions ▸ known)

section Programs

variable {ε : Type} {m m' : EStateM ε Store α} {next next' : α → EStateM ε Store β}
  {P : Limits → α → Prop}

-- What follows has to agree only where the first program may end.
theorem Eval.SafeAt.bind_same (safe : SafeAt w k s m P) (first : m' s = m s)
    (then_ : ∀ w' a s', w.Grows k w' → s'.Within w' → P w' a → next' a s' = next a s') :
    (m' >>= next') s = (m >>= next) s := by
  rw [Snippet.bind_same first]
  refine bind_same_of_ok fun a s' ran => ?_
  rw [SafeAt, ran] at safe
  obtain ⟨w', grows, held, holds⟩ := safe
  exact then_ w' a s' grows held holds

end Programs

namespace Evaluate

variable {env : Env} {table : List Builtin} {eval eval' : Evaluator}

/-- An expression is evaluated within limits, and alike under both tables. -/
structure IsShared (env : Env) (chars : Nat) (table : List Builtin) (eval eval' : Evaluator)
    (e : Expr) : Prop where
  safe : IsSafe env chars eval e
  same : ∀ w s, env.Shared w chars table → s.Within w → eval' e s = eval e s

-- What follows has to agree only on values and stores within the limits that the expression leaves.
theorem IsShared.bind_same {e : Expr} {next next' : Value → Eval β}
    (of_e : IsShared env chars table eval eval' e) (shared : env.Shared w chars table)
    (held : s.Within w)
    (then_ : ∀ w' v s', env.Shared w' chars table → s'.Within w' → v.Within w' →
      next' v s' = next v s') :
    (eval' e >>= next') s = (eval e >>= next) s :=
  (of_e.safe w shared.toWithin s held).bind_same (of_e.same w s shared held)
    fun w' v s' grows held' of_v => then_ w' v s' (shared.grow grows) held' of_v

theorem name_same {id : Text} (shares : env.Shares table id) :
    name (env.withTable table) id = name env id := by
  have found : Builtin.find? (env.withTable table).builtins id = Builtin.find? env.builtins id :=
    shares
  rw [name, name, found]
  rfl

section Parts

variable (shared : env.Shared w chars table) (held : s.Within w)
include shared held

theorem mapM_same {items : List Expr} (each : ∀ e ∈ items, IsShared env chars table eval eval' e) :
    items.mapM eval' s = items.mapM eval s := by
  induction items generalizing w s with
  | nil => rfl
  | cons e rest ih =>
      obtain ⟨here, later⟩ := List.forall_mem_cons.mp each
      rw [List.mapM_cons, List.mapM_cons]
      exact here.bind_same shared held fun w' v s' shared' held' _ =>
        bind_same (ih shared' held' later)

theorem part_same {p : Part} (each : ∀ e ∈ p.expr?, IsShared env chars table eval eval' e) :
    part eval' p s = part eval p s := by
  cases p with
  | text t => rfl
  | field e conversion spec => exact bind_same ((each e rfl).same w s shared held)

theorem parts_same {ps : List Part}
    (each : ∀ e ∈ ps.filterMap Part.expr?, IsShared env chars table eval eval' e) :
    ps.mapM (part eval') s = ps.mapM (part eval) s := by
  induction ps generalizing w s with
  | nil => rfl
  | cons p rest ih =>
      obtain ⟨here, later⟩ := List.forall_mem_cons.mp (List.forall_mem_filterMap.mp each)
      have safe := safe_part (fun e same => (here e same).safe) shared.toWithin s held
      rw [List.mapM_cons, List.mapM_cons]
      refine safe.bind_same (part_same shared held here) fun w' v s' grows held' _ => ?_
      exact bind_same (ih (shared.grow grows) held' (List.forall_mem_filterMap.mpr later))

theorem entries_same {es : List (Expr × Expr)}
    (keys : ∀ e ∈ es, IsShared env chars table eval eval' e.1)
    (values : ∀ e ∈ es, IsShared env chars table eval eval' e.2) (done : Entries) :
    entries eval' done es s = entries eval done es s := by
  induction es generalizing w s done with
  | nil => rfl
  | cons e rest ih =>
      obtain ⟨key, later_keys⟩ := List.forall_mem_cons.mp keys
      obtain ⟨value, later_values⟩ := List.forall_mem_cons.mp values
      refine value.bind_same shared held fun w' v s' shared' held' _ => ?_
      refine key.bind_same shared' held' fun w'' k s'' shared'' held'' _ => ?_
      split
      · rfl
      · exact ih shared'' held'' later_keys later_values _

theorem links_same {ls : List (Comparison × Expr)}
    (each : ∀ l ∈ ls, IsShared env chars table eval eval' l.2) (left : Value) :
    links eval' left ls s = links eval left ls s := by
  induction ls generalizing w s left with
  | nil => rfl
  | cons l rest ih =>
      obtain ⟨here, later⟩ := List.forall_mem_cons.mp each
      refine here.bind_same shared held fun w' right s' shared' held' _ => ?_
      have compared := ((Operator.plain_compare l.1 left right).keeps_any (w := w')).safe
        (Q := fun _ _ => True) s' held'
      refine compared.bind_same rfl fun w'' holds s'' more held'' _ => ?_
      split
      · exact ih (shared'.grow more) held'' later right
      · rfl

theorem argumentsFrom_same {args : List Argument}
    (each : ∀ a ∈ args, IsShared env chars table eval eval' a.2) (done : List Value)
    (keywords : Bindings) :
    argumentsFrom eval' done keywords args s = argumentsFrom eval done keywords args s := by
  induction args generalizing w s done keywords with
  | nil => rfl
  | cons a rest ih =>
      obtain ⟨keyword, e⟩ := a
      obtain ⟨here, later⟩ := List.forall_mem_cons.mp each
      refine here.bind_same shared held fun w' v s' shared' held' _ => ?_
      have rest_same := ih shared' held' later
      cases keyword with
      | none => exact rest_same _ _
      | some k =>
          dsimp only
          split
          · rfl
          · exact rest_same _ _

theorem optional_same {e : Option Expr} (each : ∀ i ∈ e, IsShared env chars table eval eval' i) :
    optional eval' e s = optional eval e s := by
  cases e with
  | none => rfl
  | some i =>
      rw [optional, optional, map_eq_pure_bind, map_eq_pure_bind]
      exact bind_same ((each i rfl).same w s shared held)

theorem slice_same {lower upper step : Option Expr}
    (of_lower : ∀ i ∈ lower, IsShared env chars table eval eval' i)
    (of_upper : ∀ i ∈ upper, IsShared env chars table eval eval' i)
    (of_step : ∀ i ∈ step, IsShared env chars table eval eval' i) :
    slice eval' lower upper step s = slice eval lower upper step s := by
  have first := safe_optional (fun i same => (of_lower i same).safe) shared.toWithin s held
  refine first.bind_same (optional_same shared held of_lower) fun w' l s' grows held' _ => ?_
  have shared' := shared.grow grows
  have second := safe_optional (fun i same => (of_upper i same).safe) shared'.toWithin s' held'
  refine second.bind_same (optional_same shared' held' of_upper) fun w'' u s'' more held'' _ => ?_
  exact bind_same (optional_same (shared'.grow more) held'' of_step)

theorem callMethod_same {base : Expr} {args : List Argument}
    (of_base : IsShared env chars table eval eval' base)
    (each : ∀ a ∈ args, IsShared env chars table eval eval' a.2) (id : Text) :
    callMethod eval' base id args s = callMethod eval base id args s := by
  exact of_base.bind_same shared held fun w' v s' shared' held' _ =>
    bind_same (argumentsFrom_same shared' held' each [] [])

-- The function that a value stands for is in both tables.
theorem callFunction_same {func : Expr} {args : List Argument}
    (of_func : IsShared env chars table eval eval' func)
    (each : ∀ a ∈ args, IsShared env chars table eval eval' a.2) :
    callFunction (env.withTable table) eval' func args s = callFunction env eval func args s := by
  refine of_func.bind_same shared held fun w' callee s' shared' held' of_callee => ?_
  have given := argumentsFrom_same shared' held' each [] []
  cases of_callee with
  | @builtin id known =>
      have found : Builtin.find? (env.withTable table).builtins id
          = Builtin.find? env.builtins id := shared'.shares id known
      have safe := safe_argumentsFrom (fun a member => (each a member).safe) shared'.toWithin
        (List.forall_mem_nil _) [] s' held'
      refine safe.bind_same given fun _ r s'' _ _ _ => ?_
      dsimp only
      rw [found]
  | _ => exact bind_same given

end Parts

/-- One expression is evaluated alike if its parts are. -/
theorem isShared_step
    (parts : ∀ e : Expr, e.Fits (env.Shares table) chars → IsShared env chars table eval eval' e)
    {e : Expr} (fits : e.Fits (env.Shares table) chars) :
    IsShared env chars table (step env eval) (step (env.withTable table) eval') e := by
  refine ⟨isSafe_step (fun e fits => (parts e fits).safe) fits, fun w s shared held => ?_⟩
  cases fits with
  | literal column holds => rfl
  | name column shares => exact congrFun (name_same shares) s
  | formatted column fields =>
      have each := Part.forall_fields fun e conversion spec member =>
        parts e (fields e conversion spec member)
      exact bind_same (parts_same shared held each)
  | list column each =>
      exact bind_same (mapM_same shared held fun e member => parts e (each e member))
  | tuple column each =>
      exact bind_same (mapM_same shared held fun e member => parts e (each e member))
  | dict column keys values =>
      exact bind_same (entries_same shared held (fun e member => parts _ (keys e member))
        (fun e member => parts _ (values e member)) [])
  | unary column op operand => exact bind_same ((parts _ operand).same w s shared held)
  | binary column op left right =>
      exact (parts _ left).bind_same shared held fun w' a s' shared' held' _ =>
        bind_same ((parts _ right).same w' s' shared' held')
  | bool column op left right =>
      refine (parts _ left).bind_same shared held fun w' v s' shared' held' _ => ?_
      show (if _ then pure v else eval' _ : Eval Value) s' = (if _ then pure v else eval _ : Eval Value) s'
      split
      · rfl
      · exact (parts _ right).same w' s' shared' held'
  | compare column first each =>
      exact (parts _ first).bind_same shared held fun w' v s' shared' held' _ =>
        bind_same (links_same shared' held' (fun l member => parts _ (each l member)) v)
  | conditional column test body orelse =>
      refine (parts _ test).bind_same shared held fun w' v s' shared' held' _ => ?_
      show (if _ then eval' _ else eval' _ : Eval Value) s' = (if _ then eval _ else eval _ : Eval Value) s'
      split
      · exact (parts _ body).same w' s' shared' held'
      · exact (parts _ orelse).same w' s' shared' held'
  | member column id base => exact bind_same ((parts _ base).same w s shared held)
  | call column func each =>
      have arguments (a) (member : a ∈ _) := parts _ (each a member)
      have called := callFunction_same shared held (parts _ func) arguments
      cases func with
      | member column id base => exact callMethod_same shared held (parts _ base) arguments id
      | _ => exact called
  | item column base position =>
      exact (parts _ base).bind_same shared held fun w' v s' shared' held' _ =>
        bind_same ((parts _ position).same w' s' shared' held')
  | slice column start base lower upper step =>
      exact (parts _ base).bind_same shared held fun w' v s' shared' held' _ =>
        bind_same (slice_same shared' held' (fun i member => parts i (lower i member))
          (fun i member => parts i (upper i member)) fun i member => parts i (step i member))

theorem isShared_evalAt (budget : Nat) {e : Expr} (fits : e.Fits (env.Shares table) chars) :
    IsShared env chars table (evalAt env budget) (evalAt (env.withTable table) budget) e := by
  induction budget generalizing e with
  | zero => exact ⟨isSafe_evalAt 0 fits, fun _ _ _ _ => rfl⟩
  | succ budget ih => exact isShared_step (fun _ => ih) fits

theorem isShared_eval {e : Expr} (fits : e.Fits (env.Shares table) chars) :
    IsShared env chars table (Evaluate.eval env) (Evaluate.eval (env.withTable table)) e :=
  isShared_evalAt evalBudget fits

theorem reading_bind_same {r : Except ReadError α} {next next' : α → Eval β}
    (then_ : ∀ a, r = .ok a → next' a s = next a s) :
    (reading r >>= next') s = (reading r >>= next) s := by
  cases r with
  | ok a => exact then_ a rfl
  | error e => cases e <;> exact bind_same_of_ok fun _ _ refused => by cases refused

variable (shared : env.Shared w chars table) (held : s.Within w)
include shared held

theorem place_same {sub : Snippet.Subscript}
    (fits : ∀ e ∈ subscriptParts sub, e.Fits (env.Shares table) chars) (container value : Value) :
    place (env.withTable table) container sub value s = place env container sub value s := by
  have each {e : Expr} (member : e ∈ subscriptParts sub) := isShared_eval (fits e member)
  cases sub with
  | item e => exact bind_same ((each (by simp [subscriptParts])).same w s shared held)
  | slice column lower upper step =>
      refine bind_same (slice_same shared held (fun i same => each ?_) (fun i same => each ?_)
        fun i same => each ?_)
      all_goals simp [subscriptParts, Option.mem_def.mp same]

theorem checkedPlace_same {sub : Snippet.Subscript}
    (fits : ∀ e ∈ subscriptParts sub, e.Fits (env.Shares table) chars) (container value : Value) :
    (do
      let s ← get
      if weight s maxLength container + weight s maxLength value > maxLength then
        Eval.fail .resultTooLarge
      place (env.withTable table) container sub value : Eval Unit) s
    = (do
      let s ← get
      if weight s maxLength container + weight s maxLength value > maxLength then
        Eval.fail .resultTooLarge
      place env container sub value : Eval Unit) s := by
  refine bind_same_of_ok fun found s' ran => ?_
  cases ran
  split
  · exact bind_same_of_ok fun _ _ refused => by cases refused
  · exact place_same shared held fits container value

/-- An item is put into a container alike under both tables. -/
theorem assignItem_same {target : Text} (names : Text.NamesAre (env.Shares table) target)
    (short : ∀ e, Expr.read target = .ok e → e.longestText ≤ chars) (value : Value) :
    assignItem (env.withTable table) target value s = assignItem env target value s := by
  unfold assignItem
  refine reading_bind_same fun e read => ?_
  have fits := (Expr.namesAre_of_read names read).fits (short e read)
  cases e with
  | index column base sub =>
      obtain ⟨of_base, of_sub⟩ := fits_index fits
      refine (isShared_eval of_base).bind_same shared held fun w' a s' shared' held' _ => ?_
      have checked := checkedPlace_same shared' held' of_sub a value
      cases a with
      | list r => exact checked
      | dict r => exact checked
      | _ => exact place_same shared' held' of_sub _ value
  | _ => rfl

end Evaluate

end Snippet
