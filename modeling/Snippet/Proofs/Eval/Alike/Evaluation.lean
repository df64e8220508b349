import Snippet.Proofs.Eval.Alike.Builtins

/-!
Evaluation sees no identities: an expression has the same outcome over a store under other
identities, if the names in scope keep theirs.
-/

set_option autoImplicit false

namespace Snippet

open Eval (Alike)
open Value

variable {ρ : Renaming} {n : Nat} {v : Value} {items : List Value}

/-- A renaming leaves the scope as it is, and the functions see no identities. -/
structure Env.Unmoved (ρ : Renaming) (env : Env) : Prop where
  scope : ∀ b ∈ env.scope.bindings, b.2.Below ρ.start
  builtins : ∀ b ∈ env.builtins, b.Uniform

namespace Evaluate

variable {env : Env} {eval : Evaluator}

theorem alike_literal (l : Literal) : Alike ρ n (Renamed ρ) (literal l) (literal l) := by
  cases l with
  | none | bool => exact .pure ⟨rfl, trivial⟩
  | int => exact alike_ofNat _
  | float => exact alike_ofFloat _
  | text => exact alike_ofText _
  | joined => exact alike_ofNewText _

theorem alike_name (unmoved : env.Unmoved ρ) (id : Text) :
    Alike ρ n (Renamed ρ) (name env id) (name env id) := by
  unfold name
  split
  · rename_i v found
    obtain ⟨b, bound, rfl⟩ := Option.map_eq_some_iff.mp found
    have below := unmoved.scope b (List.mem_of_find?_eq_some bound)
    exact .of_late fun late => .pure ⟨(rename_of_below _ below).symm, below.mono late⟩
  · split
    · exact .pure ⟨rfl, trivial⟩
    · exact .fail _

theorem alike_isTrue_bind {α : Type} {S : Nat → α → α → Prop} (v : Value) {f f' : Bool → Eval α}
    (next : ∀ b, Alike ρ n S (f b) (f' b)) :
    Alike ρ n S (isTrue v >>= f) (isTrue (v.rename ρ) >>= f') := by
  simp only [isTrue, bind_assoc, pure_bind]
  refine .get_bind fun s _ => ?_
  rw [isTrue_rename]
  exact next _

/-! ### Formatted texts -/

theorem alike_format (below : v.Below n) (spec : Text) :
    Alike ρ n (Renamed ρ) (format v spec) (format (v.rename ρ) spec) := by
  refine .ite (fun _ => alike_toShown below) fun _ => ?_
  rw [text?_rename, ofValue?_rename]
  split
  · refine .lift_bind _ fun spec _ => .lift_bind _ fun t _ => ?_
    exact .ite (fun _ => alike_exactText below _) fun _ => alike_ofText t
  · exact .lift_bind _ fun spec _ => .lift_bind _ fun t _ => alike_ofText t
  · exact .lift_bind _ fun spec _ => .lift_bind _ fun t _ => alike_ofText t
  · exact .lift_bind _ fun spec _ => .lift_bind _ fun t _ => alike_ofText t
  · exact .breach _

theorem alike_convert (conversion : Option Conversion) (below : v.Below n) :
    Alike ρ n (Renamed ρ) (convert conversion v) (convert conversion (v.rename ρ)) := by
  rcases conversion with _ | _ | _
  · exact .pure ⟨rfl, below⟩
  · exact alike_toWritten v
  · exact alike_toShown below

theorem alike_joinParts (each : ∀ v ∈ items, v.Below n) :
    Alike ρ n (Renamed ρ) (joinParts items) (joinParts (items.map (rename ρ))) := by
  have texts : (items.map (rename ρ)).flatMap (fun v => v.text?.getD [])
      = items.flatMap fun v => v.text?.getD [] := by
    simp [List.flatMap_map]
  obtain _ | ⟨v, _ | ⟨w, rest⟩⟩ := items
  · exact alike_ofNewText _
  · exact .pure ⟨rfl, each v List.mem_cons_self⟩
  · simp only [List.map_cons] at texts ⊢
    simp only [joinParts, texts]
    exact alike_ofNewText _

/-! ### Parts, given how expressions are evaluated -/

section

variable (alike : ∀ n e, Alike ρ n (Renamed ρ) (eval e) (eval e))
include alike

theorem alike_part (p : Part) : Alike ρ n (Renamed ρ) (part eval p) (part eval p) := by
  cases p with
  | text t => exact alike_ofText t
  | field e conversion spec =>
      refine .bind_renamed (alike n e) fun k _ v below => alike_checkWeight_bind v ?_
      refine .bind_renamed (alike_convert conversion below) fun k _ v below => ?_
      exact .ite (fun _ => .fail_bind _) fun _ => alike_format below _

theorem alike_mapM_eval (es : List Expr) :
    Alike ρ n (RenamedAll ρ) (es.mapM eval) (es.mapM eval) :=
  .mapM_each fun e _ k _ => alike k e

theorem alike_entries (done : Entries) (below : done.Below n) (es : List (Expr × Expr)) :
    Alike ρ n (RenamedEntries ρ) (entries eval done es) (entries eval (done.rename ρ) es) := by
  induction es generalizing n done with
  | nil => exact .pure ⟨rfl, below⟩
  | cons e rest ih =>
      obtain ⟨key, value⟩ := e
      refine .bind_renamed (alike n value) fun k later v ofValue => ?_
      refine .bind_renamed (alike k key) fun l later' key ofKey => ?_
      rw [isHashable_rename]
      refine .ite (fun _ => .breach_bind _) fun _ => ?_
      rw [Entries.insert_rename]
      exact ih _ (((below.mono later).mono later').insert ofKey (ofValue.mono later'))

theorem alike_links (below : v.Below n) (rest : List (Comparison × Expr)) :
    Alike ρ n Equal (links eval v rest) (links eval (v.rename ρ) rest) := by
  induction rest generalizing n v with
  | nil => exact .pure rfl
  | cons link rest ih =>
      obtain ⟨op, e⟩ := link
      refine .bind_renamed (alike n e) fun k later w below => ?_
      refine .bind_same (Operator.alike_compare op) fun l later holds => ?_
      exact .ite (fun _ => ih (below.mono later)) fun _ => .pure rfl

theorem alike_optional (e : Option Expr) :
    Alike ρ n (fun _ o o' => o' = o.map (rename ρ)) (optional eval e) (optional eval e) := by
  cases e with
  | none => exact .pure rfl
  | some e => exact .bind_renamed (alike n e) fun _ _ _ _ => .pure rfl

theorem alike_slice (lower upper step : Option Expr) :
    Alike ρ n (fun _ s s' => s' = s.rename ρ) (slice eval lower upper step)
      (slice eval lower upper step) := by
  refine .bind (alike_optional alike lower) ?_
  rintro k - lower _ rfl
  refine .bind (alike_optional alike upper) ?_
  rintro k - upper _ rfl
  refine .bind (alike_optional alike step) ?_
  rintro k - step _ rfl
  exact .pure rfl

theorem alike_index (below : v.Below n) (sub : Subscript) :
    Alike ρ n (Renamed ρ) (index eval v sub) (index eval (v.rename ρ) sub) := by
  cases sub with
  | item e =>
      exact .bind_renamed (alike n e) fun k later w _ => Subscript.alike_getItem (below.mono later) w
  | slice _ lower upper step =>
      refine .bind (alike_slice alike lower upper step) ?_
      rintro k later slice _ rfl
      exact Subscript.alike_getSlice (below.mono later) slice

/-- Arguments that are the same under other identities. -/
def RenamedArguments (ρ : Renaming) (n : Nat) (a b : List Value × Bindings) : Prop :=
  b = (a.1.map (rename ρ), a.2.rename ρ) ∧ (∀ v ∈ a.1, v.Below n) ∧ a.2.Below n

theorem alike_argumentsFrom (args : List Value) (keywords : Bindings) (each : ∀ v ∈ args, v.Below n)
    (below : keywords.Below n) (rest : List Argument) :
    Alike ρ n (RenamedArguments ρ) (argumentsFrom eval args keywords rest)
      (argumentsFrom eval (args.map (rename ρ)) (keywords.rename ρ) rest) := by
  induction rest generalizing n args keywords with
  | nil =>
      refine .pure ⟨?_, fun v member => each v (List.mem_reverse.mp member),
        fun b member => below b (List.mem_reverse.mp member)⟩
      simp [Bindings.rename]
  | cons argument rest ih =>
      obtain ⟨keyword, e⟩ := argument
      refine .bind_renamed (alike n e) fun k later v ofV => ?_
      have ofArgs : ∀ v ∈ args, v.Below k := fun w member => (each w member).mono later
      cases keyword with
      | none => exact ih _ _ (List.forall_mem_cons.mpr ⟨ofV, ofArgs⟩) (below.mono later)
      | some name =>
          have given : (keywords.rename ρ).any (fun b => b.1 == name)
              = keywords.any fun b => b.1 == name := by
            simp [Bindings.rename, Function.comp_def]
          dsimp only
          rw [given]
          refine .ite (fun _ => .fail _) fun _ => ?_
          exact ih _ _ ofArgs (List.forall_mem_cons.mpr ⟨ofV, below.mono later⟩)

theorem alike_arguments (args : List Argument) :
    Alike ρ n (RenamedArguments ρ) (arguments eval args) (arguments eval args) :=
  alike_argumentsFrom alike [] [] nofun nofun args

theorem alike_callMethod (base : Expr) (id : Text) (args : List Argument) :
    Alike ρ n (Renamed ρ) (callMethod eval base id args) (callMethod eval base id args) := by
  refine .bind_renamed (alike n base) fun k _ base ofBase => ?_
  refine .bind (alike_arguments alike args) ?_
  rintro l later ⟨args, keywords⟩ _ ⟨rfl, each, below⟩
  exact Method.alike_call (ofBase.mono later) id each keywords

omit alike in
theorem alike_invokeFound (found : Option Builtin) (c : Cause) {args : List Value}
    {keywords : Bindings} (each : ∀ v ∈ args, v.Below n) (below : keywords.Below n) :
    (∀ b ∈ found, b.Uniform) → Alike ρ n (Renamed ρ)
      (match found with
        | some b => do checked (← b.invoke args keywords)
        | .none => Eval.fail c)
      (match found with
        | some b => do checked (← b.invoke (args.map (rename ρ)) (keywords.rename ρ))
        | .none => Eval.fail c) := by
  intro uniform
  cases found with
  | none => exact .fail c
  | some b =>
      exact .bind_renamed ((uniform b rfl).alike_invoke each below) fun _ _ _ below =>
        alike_checked below

theorem alike_callFunction (unmoved : env.Unmoved ρ) (func : Expr) (args : List Argument) :
    Alike ρ n (Renamed ρ) (callFunction env eval func args) (callFunction env eval func args) := by
  refine .bind_renamed (alike n func) fun k _ callee _ => ?_
  refine .bind (alike_arguments alike args) ?_
  rintro l later ⟨args, keywords⟩ _ ⟨rfl, each, below⟩
  have other (c : Cause) := alike_invokeFound (ρ := ρ) none c each below nofun
  cases callee with
  | builtin id =>
      exact alike_invokeFound _ _ each below fun b found =>
        unmoved.builtins b (List.mem_of_find?_eq_some found)
  | _ => exact other _

theorem alike_step (unmoved : env.Unmoved ρ) (e : Expr) :
    Alike ρ n (Renamed ρ) (step env eval e) (step env eval e) := by
  have function (func : Expr) (args : List Argument) :=
    alike_callFunction alike (n := n) unmoved func args
  cases e with
  | literal _ v => exact alike_literal v
  | name _ id => exact alike_name unmoved id
  | formatted _ parts =>
      refine .bind_renamedAll (.mapM_each fun p _ _ _ => alike_part alike p) fun _ _ _ each => ?_
      exact .bind_renamed (alike_joinParts each) fun _ _ _ below => alike_checked below
  | list _ items =>
      refine .bind_renamedAll (alike_mapM_eval alike items) fun _ _ _ each => ?_
      exact .bind_renamed (alike_ofList each) fun _ _ _ below => alike_checked below
  | tuple _ items =>
      refine .bind_renamedAll (alike_mapM_eval alike items) fun _ _ _ each => ?_
      exact .bind_renamed (alike_ofTuple each) fun _ _ _ below => alike_checked below
  | dict _ es =>
      refine .bind (alike_entries alike [] nofun es) ?_
      rintro k - entries _ ⟨rfl, below⟩
      exact .bind_renamed (alike_ofEntries below) fun _ _ _ below => alike_checked below
  | unary _ op e =>
      exact .bind_renamed (alike n e) fun _ _ _ below => Operator.alike_unary op below
  | bool _ op left right =>
      refine .bind_renamed (alike n left) fun k _ v below => alike_isTrue_bind v fun b => ?_
      exact .ite (fun _ => .pure ⟨rfl, below⟩) fun _ => alike k right
  | binary _ op left right =>
      refine .bind_renamed (alike n left) fun k _ a ofA => ?_
      refine .bind_renamed (alike k right) fun l later b ofB => ?_
      exact Operator.alike_binary op (ofA.mono later) ofB
  | compare _ first rest =>
      refine .bind_renamed (alike n first) fun k _ v below => ?_
      exact .bind_same (alike_links alike below rest) fun _ _ _ => .pure ⟨rfl, trivial⟩
  | conditional _ test body orelse =>
      refine .bind_renamed (alike n test) fun k _ v _ => alike_isTrue_bind v fun b => ?_
      exact .ite (fun _ => alike k body) fun _ => alike k orelse
  | index _ base sub =>
      exact .bind_renamed (alike n base) fun _ _ _ below => alike_index alike below sub
  | call _ func args =>
      cases func with
      | member _ base id => exact alike_callMethod alike base id args
      | _ => exact function _ args
  | member _ base id =>
      refine .bind_renamed (alike n base) fun k _ v _ => ?_
      rw [typeName_rename]
      exact .fail _

end

theorem alike_evalAt (unmoved : env.Unmoved ρ) (budget n : Nat) (e : Expr) :
    Alike ρ n (Renamed ρ) (evalAt env budget e) (evalAt env budget e) := by
  induction budget generalizing n e with
  | zero => exact .breach _
  | succ budget ih => exact alike_step ih unmoved e

/-! ### Evaluation of texts -/

theorem alike_reading {α : Type} (r : Except ReadError α) :
    Alike ρ n Equal (reading r) (reading r) := by
  cases r with
  | ok a => exact .pure rfl
  | error e =>
      have refused : Alike ρ n Equal (Eval.fail (α := α) (.unreadable e)) (Eval.fail (.unreadable e)) :=
        .fail _
      cases e with
      | tooDeep => exact .breach _
      | _ => exact refused

theorem alike_checkedStore {α : Type} {S : Nat → α → α → Prop} (container v : Value)
    {m m' : Eval α} (next : Alike ρ n S m m') :
    Alike ρ n S
      (do
        let weight := Value.weight (← get) maxLength
        if weight container + weight v > maxLength then Eval.fail .resultTooLarge
        m)
      (do
        let weight := Value.weight (← get) maxLength
        if weight (container.rename ρ) + weight (v.rename ρ) > maxLength then
          Eval.fail .resultTooLarge
        m') := by
  refine .get_bind fun s _ => ?_
  simp only [weight_rename]
  exact .ite (fun _ => .fail_bind _) fun _ => next

theorem alike_assignItem (unmoved : env.Unmoved ρ) (target : Text) (below : v.Below n) :
    Alike ρ n Equal (assignItem env target v) (assignItem env target (v.rename ρ)) := by
  have alike (n : Nat) (e : Expr) := alike_evalAt unmoved evalBudget n e
  refine .bind_same (alike_reading _) fun k later e => ?_
  have other : Alike ρ k Equal (Eval.fail (α := Unit) .notAssignable) (Eval.fail .notAssignable) :=
    .fail _
  cases e with
  | index _ base sub =>
      refine .bind_renamed (alike k base) fun l later' container _ => ?_
      have ofV := (below.mono later).mono later'
      cases sub with
      | item e =>
          have placed : Alike ρ l Equal (do Subscript.setItem container (← Evaluate.eval env e) v)
              (do Subscript.setItem (container.rename ρ) (← Evaluate.eval env e) (v.rename ρ)) :=
            .bind_renamed (alike l e) fun _ later index ofIndex =>
              Subscript.alike_setItem container ofIndex (ofV.mono later)
          have checked := alike_checkedStore container v placed
          cases container with
          | list | dict => exact checked
          | _ => exact placed
      | slice _ lower upper step =>
          have placed : Alike ρ l Equal
              (do
                let span ← slice (Evaluate.eval env) lower upper step
                Subscript.setSlice container span v)
              (do
                let span ← slice (Evaluate.eval env) lower upper step
                Subscript.setSlice (container.rename ρ) span (v.rename ρ)) := by
            refine .bind (alike_slice alike lower upper step) ?_
            rintro m later slice _ rfl
            exact Subscript.alike_setSlice container slice (ofV.mono later)
          have checked := alike_checkedStore container v placed
          cases container with
          | list | dict => exact checked
          | _ => exact placed
  | _ => exact other

end Evaluate

/-! ### Identities that have been given out -/

/-- All tags in a store and a scope have been given out. -/
structure Env.Sound (env : Env) (s : Store) : Prop where
  store : s.Below s.nextTag
  scope : ∀ b ∈ env.scope.bindings, b.2.Below s.nextTag
  positive : Tag.shared < s.nextTag

namespace Env

variable {env : Env} {s t : Store}

theorem sound_empty (builtins : List Builtin) : Env.Sound ⟨.empty, builtins⟩ .empty where
  store := ⟨nofun, nofun⟩
  scope := nofun
  positive := Nat.one_pos

namespace Sound

theorem of_later (sound : env.Sound s) (later : s.nextTag ≤ t.nextTag)
    (below : t.Below t.nextTag) : env.Sound t where
  store := below
  scope b member := (sound.scope b member).mono later
  positive := Nat.lt_of_lt_of_le sound.positive later

/-- The renaming of what is made from now on. -/
def shift (sound : env.Sound s) (gap : Nat) : Renaming :=
  ⟨s.nextTag, gap, sound.positive⟩

theorem rename_eq (sound : env.Sound s) : s.rename (sound.shift 0) = s :=
  Store.rename_of_below (ρ := sound.shift 0) sound.store (Nat.le_refl _)

theorem unmoved (sound : env.Sound s) (uniform : ∀ b ∈ env.builtins, b.Uniform) (gap : Nat) :
    env.Unmoved (sound.shift gap) :=
  ⟨sound.scope, uniform⟩

end Sound

end Env

end Snippet
