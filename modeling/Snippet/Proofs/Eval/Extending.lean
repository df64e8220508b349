import Snippet.Proofs.Eval.Atomic
import Snippet.Proofs.Eval.Order

/-!
Evaluations that only add to the store. Every list and every dict that exists before is the same
afterwards, whether the evaluation fails or not. Expressions that call no changing method are
evaluated in this way.
-/

set_option autoImplicit false

namespace Snippet

open Eval (Plain)

variable {α β : Type} {s s' s'' : Store} {env : Env}

namespace Store.Extends

theorem lists_le (h : s.Extends s') : s.lists.size ≤ s'.lists.size := by
  by_contra fewer
  have kept := h.lists s'.lists.size (by omega)
  rw [Array.getElem?_eq_none (Nat.le_refl _)] at kept
  have missing := Array.getElem?_eq_none_iff.mp kept.symm
  omega

theorem dicts_le (h : s.Extends s') : s.dicts.size ≤ s'.dicts.size := by
  by_contra fewer
  have kept := h.dicts s'.dicts.size (by omega)
  rw [Array.getElem?_eq_none (Nat.le_refl _)] at kept
  have missing := Array.getElem?_eq_none_iff.mp kept.symm
  omega

theorem trans (first : s.Extends s') (second : s'.Extends s'') : s.Extends s'' where
  lists r inside := (second.lists r (by have := first.lists_le; omega)).trans (first.lists r inside)
  dicts r inside := (second.dicts r (by have := first.dicts_le; omega)).trans (first.dicts r inside)

theorem pushDict (s : Store) (entries : Entries) :
    s.Extends { s with dicts := s.dicts.push entries } where
  lists _ _ := rfl
  dicts r inside := by simp [Array.getElem?_push, Nat.ne_of_lt inside]

-- A list that is new may change.
theorem setItems_new {r : Ref} (h : s.Extends s') (new : s.lists.size ≤ r) (items : List Value) :
    s.Extends (s'.setItems r items) where
  lists q inside := by
    rw [Store.setItems, Array.getElem?_setIfInBounds_ne (by omega)]
    exact h.lists q inside
  dicts := h.dicts

end Store.Extends

/-- Leaves the lists and dicts that exist as they were. -/
def Extending {ε : Type} (m : EStateM ε Store α) : Prop :=
  ∀ s, match m s with
    | .ok _ s' | .error _ s' => s.Extends s'

section Outcomes

variable {ε : Type} {m : EStateM ε Store α}

theorem Extending.ok (h : Extending m) {a : α} (ran : m s = .ok a s') : s.Extends s' := by
  have after := h s
  rwa [ran] at after

theorem Extending.error (h : Extending m) {fault : ε} (ran : m s = .error fault s') :
    s.Extends s' := by
  have after := h s
  rwa [ran] at after

theorem extending_of (ok : ∀ s a s', m s = .ok a s' → s.Extends s')
    (error : ∀ s fault s', m s = .error fault s' → s.Extends s') : Extending m := by
  intro s
  cases ran : m s with
  | ok a s' => exact ok s a s' ran
  | error fault s' => exact error s fault s' ran

end Outcomes

theorem Eval.Plain.extending {m : Eval α} (plain : Plain m) : Extending m :=
  extending_of (fun _ _ _ ran => .of_sameData (plain.ok ran))
    fun _ _ _ ran => .of_sameData (plain.error ran).1

namespace Extending

variable {m : Eval α} {next : α → Eval β}

theorem bind (first : Extending m) (then_ : ∀ a, Extending (next a)) : Extending (m >>= next) := by
  refine extending_of (fun s b s' ran => ?_) fun s fault s' ran => ?_
  · obtain ⟨a, after, done, ran⟩ := run_bind_eq_ok.mp ran
    exact (first.ok done).trans ((then_ a).ok ran)
  · rw [bind_eq] at ran
    cases done : m s with
    | ok a after =>
        rw [done] at ran
        exact (first.ok done).trans ((then_ a).error ran)
    | error other after =>
        rw [done] at ran
        cases ran
        exact first.error done

theorem plain_bind (first : Plain m) (then_ : ∀ a, Extending (next a)) : Extending (m >>= next) :=
  first.extending.bind then_

theorem pure (a : α) : Extending (pure a : Eval α) :=
  (Eval.plain_pure a).extending

theorem throw (fault : Fault) : Extending (throw fault : Eval α) :=
  fun s => .refl s

theorem tryCatch {handle : Fault → Eval α} (first : Extending m)
    (then_ : ∀ fault, Extending (handle fault)) : Extending (tryCatch m handle) := by
  refine extending_of (fun s a s' ran => ?_) fun s fault s' ran => ?_
  · rw [Eval.tryCatch_eq] at ran
    cases done : m s with
    | ok b after =>
        rw [done] at ran
        cases ran
        exact first.ok done
    | error first_fault after =>
        rw [done] at ran
        exact (first.error done).trans ((then_ first_fault).ok ran)
  · rw [Eval.tryCatch_eq] at ran
    cases done : m s with
    | ok b after =>
        rw [done] at ran
        cases ran
    | error first_fault after =>
        rw [done] at ran
        exact (first.error done).trans ((then_ first_fault).error ran)

theorem foldlM {f : β → α → Eval β} {xs : List α} {b : β} (each : ∀ b a, Extending (f b a)) :
    Extending (xs.foldlM f b) := by
  induction xs generalizing b with
  | nil => exact pure b
  | cons a rest ih => exact (each b a).bind fun _ => ih

theorem ofList (items : List Value) : Extending (Value.ofList items) :=
  fun s => .pushList s items

theorem ofEntries (entries : Entries) : Extending (Value.ofEntries entries) :=
  fun s => .pushDict s entries

theorem checked {m : Eval Value} (h : Extending m) : Extending (m >>= Value.checked) :=
  h.bind fun v => (Value.plain_checked v).extending

end Extending

namespace Operator

theorem extending_addPlain (a b : Value) : Extending (addPlain a b) := by
  unfold addPlain
  split
  · refine .plain_bind (Eval.plain_itemsOf _) fun xs => ?_
    exact .plain_bind (Eval.plain_itemsOf _) fun ys => .ofList _
  · exact (plain_addTuples _ _ _ _).extending
  · split
    · exact (plain_addTexts _ _ _ _).extending
    · exact (plain_addNumbers a b).extending

theorem extending_repeatValue (v : Value) (n : Int) : Extending (repeatValue v n) := by
  refine .plain_bind (plain_countOf n) fun n => ?_
  split
  · refine .plain_bind (Eval.plain_itemsOf _) fun items => ?_
    exact .plain_bind (plain_repeated n items) fun all => .ofList all
  all_goals exact Eval.Plain.extending (by grind)

theorem extending_mulPlain (a b : Value) : Extending (mulPlain a b) := by
  unfold mulPlain
  split
  · exact extending_repeatValue a _
  · split
    · exact extending_repeatValue b _
    · exact (plain_mulNumbers a b).extending

theorem extending_binary (op : BinaryOp) (a b : Value) : Extending (binary op a b) := by
  cases op with
  | add => exact (extending_addPlain a b).checked
  | mul => exact .plain_bind (plain_checkProduct a b) fun _ => (extending_mulPlain a b).checked
  | sub => exact (plain_sub a b).extending
  | div => exact (plain_div a b).extending
  | floorDiv => exact (plain_floorDiv a b).extending
  | mod => exact (plain_mod a b).extending
  | pow => exact (plain_pow a b).extending

end Operator

namespace Subscript

theorem extending_getSlice (base : Value) (slice : Slice) : Extending (getSlice base slice) := by
  unfold getSlice
  split
  · exact Eval.Plain.extending (by grind)
  · exact Eval.Plain.extending (by grind)
  · exact Eval.Plain.extending (by grind)
  · refine .plain_bind (Eval.plain_itemsOf _) fun items => ?_
    exact .plain_bind (Eval.plain_lift _) fun span => .ofList _
  · exact (Eval.plain_breach _).extending

end Subscript

namespace Method

/-- The methods that change their receiver. -/
def changing : List String := ["append", "pop", "insert", "remove", "sort", "reverse"]

theorem extending_pieces (base : Value) (t : Text) (sep : Option Value) (limit : Nat) :
    Extending (match sep with
      | none | some .none => splitAtBlanks base t limit >>= Value.ofList
      | some sep => textOf sep >>= fun sep => splitAt base t sep limit >>= Value.ofList) := by
  split
  · exact .plain_bind (plain_splitAtBlanks base t _) .ofList
  · exact .plain_bind (plain_splitAtBlanks base t _) .ofList
  · exact .plain_bind (plain_textOf _) fun sep => .plain_bind (plain_splitAt base t sep _) .ofList

theorem extending_split (base : Value) (t : Text) (args : List Value) (keywords : Bindings) :
    Extending (split base t args keywords) := by
  refine .plain_bind (plain_splitArguments args keywords) fun given => ?_
  obtain ⟨sep, limit⟩ := given
  dsimp only
  split
  · exact extending_pieces base t sep _
  · exact .plain_bind (plain_wordOf _) fun n => extending_pieces base t sep _

theorem extending_callText (base : Value) (t : Text) (m : TextMethod) (args : List Value)
    (keywords : Bindings) : Extending (callText base t m args keywords) := by
  cases m with
  | split => exact extending_split base t args keywords
  | _ => exact Eval.Plain.extending (by unfold callText; grind)

theorem extending_copy (items args : List Value) :
    Extending (noArguments args >>= fun _ => Value.ofList items) :=
  .plain_bind (plain_noArguments args) fun _ => .ofList items

-- Methods that change no receiver.
theorem extending_run {base : Value} {name : Text} {method : BoundMethod}
    (bound : bind? base name = some method) (quiet : ∀ word ∈ changing, name ≠ word.toList)
    (args : List Value) (keywords : Bindings) : Extending (run base method args keywords) := by
  cases base with
  | text tag t | raw tag t =>
      obtain ⟨m, -, rfl⟩ := Option.map_eq_some_iff.mp bound
      exact extending_callText _ t m args keywords
  | tuple tag items =>
      obtain ⟨m, -, rfl⟩ := Option.map_eq_some_iff.mp bound
      exact (plain_callTuple items m args).extending
  | list r =>
      obtain ⟨m, known, rfl⟩ := Option.map_eq_some_iff.mp bound
      obtain ⟨word, member, rfl⟩ := name_of_named? known
      refine .plain_bind (Eval.plain_itemsOf r) fun items => ?_
      simp only [changing, List.forall_mem_cons] at quiet
      cases m with
      | count => exact (plain_countOf items args).extending
      | index => exact (plain_indexOf items args).extending
      | copy => exact extending_copy items args
      | _ => simp_all [listMethods]
  | dict r =>
      obtain ⟨m, known, rfl⟩ := Option.map_eq_some_iff.mp bound
      obtain ⟨word, member, rfl⟩ := name_of_named? known
      simp only [changing, List.forall_mem_cons] at quiet
      cases m with
      | get => exact (plain_dictGet r args).extending
      | pop => simp_all [dictMethods]
      | keys | values | items => exact (plain_view r _ args).extending
  | _ => cases bound

theorem extending_call (base : Value) {name : Text} (quiet : ∀ word ∈ changing, name ≠ word.toList)
    (args : List Value) (keywords : Bindings) : Extending (call base name args keywords) := by
  intro s
  obtain ⟨fault, early⟩ | ⟨method, bound, -, -, ran⟩ := call_cases base name args keywords s
  · rw [early]
    exact .refl s
  · rw [ran]
    exact (extending_run bound quiet args keywords).checked s

end Method

namespace Builtin

theorem extending_sumFrom (start : Value) (items : List Value) :
    Extending (sumFrom start items) := by
  unfold sumFrom
  split
  · exact (plain_emptySum start).extending
  · refine .plain_bind (Eval.plain_mapM fun v _ => by split <;> grind) fun rest => ?_
    exact .plain_bind (Eval.plain_itemsOf _) fun items => .ofList _
  · exact .foldlM Operator.extending_addPlain

theorem extending_sum (args : List Value) (keywords : Bindings) : Extending (sum args keywords) := by
  unfold sum
  split
  · refine .plain_bind (Value.plain_ofInt 0) fun start => ?_
    exact .plain_bind (Subscript.plain_iterate _) fun items => extending_sumFrom start items
  · split
    · exact Eval.Plain.extending (by grind)
    · exact .plain_bind (Subscript.plain_iterate _) fun items => extending_sumFrom _ items
  · exact (Eval.plain_breach _).extending

theorem extending_sorted (args : List Value) (keywords : Bindings) :
    Extending (sorted args keywords) := by
  unfold sorted
  split
  · refine .plain_bind Eval.plain_get fun s => ?_
    refine .plain_bind (Subscript.plain_iterate _) fun items => ?_
    exact .plain_bind (Method.plain_sortItems items _) .ofList
  · exact (Eval.plain_breach _).extending

theorem extending_toList (args : List Value) (keywords : Bindings) :
    Extending (toList args keywords) := by
  unfold toList
  split
  · exact .plain_bind (Subscript.plain_iterate _) .ofList
  · exact .ofList []

theorem extending_settle (fault : Fault) : Extending (settle fault : Eval Value) := by
  cases fault with
  | cause c => exact .throw _
  | breach b => exact .throw _
  | missingKey key =>
      refine .plain_bind Eval.plain_get fun s => ?_
      exact .plain_bind (Eval.plain_lift _) fun shown => .throw _

theorem extending_invoke {b : Builtin} {args : List Value} {keywords : Bindings}
    (h : Extending (b.run args keywords)) : Extending (b.invoke args keywords) := by
  refine .plain_bind (plain_checkArguments b _ _) fun _ => ?_
  refine .plain_bind (Eval.plain_forM Value.plain_checkWeight) fun _ => ?_
  refine .plain_bind (Eval.plain_forM fun k => Value.plain_checkWeight k.2) fun _ => ?_
  exact h.tryCatch extending_settle

theorem extending_core {b : Builtin} (known : b ∈ core) (args : List Value) (keywords : Bindings) :
    Extending (b.run args keywords) := by
  simp only [core, List.mem_cons, List.not_mem_nil, or_false] at known
  obtain rfl | rfl | rfl | rfl | rfl | rfl | rfl | rfl | rfl | rfl | rfl | rfl := known
  · exact (plain_length args keywords).extending
  · exact (plain_toText args keywords).extending
  · exact (plain_toInt args keywords).extending
  · exact (plain_toFloat args keywords).extending
  · exact (plain_toBool args keywords).extending
  · exact (plain_absolute args keywords).extending
  · exact (plain_extreme .gt args keywords).extending
  · exact (plain_extreme .lt args keywords).extending
  · exact extending_sum args keywords
  · exact (plain_round args keywords).extending
  · exact extending_sorted args keywords
  · exact extending_toList args keywords

end Builtin

/-- What an expression does itself, apart from its parts, leaves lists and dicts as they are. -/
def Expr.IsQuiet (env : Env) : Expr → Prop
  | .call _ (.member _ _ id) _ => ∀ word ∈ Method.changing, id ≠ word.toList
  | .call .. => ∀ b ∈ env.builtins, ∀ args keywords, Extending (b.run args keywords)
  | _ => True

namespace Evaluate

variable {own : Eval Value → Prop} {order : List Expr → Prop} {f : Evaluator → Eval Value} {e : Expr}

theorem InOrder.extending (ordered : InOrder own order f) {eval : Evaluator}
    (each : ∀ es, order es → ∀ e ∈ es, Extending (eval e))
    (ends : ∀ m, own m → Extending m) : Extending (f eval) := by
  induction ordered with
  | own holds => exact ends _ holds
  | visit here later ih =>
      obtain ⟨es, here⟩ := here
      refine (each _ here _ List.mem_cons_self).bind fun v => ih v fun es course e member => ?_
      exact each _ course e (List.mem_cons_of_mem _ member)
  | between plain later ih => exact .plain_bind plain fun a => ih a each

theorem extending_name (env : Env) (id : Text) : Extending (name env id) := by
  unfold name
  split
  · exact .pure _
  · split
    · exact .pure _
    · exact .throw _

theorem Own.extending {m : Eval Value} (own : Own env e m) (quiet : e.IsQuiet env) :
    Extending m := by
  cases own with
  | plain plain => exact plain.extending
  | name column id => exact extending_name env id
  | list column es items => exact (Extending.ofList items).checked
  | dict column es entries => exact (Extending.ofEntries entries).checked
  | binary column op l r a b => exact Operator.extending_binary op a b
  | slice column e sub v slice => exact Subscript.extending_getSlice v slice
  | method column start e id es v args keywords => exact Method.extending_call v quiet args keywords
  | @function column func es b args keywords other known =>
      have settled : ∀ b ∈ env.builtins, ∀ args keywords, Extending (b.run args keywords) := by
        cases func with
        | member start e id => exact absurd rfl (other start e id)
        | _ => exact quiet
      exact (Builtin.extending_invoke (settled b known args keywords)).checked

-- The receiver of a method is a part of the member that is called.
theorem everywhere_of_course {P : Expr → Prop} {es : List Expr} (h : e.Everywhere P)
    (course : e.Course es) : ∀ p ∈ es, p.Everywhere P := by
  cases e with
  | conditional column test body orelse =>
      have parts := h.of_parts
      simp only [Expr.parts, List.forall_mem_cons] at parts
      obtain ⟨of_test, of_body, of_orelse, -⟩ := parts
      obtain rfl | rfl := course
      · simp [of_test, of_body]
      · simp [of_test, of_orelse]
  | call column func as =>
      cases func with
      | member start base id =>
          obtain rfl : es = base :: as.map (·.2) := course
          obtain ⟨func, args⟩ := List.forall_mem_cons.mp h.of_parts
          exact List.forall_mem_cons.mpr ⟨func.of_parts base List.mem_cons_self, args⟩
      | _ =>
          cases course
          exact h.of_parts
  | _ =>
      cases course
      exact h.of_parts

/-- An expression with quiet parts only is evaluated without a change to a list or a dict. -/
theorem extending_evalAt (quiet : e.Everywhere (·.IsQuiet env)) (budget : Nat) :
    Extending (evalAt env budget e) := by
  induction budget generalizing e with
  | zero => exact .throw _
  | succ budget ih =>
      refine (inOrder_step env e).extending (fun es course p member => ?_) fun m own => ?_
      · exact ih (everywhere_of_course quiet course p member)
      · exact own.extending quiet.here

end Evaluate

/-! ### New lists -/

namespace Eval

/-- Gives a list that was not there before, if it succeeds. -/
def Fresh (m : Eval Value) : Prop :=
  ∀ s v s', m s = .ok v s' → ∃ r, v = .list r ∧ s.lists.size ≤ r ∧ r < s'.lists.size

namespace Fresh

theorem ofList (items : List Value) : Fresh (Value.ofList items) := by
  rintro s v s' ⟨⟩
  exact ⟨s.lists.size, rfl, Nat.le_refl _, by simp⟩

theorem throw (fault : Fault) : Fresh (throw fault) :=
  fun _ _ _ => nofun

theorem plain_bind {m : Eval α} {next : α → Eval Value} (first : Plain m)
    (then_ : ∀ a, Fresh (next a)) : Fresh (m >>= next) := by
  intro s v s' ran
  obtain ⟨a, after, done, ran⟩ := run_bind_eq_ok.mp ran
  have new := then_ a after v s' ran
  rwa [(first.ok done).1] at new

theorem checked {m : Eval Value} (new : Fresh m) : Fresh (m >>= Value.checked) := by
  intro s v s' ran
  obtain ⟨a, after, done, ran⟩ := run_bind_eq_ok.mp ran
  obtain ⟨-, c, refused⟩ | ⟨-, passed⟩ := a.checked_cases after
  · rw [refused] at ran
    cases ran
  · rw [passed] at ran
    cases ran
    exact new s _ _ done

theorem tryCatch {m : Eval Value} {handle : Fault → Eval Value} (new : Fresh m)
    (fails : ∀ fault s v s', handle fault s ≠ .ok v s') : Fresh (tryCatch m handle) := by
  intro s v s' ran
  rw [tryCatch_eq] at ran
  cases done : m s with
  | ok a after =>
      rw [done] at ran
      cases ran
      exact new s _ _ done
  | error fault after =>
      rw [done] at ran
      exact absurd ran (fails fault after v s')

end Fresh

end Eval

open Eval (Fresh)

namespace Operator

variable {a b : Value} {r : Ref}

-- A list is no number.
theorem pairOf_list (listed : a = .list r ∨ b = .list r) : pairOf a b = .error .type := by
  unfold pairOf
  obtain rfl | rfl := listed
  · cases b <;> rfl
  · cases a <;> rfl

theorem fresh_addPlain (listed : a = .list r ∨ b = .list r) : Fresh (addPlain a b) := by
  unfold addPlain
  split
  · refine .plain_bind (Eval.plain_itemsOf _) fun xs => ?_
    exact .plain_bind (Eval.plain_itemsOf _) fun ys => .ofList _
  · cases listed <;> contradiction
  · split
    · obtain rfl | rfl := listed <;> contradiction
    · rw [addNumbers, pairOf_list listed]
      exact .throw _

theorem fresh_repeatValue (r : Ref) (n : Int) : Fresh (repeatValue (.list r) n) := by
  refine .plain_bind (plain_countOf n) fun n => ?_
  refine .plain_bind (Eval.plain_itemsOf r) fun items => ?_
  exact .plain_bind (plain_repeated n items) .ofList

theorem fresh_mulPlain (listed : a = .list r ∨ b = .list r) : Fresh (mulPlain a b) := by
  unfold mulPlain
  split
  · obtain rfl | rfl := listed
    · exact fresh_repeatValue r _
    · contradiction
  · split
    · obtain rfl | rfl := listed
      · contradiction
      · exact fresh_repeatValue r _
    · rw [mulNumbers, pairOf_list listed]
      exact .throw _

end Operator

namespace Builtin

theorem fresh_invoke {b : Builtin} {args : List Value} {keywords : Bindings}
    (new : Fresh (b.run args keywords)) : Fresh (b.invoke args keywords) := by
  refine .plain_bind (plain_checkArguments b _ _) fun _ => ?_
  refine .plain_bind (Eval.plain_forM Value.plain_checkWeight) fun _ => ?_
  refine .plain_bind (Eval.plain_forM fun k => Value.plain_checkWeight k.2) fun _ => ?_
  refine new.tryCatch fun fault s v s' ran => ?_
  cases fault with
  | cause c => cases ran
  | breach b => cases ran
  | missingKey key =>
      obtain ⟨_, after, -, ran⟩ := run_bind_eq_ok.mp ran
      obtain ⟨shown, after, -, ran⟩ := run_bind_eq_ok.mp ran
      cases ran

theorem fresh_sorted (args : List Value) (keywords : Bindings) : Fresh (sorted args keywords) := by
  unfold sorted
  split
  · refine .plain_bind Eval.plain_get fun s => ?_
    refine .plain_bind (Subscript.plain_iterate _) fun items => ?_
    exact .plain_bind (Method.plain_sortItems items _) .ofList
  · exact .throw _

theorem fresh_toList (args : List Value) (keywords : Bindings) : Fresh (toList args keywords) := by
  unfold toList
  split
  · exact .plain_bind (Subscript.plain_iterate _) .ofList
  · exact .ofList []

end Builtin

namespace Eval

/-- What makes one list out of others: sums and products, slices, and the copies that a method and
two functions make. -/
inductive Copying : Eval Value → Prop where
  | combined {op : BinaryOp} {a b : Value} {r : Ref} (joins : op = .add ∨ op = .mul)
      (listed : a = .list r ∨ b = .list r) : Copying (Operator.binary op a b)
  | slice (r : Ref) (slice : Subscript.Slice) : Copying (Subscript.getSlice (.list r) slice)
  | copy (r : Ref) (args : List Value) (keywords : Bindings) :
      Copying (Method.call (.list r) "copy".toList args keywords)
  | function {name : String} {b : Builtin} (makes : name = "list" ∨ name = "sorted")
      (found : Builtin.find? Builtin.core name.toList = some b) (args : List Value)
      (keywords : Bindings) : Copying (b.invoke args keywords)

variable {m : Eval Value}

theorem Copying.extending (copying : Copying m) : Extending m := by
  cases copying with
  | combined joins listed => exact Operator.extending_binary _ _ _
  | slice r slice => exact Subscript.extending_getSlice _ slice
  | copy r args keywords => exact Method.extending_call _ (by decide) args keywords
  | function makes found args keywords =>
      have known := List.mem_of_find?_eq_some found
      exact Builtin.extending_invoke (Builtin.extending_core known args keywords)

theorem Copying.fresh (copying : Copying m) : Fresh m := by
  cases copying with
  | combined joins listed =>
      obtain rfl | rfl := joins
      · exact (Operator.fresh_addPlain listed).checked
      · exact .plain_bind (Operator.plain_checkProduct _ _) fun _ =>
          (Operator.fresh_mulPlain listed).checked
  | slice r slice =>
      refine .plain_bind (plain_itemsOf r) fun items => ?_
      exact .plain_bind (plain_lift _) fun span => .ofList _
  | copy r args keywords =>
      have run : Fresh (Method.run (.list r) (.ofList r .copy) args keywords) := by
        refine .plain_bind (plain_itemsOf r) fun items => ?_
        exact .plain_bind (Method.plain_noArguments args) fun _ => .ofList items
      intro s v s' called
      obtain ⟨fault, early⟩ | ⟨method, bound, -, -, ran⟩ :=
        Method.call_cases (.list r) "copy".toList args keywords s
      · rw [early] at called
        cases called
      · cases bound
        rw [ran] at called
        exact run.checked s v s' called
  | function makes found args keywords =>
      obtain rfl | rfl := makes
      · cases found
        exact Builtin.fresh_invoke (Builtin.fresh_toList args keywords)
      · cases found
        exact Builtin.fresh_invoke (Builtin.fresh_sorted args keywords)

end Eval

end Snippet
