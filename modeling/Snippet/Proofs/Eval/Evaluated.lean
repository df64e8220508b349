import Snippet.Proofs.Eval.Called
import Snippet.Proofs.Expr.Names
import Snippet.Proofs.Expr.Parts

/-!
Expressions are evaluated within limits. Each subtraction adds one bit to those that an integer may
have; all else stays within what a check lets through.
-/

set_option autoImplicit false

namespace Snippet

open Eval (Grows Keeps KeepsAt Pends Safe SafeAt Plain Yields Fits grows_within)

variable {α β : Type} {w w' : Limits} {k : Nat} {s s' : Store} {v : Value}

/-- A literal within limits: an integer that may be built, or a text of so many characters. -/
def Literal.Fits (chars : Nat) : Literal → Prop
  | .int n => bitLength n ≤ maxBits
  | .text t | .joined t => t.length ≤ chars
  | _ => True

/-- All literals of an expression are within limits, and a condition holds of its names. -/
abbrev Expr.Fits (P : Text → Prop) (chars : Nat) (e : Expr) : Prop :=
  e.AtomsAre P (Literal.Fits chars)

/-- The integers of an expression that is read may be built, and its texts are not longer than the
longest one. -/
theorem Expr.NamesAre.fits {P : Text → Prop} {e : Expr} {chars : Nat} (names : e.NamesAre P)
    (short : e.longestText ≤ chars) : e.Fits P chars := by
  have own {e : Expr} (short : e.longestText ≤ chars) : e.textLength ≤ chars :=
    e.textLength_le_longestText.trans short
  have inner {e p : Expr} (short : e.longestText ≤ chars) (member : p ∈ e.parts) :
      p.longestText ≤ chars :=
    (longestText_le_of_mem_parts member).trans short
  rw [NamesAre] at names
  induction names with
  | @literal column value holds =>
      refine .literal column ?_
      cases value with
      | int n => exact holds
      | text t | joined t => exact own short
      | _ => trivial
  | name column holds => exact .name column holds
  | formatted column fields ih =>
      refine .formatted column fun e conversion spec member => ih e conversion spec member ?_
      exact inner short (List.mem_filterMap.mpr ⟨_, member, rfl⟩)
  | list column each ih =>
      exact .list column fun e member => ih e member (inner short member)
  | tuple column each ih =>
      exact .tuple column fun e member => ih e member (inner short member)
  | dict column keys values of_keys of_values =>
      refine .dict column (fun e member => of_keys e member (inner short ?_)) fun e member =>
        of_values e member (inner short ?_)
      · exact List.mem_flatMap.mpr ⟨e, member, by simp⟩
      · exact List.mem_flatMap.mpr ⟨e, member, by simp⟩
  | unary column op operand ih => exact .unary column op (ih (inner short (by simp [parts])))
  | binary column op left right of_left of_right =>
      exact .binary column op (of_left (inner short (by simp [parts])))
        (of_right (inner short (by simp [parts])))
  | bool column op left right of_left of_right =>
      exact .bool column op (of_left (inner short (by simp [parts])))
        (of_right (inner short (by simp [parts])))
  | compare column first each of_first ih =>
      refine .compare column (of_first (inner short (by simp [parts]))) fun link member =>
        ih link member (inner short ?_)
      exact List.mem_cons_of_mem _ (List.mem_map_of_mem member)
  | conditional column test body orelse of_test of_body of_orelse =>
      exact .conditional column (of_test (inner short (by simp [parts])))
        (of_body (inner short (by simp [parts]))) (of_orelse (inner short (by simp [parts])))
  | member column id base ih => exact .member column id (ih (inner short (by simp [parts])))
  | call column func each of_func ih =>
      refine .call column (of_func (inner short (by simp [parts]))) fun a member =>
        ih a member (inner short ?_)
      exact List.mem_cons_of_mem _ (List.mem_map_of_mem member)
  | item column base position of_base of_position =>
      exact .item column (of_base (inner short (by simp [parts])))
        (of_position (inner short (by simp [parts])))
  | slice column start base lower upper step of_base of_lower of_upper of_step =>
      refine .slice column start (of_base (inner short (by simp [parts])))
        (fun i same => of_lower i same (inner short ?_))
        (fun i same => of_upper i same (inner short ?_))
        (fun i same => of_step i same (inner short ?_))
      all_goals simp only [Option.mem_def] at same; subst same; simp [parts]

/-- All that an expression may use is within the limits, which allow so many characters. -/
structure Env.Within (w : Limits) (chars : Nat) (env : Env) : Prop where
  chars : w.chars = chars
  scope : ∀ id v, env.scope.find? id = some v → v.Within w
  builtins : ∀ b ∈ env.builtins, b.IsSized
  functions : ∀ b ∈ env.builtins, b.name ∈ w.functions

theorem Env.Within.grow {env : Env} {chars : Nat} (within : env.Within w chars)
    (grows : w.Grows k w') : env.Within w' chars where
  chars := grows.chars.trans within.chars
  scope id v found := (within.scope id v found).grow grows
  builtins := within.builtins
  functions b member := grows.functions ▸ within.functions b member

theorem AllWithin.grow {items : List Value} (each : AllWithin w items) (grows : w.Grows k w') :
    AllWithin w' items :=
  fun v member => (each v member).grow grows

theorem grows_any : Grows fun _ (_ : α) => True :=
  fun _ _ _ _ _ _ => trivial

namespace Evaluate

theorem fits_literal {l : Literal} (fits : l.Fits w.chars) : Fits w (literal l) := by
  cases l with
  | none => exact Eval.fits_pure .none
  | bool b => exact Eval.fits_pure (.bool b)
  | int n => exact Value.fits_ofInt (fits.trans w.bits_ge)
  | float x => exact Value.fits_ofFloat x
  | text t => exact Value.fits_ofText fits
  | joined t => exact Value.fits_ofNewText fits

variable {env : Env} {chars : Nat}

theorem keeps_name (within : env.Within w chars) (id : Text) :
    Keeps w (name env id) fun _ v => v.Within w := by
  unfold name
  split
  · rename_i found
    exact Keeps.pure fun _ _ => within.scope id _ found
  · split
    · rename_i b found
      exact Keeps.pure fun _ _ => .builtin (within.functions b (List.mem_of_find?_eq_some found))
    · exact Keeps.fail _

/-- An expression is evaluated within limits, which grow by a bit for each of its subtractions. -/
def IsSafe (env : Env) (chars : Nat) (eval : Evaluator) (e : Expr) : Prop :=
  ∀ w, env.Within w chars → Safe w e.subtractions (eval e) fun w v => v.Within w

section Parts

variable {eval : Evaluator}

theorem safe_mapM {items : List Expr} (each : ∀ e ∈ items, IsSafe env chars eval e)
    (within : env.Within w chars) :
    Safe w (items.map Expr.subtractions).sum (items.mapM eval) AllWithin := by
  induction items generalizing w with
  | nil => exact Safe.pure nofun
  | cons e rest ih =>
      rw [List.mapM_cons, List.map_cons, List.sum_cons]
      refine (each e List.mem_cons_self w within).bind fun w' v grows of_v => ?_
      have later := ih (fun e member => each e (List.mem_cons_of_mem _ member)) (within.grow grows)
      refine later.bind_last fun w'' vs grows of_vs => ?_
      exact Safe.pure (List.forall_mem_cons.mpr ⟨of_v.grow grows, of_vs⟩)

theorem safe_part {p : Part} (each : ∀ e ∈ p.expr?, IsSafe env chars eval e)
    (within : env.Within w chars) :
    Safe w (p.expr?.toList.map Expr.subtractions).sum (part eval p) fun _ v => v.isFree = true := by
  cases p with
  | text t => exact Keeps.safe ((Value.plain_ofText t).keeps (Value.frees_ofText t))
  | field e conversion spec =>
      refine Safe.of_eq (j := e.subtractions) ?_ (by simp [Part.expr?])
      refine (each e rfl w within).bind_last fun w' v grows of_v => Keeps.safe ?_
      refine (Value.plain_checkWeight v).keeps_any.bind fun _ _ => ?_
      refine (plain_convert conversion v).keeps_any.bind fun v _ => ?_
      dsimp only
      split
      · exact Keeps.fail_bind _
      · exact (plain_format v _).keeps (frees_format v _)

theorem safe_parts {ps : List Part}
    (each : ∀ e ∈ ps.filterMap Part.expr?, IsSafe env chars eval e) (within : env.Within w chars) :
    Safe w ((ps.filterMap Part.expr?).map Expr.subtractions).sum (ps.mapM (part eval))
      fun _ vs => ∀ v ∈ vs, v.isFree = true := by
  induction ps generalizing w with
  | nil => exact Safe.pure nofun
  | cons p rest ih =>
      obtain ⟨here, later⟩ := List.forall_mem_cons.mp (List.forall_mem_filterMap.mp each)
      have of_rest {w' : Limits} (within : env.Within w' chars) :=
        ih (List.forall_mem_filterMap.mpr later) within
      rw [List.mapM_cons]
      refine Safe.of_eq ((safe_part here within).bind fun w' v grows free =>
        (of_rest (within.grow grows)).bind_last fun w'' vs grows frees =>
          Safe.pure (List.forall_mem_cons.mpr ⟨free, frees⟩)) ?_
      cases same : p.expr? <;> simp [same]

theorem safe_entries {es : List (Expr × Expr)} {done : Entries}
    (keys : ∀ e ∈ es, IsSafe env chars eval e.1) (values : ∀ e ∈ es, IsSafe env chars eval e.2)
    (within : env.Within w chars) (of_done : ∀ e ∈ done, e.1.Within w ∧ e.2.Within w) :
    Safe w ((es.flatMap fun e => [e.2, e.1]).map Expr.subtractions).sum (entries eval done es)
      fun w es => ∀ e ∈ es, e.1.Within w ∧ e.2.Within w := by
  induction es generalizing w done with
  | nil => exact Safe.pure of_done
  | cons e rest ih =>
      obtain ⟨k, v⟩ := e
      rw [List.flatMap_cons, List.cons_append, List.cons_append, List.nil_append, List.map_cons,
        List.map_cons, List.sum_cons, List.sum_cons]
      refine (values (k, v) List.mem_cons_self w within).bind fun w' value grows of_value => ?_
      refine (keys (k, v) List.mem_cons_self w' (within.grow grows)).bind
        fun w'' key more of_key => ?_
      split
      · exact Safe.throw _
      · refine ih (fun e member => keys e (List.mem_cons_of_mem _ member))
          (fun e member => values e (List.mem_cons_of_mem _ member))
          ((within.grow grows).grow more) ?_
        refine Entries.forall_insert (fun e member => ?_) of_key (of_value.grow more)
        exact ⟨((of_done e member).1.grow grows).grow more,
          ((of_done e member).2.grow grows).grow more⟩

theorem safe_links {ls : List (Comparison × Expr)} (each : ∀ l ∈ ls, IsSafe env chars eval l.2)
    (within : env.Within w chars) (left : Value) :
    Safe w ((ls.map (·.2)).map Expr.subtractions).sum (links eval left ls) fun _ _ => True := by
  induction ls generalizing w left with
  | nil => exact Safe.pure trivial
  | cons l rest ih =>
      obtain ⟨op, e⟩ := l
      refine (each (op, e) List.mem_cons_self w within).bind fun w' right grows of_right => ?_
      refine Safe.keeps_bind (Operator.plain_compare op left right).keeps_any fun holds _ => ?_
      split
      · exact ih (fun l member => each l (List.mem_cons_of_mem _ member)) (within.grow grows) right
      · exact (Safe.pure trivial).widen grows_any (Nat.zero_le _)

theorem safe_argumentsFrom {args : List Argument} (each : ∀ a ∈ args, IsSafe env chars eval a.2)
    (within : env.Within w chars) {done : List Value} (of_done : AllWithin w done)
    (keywords : Bindings) :
    Safe w ((args.map (·.2)).map Expr.subtractions).sum (argumentsFrom eval done keywords args)
      fun w r => AllWithin w r.1 := by
  induction args generalizing w done keywords with
  | nil => exact Safe.pure fun v member => of_done v (List.mem_reverse.mp member)
  | cons a rest ih =>
      obtain ⟨keyword, e⟩ := a
      refine (each (keyword, e) List.mem_cons_self w within).bind fun w' v grows of_v => ?_
      have others : ∀ a ∈ rest, IsSafe env chars eval a.2 := fun a member =>
        each a (List.mem_cons_of_mem _ member)
      cases keyword with
      | none =>
          have taken : AllWithin w' (v :: done) :=
            List.forall_mem_cons.mpr ⟨of_v, of_done.grow grows⟩
          exact ih others (within.grow grows) taken keywords
      | some k =>
          dsimp only
          split
          · exact Safe.throw _
          · exact ih others (within.grow grows) (of_done.grow grows) _

theorem safe_optional {e : Option Expr} (each : ∀ i ∈ e, IsSafe env chars eval i)
    (within : env.Within w chars) :
    Safe w (e.toList.map Expr.subtractions).sum (optional eval e) fun _ _ => True := by
  cases e with
  | none => exact Safe.pure trivial
  | some i =>
      refine Safe.of_eq (j := i.subtractions) ?_ (by simp)
      rw [optional, map_eq_pure_bind]
      exact (each i rfl w within).bind_last fun w' v grows of_v => Safe.pure trivial

theorem safe_slice {lower upper step : Option Expr}
    (of_lower : ∀ i ∈ lower, IsSafe env chars eval i)
    (of_upper : ∀ i ∈ upper, IsSafe env chars eval i)
    (of_step : ∀ i ∈ step, IsSafe env chars eval i) (within : env.Within w chars) :
    Safe w ((lower.toList ++ upper.toList ++ step.toList).map Expr.subtractions).sum
      (slice eval lower upper step) fun _ _ => True := by
  rw [List.append_assoc, List.map_append, List.sum_append, List.map_append, List.sum_append]
  refine (safe_optional of_lower within).bind fun after l grows _ => ?_
  refine (safe_optional of_upper (within.grow grows)).bind fun later u more _ => ?_
  exact (safe_optional of_step ((within.grow grows).grow more)).bind_last
    fun _ s _ _ => Safe.pure trivial

end Parts

theorem safe_operator (op : BinaryOp) {a b : Value} (of_a : a.Within w) (of_b : b.Within w) :
    Safe w (if op = .sub then 1 else 0) (Operator.binary op a b) fun w v => v.Within w := by
  cases op with
  | add => exact (Operator.pends_addPlain of_a of_b).checked
  | sub =>
      intro s within
      have plain := Operator.plain_sub a b
      show SafeAt w 1 s (Operator.sub a b) _
      rw [SafeAt]
      cases ran : Operator.sub a b s with
      | ok v s' =>
          exact ⟨w.widened 1, w.grows_widened 1, (within.sameData (plain.ok ran)).widened 1,
            Operator.fits_sub of_a of_b s v s' ran⟩
      | error fault s' =>
          exact ⟨w.widened 1, w.grows_widened 1, (within.sameData (plain.error ran).1).widened 1⟩
  | mul =>
      exact Safe.keeps_bind (Operator.plain_checkProduct a b).keeps_any fun _ _ =>
        (Operator.pends_mulPlain of_a of_b).checked
  | div => exact Keeps.safe ((Operator.plain_div a b).keeps (Operator.fits_div a b))
  | floorDiv => exact Keeps.safe ((Operator.plain_floorDiv a b).keeps (Operator.fits_floorDiv of_a))
  | mod => exact Operator.safe_mod a b
  | pow => exact Keeps.safe ((Operator.plain_pow a b).keeps (Operator.fits_pow a b))

theorem safe_callMethod {eval : Evaluator} {base : Expr} {args : List Argument}
    (of_base : IsSafe env chars eval base) (each : ∀ a ∈ args, IsSafe env chars eval a.2)
    (within : env.Within w chars) (id : Text) :
    Safe w (base.subtractions + ((args.map (·.2)).map Expr.subtractions).sum)
      (callMethod eval base id args) fun w v => v.Within w := by
  refine (of_base w within).bind fun after v grows of_v => ?_
  refine (safe_argumentsFrom each (within.grow grows) (List.forall_mem_nil _) []).bind_last
    fun later r more of_args => ?_
  exact Method.safe_call (of_v.grow more) id of_args r.2

theorem safe_callFunction {eval : Evaluator} {func : Expr} {args : List Argument}
    (of_func : IsSafe env chars eval func) (each : ∀ a ∈ args, IsSafe env chars eval a.2)
    (within : env.Within w chars) :
    Safe w (func.subtractions + ((args.map (·.2)).map Expr.subtractions).sum)
      (callFunction env eval func args) fun w v => v.Within w := by
  refine (of_func w within).bind fun after callee grows of_callee => ?_
  refine (safe_argumentsFrom each (within.grow grows) (List.forall_mem_nil _) []).bind_last
    fun later r more of_args => ?_
  obtain ⟨args, keywords⟩ := r
  dsimp only
  split
  · rename_i b found
    have sized : b.IsSized := by
      cases callee with
      | builtin id => exact within.builtins b (List.mem_of_find?_eq_some found)
      | _ => cases found
    exact (Builtin.pends_invoke sized of_args keywords).checked
  · exact Safe.throw _

section Constructs

variable {eval : Evaluator} (column : Nat) (within : env.Within w chars)
include within

theorem safe_formatted {ps : List Part}
    (each : ∀ e ∈ ps.filterMap Part.expr?, IsSafe env chars eval e) :
    Safe w ((ps.filterMap Part.expr?).map Expr.subtractions).sum
      (step env eval (.formatted column ps)) fun w v => v.Within w :=
  (safe_parts each within).bind_last fun _ vs _ free =>
    ((frees_joinParts free).pends (plain_joinParts vs)).checked

theorem safe_list {items : List Expr} (each : ∀ e ∈ items, IsSafe env chars eval e) :
    Safe w (items.map Expr.subtractions).sum (step env eval (.list column items))
      fun w v => v.Within w :=
  (safe_mapM each within).bind_last fun _ _ _ of_vs => Pends.checked (Keeps.ofList of_vs)

theorem safe_tuple {items : List Expr} (each : ∀ e ∈ items, IsSafe env chars eval e) :
    Safe w (items.map Expr.subtractions).sum (step env eval (.tuple column items))
      fun w v => v.Within w :=
  (safe_mapM each within).bind_last fun _ _ _ of_vs => (Value.pends_ofTuple of_vs).checked

theorem safe_dict {es : List (Expr × Expr)} (keys : ∀ e ∈ es, IsSafe env chars eval e.1)
    (values : ∀ e ∈ es, IsSafe env chars eval e.2) :
    Safe w ((es.flatMap fun e => [e.2, e.1]).map Expr.subtractions).sum
      (step env eval (.dict column es)) fun w v => v.Within w :=
  (safe_entries keys values within (List.forall_mem_nil _)).bind_last fun _ _ _ of_es =>
    Pends.checked (Keeps.ofEntries of_es)

theorem safe_binary (op : BinaryOp) {l r : Expr} (left : IsSafe env chars eval l)
    (right : IsSafe env chars eval r) :
    Safe w (l.subtractions + (r.subtractions + if op = .sub then 1 else 0))
      (step env eval (.binary column op l r)) fun w v => v.Within w := by
  refine (left w within).bind fun after a grows of_a => ?_
  refine (right after (within.grow grows)).bind fun later b more of_b => ?_
  exact safe_operator op (of_a.grow more) of_b

-- Where the second operand is not evaluated, its subtractions are left over.
theorem safe_bool (op : BoolOp) {l r : Expr} (left : IsSafe env chars eval l)
    (right : IsSafe env chars eval r) :
    Safe w (l.subtractions + r.subtractions) (step env eval (.bool column op l r))
      fun w v => v.Within w := by
  refine (left w within).bind fun after v grows of_v => ?_
  refine Safe.keeps_bind (Eval.plain_bind Eval.plain_get fun s =>
    Eval.plain_pure _).keeps_any fun holds _ => ?_
  split
  · exact (Safe.pure of_v).widen grows_within (Nat.zero_le _)
  · exact right after (within.grow grows)

theorem safe_compare {e : Expr} {ls : List (Comparison × Expr)} (first : IsSafe env chars eval e)
    (each : ∀ l ∈ ls, IsSafe env chars eval l.2) :
    Safe w (e.subtractions + ((ls.map (·.2)).map Expr.subtractions).sum)
      (step env eval (.compare column e ls)) fun w v => v.Within w := by
  refine (first w within).bind fun after v grows of_v => ?_
  exact (safe_links each (within.grow grows) v).bind_last fun _ holds _ _ =>
    Safe.pure (.bool holds)

-- Only one branch is evaluated: the subtractions of the other one are left over.
theorem safe_conditional {t b o : Expr} (test : IsSafe env chars eval t)
    (body : IsSafe env chars eval b) (orelse : IsSafe env chars eval o) :
    Safe w (t.subtractions + (b.subtractions + o.subtractions))
      (step env eval (.conditional column t b o)) fun w v => v.Within w := by
  refine (test w within).bind fun after v grows of_v => ?_
  refine Safe.keeps_bind (Eval.plain_bind Eval.plain_get fun s =>
    Eval.plain_pure _).keeps_any fun holds _ => ?_
  split
  · exact (body after (within.grow grows)).widen grows_within (Nat.le_add_right _ _)
  · exact (orelse after (within.grow grows)).widen grows_within (Nat.le_add_left _ _)

theorem safe_item {base e : Expr} (of_base : IsSafe env chars eval base)
    (position : IsSafe env chars eval e) :
    Safe w (base.subtractions + e.subtractions) (step env eval (.index column base (.item e)))
      fun w v => v.Within w := by
  refine (of_base w within).bind fun after v grows of_v => ?_
  refine (position after (within.grow grows)).bind_last fun later p more of_p => ?_
  exact Keeps.safe (Subscript.keeps_getItem (of_v.grow more) p)

theorem safe_sliced (start : Nat) {base : Expr} {lower upper step : Option Expr}
    (of_base : IsSafe env chars eval base) (of_lower : ∀ i ∈ lower, IsSafe env chars eval i)
    (of_upper : ∀ i ∈ upper, IsSafe env chars eval i)
    (of_step : ∀ i ∈ step, IsSafe env chars eval i) :
    Safe w (base.subtractions +
        ((lower.toList ++ upper.toList ++ step.toList).map Expr.subtractions).sum)
      (Evaluate.step env eval (.index column base (.slice start lower upper step)))
      fun w v => v.Within w := by
  refine (of_base w within).bind fun after v grows of_v => ?_
  refine (safe_slice of_lower of_upper of_step (within.grow grows)).bind_last
    fun later slice more _ => ?_
  exact Subscript.safe_getSlice (of_v.grow more) slice

end Constructs

/-- One expression is evaluated within limits if its parts are. -/
theorem isSafe_step {P : Text → Prop} {eval : Evaluator}
    (parts : ∀ e : Expr, e.Fits P chars → IsSafe env chars eval e) {e : Expr}
    (fits : e.Fits P chars) : IsSafe env chars (step env eval) e := by
  intro w within
  rw [Expr.subtractions_eq]
  cases fits with
  | literal column holds =>
      rw [← within.chars] at holds
      exact Keeps.safe ((plain_literal _).keeps (fits_literal holds))
  | name column holds => exact Keeps.safe (keeps_name within _)
  | formatted column fields =>
      have each := Part.forall_fields fun e conversion spec member =>
        parts e (fields e conversion spec member)
      exact (safe_formatted column within each).of_eq (by simp [Expr.parts, Expr.isSubtraction])
  | list column each =>
      have items := fun e member => parts e (each e member)
      exact (safe_list column within items).of_eq (by simp [Expr.parts, Expr.isSubtraction])
  | tuple column each =>
      have items := fun e member => parts e (each e member)
      exact (safe_tuple column within items).of_eq (by simp [Expr.parts, Expr.isSubtraction])
  | dict column keys values =>
      refine (safe_dict column within (fun e member => parts _ (keys e member))
        fun e member => parts _ (values e member)).of_eq ?_
      simp [Expr.parts, Expr.isSubtraction]
  | unary column op operand =>
      refine Safe.of_eq ((parts _ operand w within).bind_last fun after v grows of_v => ?_) (by
        simp [Expr.parts, Expr.isSubtraction])
      exact Keeps.safe ((Operator.plain_unary op v).keeps (Operator.fits_unary op of_v))
  | binary column op left right =>
      refine (safe_binary column within op (parts _ left) (parts _ right)).of_eq ?_
      cases op with
      | sub =>
          simp [Expr.parts, Expr.isSubtraction]
          omega
      | _ => simp [Expr.parts, Expr.isSubtraction]
  | bool column op left right =>
      refine (safe_bool column within op (parts _ left) (parts _ right)).of_eq ?_
      simp [Expr.parts, Expr.isSubtraction]
  | compare column first each =>
      have links := fun l member => parts _ (each l member)
      refine (safe_compare column within (parts _ first) links).of_eq ?_
      simp [Expr.parts, Expr.isSubtraction]
  | conditional column test body orelse =>
      refine (safe_conditional column within (parts _ test) (parts _ body) (parts _ orelse)).of_eq ?_
      simp [Expr.parts, Expr.isSubtraction]
  | member column id base =>
      refine Safe.of_eq ((parts _ base w within).bind_last fun after v grows of_v => ?_) (by
        simp [Expr.parts, Expr.isSubtraction])
      exact Safe.throw _
  | @call column e args func each =>
      refine Safe.of_eq (j := e.subtractions + ((args.map (·.2)).map Expr.subtractions).sum) ?_ (by
        simp [Expr.parts, Expr.isSubtraction])
      have arguments (a) (member : a ∈ args) := parts a.2 (each a member)
      have called := safe_callFunction (parts e func) arguments within
      cases func with
      | member column id base =>
          refine (safe_callMethod (parts _ base) arguments within id).of_eq ?_
          rw [Expr.subtractions_eq (.member ..)]
          simp [Expr.parts, Expr.isSubtraction]
      | _ => exact called
  | item column base position =>
      refine (safe_item column within (parts _ base) (parts _ position)).of_eq ?_
      simp [Expr.parts, Expr.isSubtraction]
  | slice column start base lower upper step =>
      refine (safe_sliced column within start (parts _ base) (fun i same => parts i (lower i same))
        (fun i same => parts i (upper i same)) fun i same => parts i (step i same)).of_eq ?_
      simp [Expr.parts, Expr.isSubtraction]

theorem isSafe_evalAt {P : Text → Prop} (budget : Nat) {e : Expr} (fits : e.Fits P chars) :
    IsSafe env chars (evalAt env budget) e := by
  induction budget generalizing e with
  | zero => exact fun _ _ => Safe.throw _
  | succ budget ih => exact isSafe_step (fun _ => ih) fits

end Evaluate

end Snippet
