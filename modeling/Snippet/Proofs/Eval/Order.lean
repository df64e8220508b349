import Snippet.Proofs.Eval.Plain
import Snippet.Proofs.Expr.Parts

/-!
The order in which the parts of an expression are evaluated. They are visited one after the other,
each in the store that the one before it left. The first one that fails is the last one to be
visited, and its failure is that of the whole.
-/

set_option autoImplicit false

namespace Snippet

open Eval (Plain)

variable {env : Env}

/-- An order in which the parts of an expression are evaluated: from left to right, and in an entry
of a dict the value before the key. A conditional evaluates its test and then one of its branches,
and the call of a method its receiver and then the arguments. -/
def Expr.Course : Expr → List Expr → Prop
  | .conditional _ test body orelse, es => es = [test, body] ∨ es = [test, orelse]
  | .call _ (.member _ base _) as, es => es = base :: as.map (·.2)
  | e, es => es = e.parts

namespace Evaluate

/-- A computation that has expressions evaluated in a given order and may stop before the last one.
In between it changes no list and no dict; what comes last satisfies a condition. -/
inductive InOrder (own : Eval Value → Prop) :
    (List Expr → Prop) → (Evaluator → Eval Value) → Prop where
  | own {order : List Expr → Prop} {m : Eval Value} (ends : own m) : InOrder own order fun _ => m
  | visit {order : List Expr → Prop} {e : Expr} {next : Value → Evaluator → Eval Value}
      (here : ∃ es, order (e :: es)) (later : ∀ v, InOrder own (fun es => order (e :: es)) (next v)) :
      InOrder own order fun eval => eval e >>= fun v => next v eval
  | between {order : List Expr → Prop} {α : Type} {m : Eval α} {next : α → Evaluator → Eval Value}
      (plain : m.Plain) (later : ∀ a, InOrder own order (next a)) :
      InOrder own order fun eval => m >>= fun a => next a eval

/-- What an expression does itself, once it has the values of its parts. -/
inductive Own (env : Env) : Expr → Eval Value → Prop where
  | plain {e : Expr} {m : Eval Value} (plain : m.Plain) : Own env e m
  | name (column : Nat) (id : Text) : Own env (.name column id) (name env id)
  | list (column : Nat) (es : List Expr) (items : List Value) :
      Own env (.list column es) (Value.ofList items >>= Value.checked)
  | dict (column : Nat) (es : List (Expr × Expr)) (entries : Entries) :
      Own env (.dict column es) (Value.ofEntries entries >>= Value.checked)
  | binary (column : Nat) (op : BinaryOp) (l r : Expr) (a b : Value) :
      Own env (.binary column op l r) (Operator.binary op a b)
  | slice (column : Nat) (e : Expr) (sub : Snippet.Subscript) (v : Value) (slice : Subscript.Slice) :
      Own env (.index column e sub) (Subscript.getSlice v slice)
  | method (column start : Nat) (e : Expr) (id : Text) (es : List Argument) (v : Value)
      (args : List Value) (keywords : Bindings) :
      Own env (.call column (.member start e id) es) (Method.call v id args keywords)
  | function (column : Nat) {func : Expr} (es : List Argument) {b : Builtin} (args : List Value)
      (keywords : Bindings) (other : ∀ start e id, func ≠ .member start e id)
      (known : b ∈ env.builtins) :
      Own env (.call column func es) (b.invoke args keywords >>= Value.checked)

namespace InOrder

variable {own : Eval Value → Prop} {order : List Expr → Prop}
  (ends : ∀ {m : Eval Value}, m.Plain → own m)

include ends in
-- The value of the last expression is that of the whole.
theorem last {e : Expr} (here : order [e]) : InOrder own order fun eval => eval e := by
  have same : (fun eval : Evaluator => eval e) = fun eval => eval e >>= fun v => pure v := by
    funext eval
    rw [bind_pure]
  rw [same]
  exact .visit ⟨[], here⟩ fun v => .own (ends (Eval.plain_pure v))

theorem mapM {items : List Expr} {next : List Value → Evaluator → Eval Value}
    (here : ∃ es, order (items ++ es))
    (later : ∀ vs, InOrder own (fun es => order (items ++ es)) (next vs)) :
    InOrder own order fun eval => items.mapM eval >>= fun vs => next vs eval := by
  induction items generalizing order next with
  | nil =>
      simp only [List.mapM_nil, pure_bind]
      exact later []
  | cons e rest ih =>
      simp only [List.mapM_cons, bind_assoc, pure_bind]
      obtain ⟨es, here⟩ := here
      refine .visit ⟨rest ++ es, here⟩ fun v => ?_
      exact @ih _ (fun vs => next (v :: vs)) ⟨es, here⟩ fun vs => later (v :: vs)

theorem parts {ps : List Part} {next : List Value → Evaluator → Eval Value}
    (here : ∃ es, order (ps.filterMap Part.expr? ++ es))
    (later : ∀ vs, InOrder own (fun es => order (ps.filterMap Part.expr? ++ es)) (next vs)) :
    InOrder own order fun eval => ps.mapM (part eval) >>= fun vs => next vs eval := by
  induction ps generalizing order next with
  | nil =>
      simp only [List.mapM_nil, pure_bind]
      exact later []
  | cons p rest ih =>
      simp only [List.mapM_cons, bind_assoc, pure_bind]
      obtain ⟨es, here⟩ := here
      cases p with
      | text t =>
          refine .between (Value.plain_ofText t) fun v => ?_
          exact @ih _ (fun vs => next (v :: vs)) ⟨es, here⟩ fun vs => later (v :: vs)
      | field e conversion spec =>
          simp only [part, bind_assoc]
          refine .visit ⟨_, here⟩ fun v => ?_
          refine .between (Value.plain_checkWeight v) fun _ => ?_
          refine .between (plain_convert conversion v) fun v => ?_
          refine .between (by grind) fun v => ?_
          exact @ih _ (fun vs => next (v :: vs)) ⟨es, here⟩ fun vs => later (v :: vs)

theorem entries {es : List (Expr × Expr)} {next : Entries → Evaluator → Eval Value} (done : Entries)
    (here : ∃ more, order (es.flatMap (fun e => [e.2, e.1]) ++ more))
    (later : ∀ all, InOrder own (fun more => order (es.flatMap (fun e => [e.2, e.1]) ++ more))
      (next all)) :
    InOrder own order fun eval => entries eval done es >>= fun all => next all eval := by
  induction es generalizing order done with
  | nil =>
      simp only [Evaluate.entries, pure_bind]
      exact later done
  | cons e rest ih =>
      obtain ⟨k, v⟩ := e
      obtain ⟨more, here⟩ := here
      simp only [Evaluate.entries, bind_assoc]
      refine .visit ⟨_, here⟩ fun value => ?_
      refine .visit ⟨_, here⟩ fun key => ?_
      have behind := @ih (fun more => order (v :: k :: more)) (done.insert key value) ⟨more, here⟩ later
      cases hashable : key.isHashable with
      | true => exact behind
      | false =>
          simp only [Bool.not_false, if_true, bind_assoc]
          exact .between (Eval.plain_breach .type) fun _ => behind

include ends in
theorem links {ls : List (Comparison × Expr)} (left : Value)
    (here : ∃ es, order (ls.map (·.2) ++ es)) :
    InOrder own order fun eval => links eval left ls >>= fun holds => pure (.bool holds) := by
  induction ls generalizing order left with
  | nil => exact .own (ends (Eval.plain_pure _))
  | cons l rest ih =>
      obtain ⟨op, e⟩ := l
      obtain ⟨es, here⟩ := here
      simp only [Evaluate.links, bind_assoc]
      refine .visit ⟨_, here⟩ fun right => ?_
      refine .between (Operator.plain_compare op left right) fun holds => ?_
      cases holds with
      | true => exact ih right ⟨es, here⟩
      | false => exact .own (ends (Eval.plain_pure _))

include ends in
theorem argumentsFrom {as : List Argument} {next : List Value × Bindings → Evaluator → Eval Value}
    (args : List Value) (keywords : Bindings) (here : ∃ es, order (as.map (·.2) ++ es))
    (later : ∀ given, InOrder own (fun es => order (as.map (·.2) ++ es)) (next given)) :
    InOrder own order fun eval =>
      argumentsFrom eval args keywords as >>= fun given => next given eval := by
  induction as generalizing order args keywords with
  | nil =>
      simp only [Evaluate.argumentsFrom, pure_bind]
      exact later _
  | cons a rest ih =>
      obtain ⟨keyword, e⟩ := a
      obtain ⟨es, here⟩ := here
      simp only [Evaluate.argumentsFrom, bind_assoc]
      refine .visit ⟨_, here⟩ fun v => ?_
      cases keyword with
      | none => exact ih _ _ ⟨es, here⟩ later
      | some k =>
          dsimp only
          cases repeated : keywords.any fun b => b.1 == k with
          | true => exact .own (ends (Eval.plain_fail (by grind)))
          | false => exact ih _ _ ⟨es, here⟩ later

theorem optional {e : Option Expr} {next : Option Value → Evaluator → Eval Value}
    (here : ∃ es, order (e.toList ++ es))
    (later : ∀ v, InOrder own (fun es => order (e.toList ++ es)) (next v)) :
    InOrder own order fun eval => optional eval e >>= fun v => next v eval := by
  cases e with
  | none => exact later none
  | some e =>
      simp only [Evaluate.optional, map_eq_pure_bind, bind_assoc, pure_bind]
      exact .visit here fun v => later (some v)

end InOrder

-- Nothing is left to visit behind all parts.
theorem exists_course {order : List Expr → Prop} {es : List Expr} (all : order es) :
    ∃ more, order (es ++ more) :=
  ⟨[], by rwa [List.append_nil]⟩

theorem inOrder_slice {own : Eval Value → Prop} {order : List Expr → Prop}
    {lower upper step : Option Expr} {next : Subscript.Slice → Eval Value}
    (here : order (lower.toList ++ upper.toList ++ step.toList)) (ends : ∀ s, own (next s)) :
    InOrder own order fun eval => slice eval lower upper step >>= next := by
  simp only [slice, bind_assoc, pure_bind]
  rw [List.append_assoc, ← List.append_nil step.toList] at here
  refine .optional ⟨_, here⟩ fun l => ?_
  refine .optional ⟨_, here⟩ fun u => ?_
  refine .optional ⟨_, here⟩ fun s => ?_
  exact .own (ends ⟨l, u, s⟩)

theorem inOrder_callMethod (column start : Nat) (base : Expr) (id : Text) (as : List Argument) :
    InOrder (Own env (.call column (.member start base id) as))
      (Expr.Course (.call column (.member start base id) as))
      fun eval => callMethod eval base id as := by
  refine .visit ⟨_, rfl⟩ fun v => ?_
  refine .argumentsFrom .plain [] [] ⟨[], congrArg _ (List.append_nil _)⟩ fun given => ?_
  exact .own (.method column start base id as v given.1 given.2)

theorem inOrder_callFunction (column : Nat) {func : Expr} (as : List Argument)
    (other : ∀ start e id, func ≠ .member start e id) :
    InOrder (Own env (.call column func as)) (Expr.Course (.call column func as))
      fun eval => callFunction env eval func as := by
  have whole : Expr.Course (.call column func as) (func :: as.map (·.2)) := by
    cases func with
    | member start e id => exact absurd rfl (other start e id)
    | _ => rfl
  refine .visit ⟨_, whole⟩ fun callee => ?_
  refine .argumentsFrom .plain [] [] ⟨[], by rwa [List.append_nil]⟩ fun given => ?_
  have refused : InOrder (Own env (.call column func as)) (fun es => Expr.Course (.call column func as)
      (func :: (as.map (·.2) ++ es))) fun _ => Eval.fail (.notCallable callee.typeName) :=
    .own (.plain (Eval.plain_fail (by grind)))
  cases callee with
  | builtin id =>
      dsimp only
      cases found : Builtin.find? env.builtins id with
      | none => exact refused
      | some b =>
          exact .own (.function column as given.1 given.2 other (List.mem_of_find?_eq_some found))
  | _ => exact refused

/-- One expression: its parts are visited in order, and then it does what is its own. -/
theorem inOrder_step (env : Env) (e : Expr) :
    InOrder (Own env e) e.Course fun eval => step env eval e := by
  cases e with
  | literal column l => exact .own (.plain (plain_literal l))
  | name column id => exact .own (.name column id)
  | formatted column ps =>
      exact .parts (exists_course rfl) fun vs => .own (.plain (by grind))
  | list column es =>
      exact .mapM (exists_course rfl) fun vs => .own (.list column es vs)
  | tuple column es =>
      exact .mapM (exists_course rfl) fun vs => .own (.plain (by grind))
  | dict column es =>
      exact .entries [] (exists_course rfl) fun all => .own (.dict column es all)
  | unary column op e =>
      exact .visit ⟨[], rfl⟩ fun v => .own (.plain (Operator.plain_unary op v))
  | binary column op l r =>
      refine .visit ⟨[r], rfl⟩ fun a => ?_
      exact .visit ⟨[], rfl⟩ fun b => .own (.binary column op l r a b)
  | bool column op l r =>
      refine .visit ⟨[r], rfl⟩ fun v => ?_
      refine .between (m := isTrue v) (by grind [isTrue]) fun holds => ?_
      cases holds == (op == .or) with
      | true => exact .own (.plain (Eval.plain_pure v))
      | false => exact .last .plain rfl
  | compare column first ls =>
      refine .visit ⟨_, rfl⟩ fun v => ?_
      exact .links .plain v ⟨[], congrArg _ (List.append_nil _)⟩
  | conditional column test body orelse =>
      refine .visit ⟨[body], .inl rfl⟩ fun v => ?_
      refine .between (m := isTrue v) (by grind [isTrue]) fun holds => ?_
      cases holds with
      | true => exact .last .plain (.inl rfl)
      | false => exact .last .plain (.inr rfl)
  | member column base id =>
      exact .visit ⟨[], rfl⟩ fun v => .own (.plain (Eval.plain_fail (by grind)))
  | call column func as =>
      cases func with
      | member start base id => exact inOrder_callMethod column start base id as
      | _ => exact inOrder_callFunction column as nofun
  | index column base sub =>
      cases sub with
      | item e =>
          refine .visit ⟨[e], rfl⟩ fun v => ?_
          exact .visit ⟨[], rfl⟩ fun i => .own (.plain (Subscript.plain_getItem v i))
      | slice start lower upper step =>
          refine .visit ⟨_, rfl⟩ fun v => ?_
          exact inOrder_slice rfl fun s => .slice column base _ v s

/-- Expressions that are evaluated one after the other, each with the store that it is evaluated in.
That is the store that the one before it left, up to tags. The first one that fails is the last. -/
inductive Visits (eval : Evaluator) : Store → List (Expr × Store) → Option Fault → Store → Prop where
  | done {s s' : Store} (same : s.SameData s') : Visits eval s [] none s'
  | failed {s before s' : Store} {e : Expr} {fault : Fault} (same : s.SameData before)
      (ran : eval e before = .error fault s') : Visits eval s [(e, before)] (some fault) s'
  | next {s before after s' : Store} {e : Expr} {v : Value} {visits : List (Expr × Store)}
      {failure : Option Fault} (same : s.SameData before) (ran : eval e before = .ok v after)
      (rest : Visits eval after visits failure s') :
      Visits eval s ((e, before) :: visits) failure s'

theorem Visits.after {eval : Evaluator} {s s' s'' : Store} {visits : List (Expr × Store)}
    {failure : Option Fault} (same : s.SameData s') (rest : Visits eval s' visits failure s'') :
    Visits eval s visits failure s'' := by
  cases rest with
  | done later => exact .done (same.trans later)
  | failed later ran => exact .failed (same.trans later) ran
  | next later ran rest => exact .next (same.trans later) ran rest

/-- How a computation ends: with the failure of the last visit, or with what is its own. -/
def EndsWith (own : Eval Value → Prop) (s : Store) (r : EStateM.Result Fault Store Value) :
    Option Fault → Prop
  | some fault => r = .error fault s
  | none => ∃ m, own m ∧ r = m s

/-- The course of a computation: what it visits, in the given order, and how it ends. The outcome
depends on the visits only, so that nothing else is evaluated. -/
structure Traced (own : Eval Value → Prop) (order : List Expr → Prop) (f : Evaluator → Eval Value)
    (eval : Evaluator) (s : Store) (visits : List (Expr × Store)) (failure : Option Fault)
    (s' : Store) : Prop where
  order : ∃ es, order (visits.map (·.1) ++ es)
  visited : Visits eval s visits failure s'
  ended : EndsWith own s' (f eval s) failure
  only : ∀ eval', (∀ x ∈ visits, eval' x.1 x.2 = eval x.1 x.2) → f eval' s = f eval s

namespace Traced

variable {own : Eval Value → Prop} {order : List Expr → Prop} {eval : Evaluator}
  {s after s' : Store} {visits : List (Expr × Store)} {failure : Option Fault}

theorem visit_failed {e : Expr} {next : Value → Evaluator → Eval Value} {fault : Fault}
    (here : ∃ es, order (e :: es)) (ran : eval e s = .error fault s') :
    Traced own order (fun eval => eval e >>= fun v => next v eval) eval s [(e, s)] (some fault) s' := by
  have same (eval' : Evaluator) (agree : eval' e s = eval e s) :
      (eval' e >>= fun v => next v eval') s = .error fault s' := by
    rw [bind_eq, agree, ran]
  refine ⟨here, .failed (.refl s) ran, same eval rfl, fun eval' agree => ?_⟩
  exact (same eval' (agree _ List.mem_cons_self)).trans (same eval rfl).symm

theorem visit {e : Expr} {v : Value} {next : Value → Evaluator → Eval Value}
    (ran : eval e s = .ok v after)
    (rest : Traced own (fun es => order (e :: es)) (next v) eval after visits failure s') :
    Traced own order (fun eval => eval e >>= fun v => next v eval) eval s ((e, s) :: visits) failure
      s' := by
  have same (eval' : Evaluator) (agree : eval' e s = eval e s) :
      (eval' e >>= fun v => next v eval') s = next v eval' after := by
    rw [bind_eq, agree, ran]
  refine ⟨rest.order, .next (.refl s) ran rest.visited, ?_, fun eval' agree => ?_⟩
  · exact (same eval rfl).symm ▸ rest.ended
  · obtain ⟨first, later⟩ := List.forall_mem_cons.mp agree
    exact (same eval' first).trans ((rest.only eval' later).trans (same eval rfl).symm)

theorem between_failed {α : Type} {m : Eval α} {next : α → Evaluator → Eval Value} {fault : Fault}
    (here : ∃ es, order es) (plain : m.Plain) (ends : ∀ {m : Eval Value}, m.Plain → own m)
    (ran : m s = .error fault s') :
    Traced own order (fun eval => m >>= fun a => next a eval) eval s [] none s' := by
  have same (eval' : Evaluator) : (m >>= fun a => next a eval') s = .error fault s' := by
    rw [bind_eq, ran]
  obtain ⟨kept, ordinary⟩ := plain.error ran
  refine ⟨here, .done kept, ⟨throw fault, ends (Eval.plain_throw ordinary), same eval⟩, ?_⟩
  exact fun eval' _ => (same eval').trans (same eval).symm

theorem between {α : Type} {m : Eval α} {a : α} {next : α → Evaluator → Eval Value}
    (plain : m.Plain) (ran : m s = .ok a after)
    (rest : Traced own order (next a) eval after visits failure s') :
    Traced own order (fun eval => m >>= fun a => next a eval) eval s visits failure s' := by
  have same (eval' : Evaluator) : (m >>= fun a => next a eval') s = next a eval' after := by
    rw [bind_eq, ran]
  refine ⟨rest.order, rest.visited.after (plain.ok ran), ?_, fun eval' agree => ?_⟩
  · exact (same eval).symm ▸ rest.ended
  · exact (same eval').trans ((rest.only eval' agree).trans (same eval).symm)

end Traced

theorem InOrder.traced {own : Eval Value → Prop} (ends : ∀ {m : Eval Value}, m.Plain → own m)
    {order : List Expr → Prop} {f : Evaluator → Eval Value} (ordered : InOrder own order f)
    (some_ : ∃ es, order es) (eval : Evaluator) (s : Store) :
    ∃ visits failure s', Traced own order f eval s visits failure s' := by
  induction ordered generalizing s with
  | own holds =>
      exact ⟨[], none, s, some_, .done (.refl s), ⟨_, holds, rfl⟩, fun _ _ => rfl⟩
  | @visit order e next here later ih =>
      cases ran : eval e s with
      | error fault s' => exact ⟨_, _, _, .visit_failed here ran⟩
      | ok v after =>
          obtain ⟨visits, failure, s', rest⟩ := ih v here after
          exact ⟨_, _, _, .visit ran rest⟩
  | @between order α m next plain later ih =>
      cases ran : m s with
      | error fault s' => exact ⟨_, _, _, .between_failed some_ plain ends ran⟩
      | ok a after =>
          obtain ⟨visits, failure, s', rest⟩ := ih a some_ after
          exact ⟨_, _, _, .between plain ran rest⟩

theorem exists_course_of (e : Expr) : ∃ course, e.Course course := by
  cases e with
  | conditional column test body orelse => exact ⟨_, .inl rfl⟩
  | call column func as => cases func <;> exact ⟨_, rfl⟩
  | _ => exact ⟨_, rfl⟩

/-- The parts of an expression are evaluated one after the other, from left to right, and in an entry
of a dict the value before the key. What they do to the store happens in this order, and the first
one that fails ends the evaluation with its failure. -/
theorem parts_in_order (env : Env) (e : Expr) :
    (∀ budget, evalAt env (budget + 1) e = step env (evalAt env budget) e) ∧
    ∀ (eval : Evaluator) (s : Store), ∃ visits failure s',
      (∃ course, e.Course course ∧ visits.map (·.1) <+: course) ∧
        Visits eval s visits failure s' ∧ EndsWith (Own env e) s' (step env eval e s) failure ∧
          ∀ eval', (∀ x ∈ visits, eval' x.1 x.2 = eval x.1 x.2) →
            step env eval' e s = step env eval e s := by
  refine ⟨fun _ => rfl, fun eval s => ?_⟩
  obtain ⟨visits, failure, s', ⟨⟨es, course⟩, visited, ended, only⟩⟩ :=
    (inOrder_step env e).traced .plain (exists_course_of e) eval s
  exact ⟨visits, failure, s', ⟨_, course, List.prefix_append _ es⟩, visited, ended, only⟩

-- Of two names that are missing in an entry, that of the value is reported.
example : (match Session.evaluate ⟨.empty, Builtin.core⟩ "\x7bx: y\x7d".toList .empty with
    | .error (.cause (.undefinedName name)) _ => name == "y".toList
    | _ => false) = true := by
  decide +kernel

end Evaluate

end Snippet
