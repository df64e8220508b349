import Snippet.Eval.Evaluate
import Snippet.Proofs.Eval.Missing
import Snippet.Proofs.Expr.Names

/-!
Names that an evaluation misses. Methods and functions miss none, so a failure that is about a name
is about one that the expression holds and that is bound nowhere.
-/

set_option autoImplicit false

namespace Snippet

open Eval (MissesOnly missesOnly_after)

variable {Q : Text → Prop}

namespace Method

-- A list that is changed in place, with what is given back.
theorem missesOnly_setItems_pure (ref : Ref) (items : List Value) (v : Value) :
    MissesOnly Q (Eval.setItems ref items >>= fun _ => pure v) :=
  Eval.missesOnly_bind (Eval.missesOnly_setItems ref items) fun _ => Eval.missesOnly_pure v

theorem missesOnly_split (base : Value) (t : Text) (args : List Value) (keywords : Bindings) :
    MissesOnly Q (split base t args keywords) := by
  have words (n : Nat) : MissesOnly Q (splitAtBlanks base t n >>= Value.ofList) :=
    missesOnly_after (plain_splitAtBlanks base t n) Value.missesOnly_ofList
  have parts (sep : Value) (n : Nat) : MissesOnly Q
      (textOf sep >>= fun sep => splitAt base t sep n >>= Value.ofList) := by
    refine missesOnly_after (plain_textOf sep) fun sep => ?_
    exact missesOnly_after (plain_splitAt base t sep n) Value.missesOnly_ofList
  refine missesOnly_after (plain_splitArguments args keywords) fun given => ?_
  obtain ⟨sep, limit⟩ := given
  dsimp only
  split
  · split <;> first | exact words _ | exact parts _ _
  · refine missesOnly_after (plain_wordOf _) fun limit => ?_
    split <;> first | exact words _ | exact parts _ _

theorem missesOnly_callText (base : Value) (t : Text) (m : TextMethod) (args : List Value)
    (keywords : Bindings) : MissesOnly Q (callText base t m args keywords) := by
  cases m with
  | upper | lower | title | capitalize => exact (plain_changed args _).missesOnly
  | strip | lstrip | rstrip => exact (plain_strip base t _ args).missesOnly
  | replace => exact (plain_replace base t args).missesOnly
  | split => exact missesOnly_split base t args keywords
  | join => exact (plain_join t args).missesOnly
  | startswith | endswith => exact (plain_matchesEnd _ t args).missesOnly
  | count | find => exact (plain_search _ _ t args).missesOnly
  | isdigit | isalpha => exact (plain_allOf args _ t).missesOnly

theorem missesOnly_pop (ref : Ref) (args : List Value) : MissesOnly Q (pop ref args) := by
  unfold pop
  extract_lets taken
  have behind (i : Int) : MissesOnly Q (taken i) := by
    refine missesOnly_after (Eval.plain_itemsOf ref) fun items => ?_
    refine Eval.missesOnly_guarded (Eval.plain_breach _) ?_
    dsimp only
    split
    · exact (Eval.plain_breach _).missesOnly
    · exact missesOnly_setItems_pure ref _ _
  clear_value taken
  split
  · exact behind _
  · exact missesOnly_after (plain_wordOf _) behind
  · exact missesOnly_after (Eval.plain_breach _) behind

theorem missesOnly_insert (ref : Ref) (args : List Value) : MissesOnly Q (insert ref args) := by
  unfold insert
  split
  · refine missesOnly_after (plain_wordOf _) fun i => ?_
    refine missesOnly_after (Eval.plain_itemsOf ref) fun items => ?_
    exact missesOnly_setItems_pure ref _ _
  · exact (Eval.plain_breach _).missesOnly

theorem missesOnly_remove (ref : Ref) (args : List Value) : MissesOnly Q (remove ref args) := by
  unfold remove
  split
  · refine missesOnly_after (Eval.plain_itemsOf ref) fun items => ?_
    refine missesOnly_after Eval.plain_get fun s => ?_
    refine missesOnly_after (Eval.plain_lift _) fun found => ?_
    split
    · exact missesOnly_setItems_pure ref _ _
    · exact (Eval.plain_breach _).missesOnly
  · exact (Eval.plain_breach _).missesOnly

theorem missesOnly_sortInPlace (ref : Ref) (items : List Value) (reversed : Bool) :
    MissesOnly Q (sortInPlace ref items reversed) := by
  refine Eval.missesOnly_bind (Eval.missesOnly_setItems ref []) fun _ => ?_
  refine Eval.missesOnly_catch ?_ fun fault misses => ?_
  · exact missesOnly_after (plain_sortItems items reversed) (Eval.missesOnly_setItems ref)
  · refine Eval.missesOnly_bind (Eval.missesOnly_setItems ref items) fun _ => ?_
    exact Eval.missesOnly_throw misses

theorem missesOnly_callList (ref : Ref) (m : ListMethod) (args : List Value)
    (keywords : Bindings) : MissesOnly Q (callList ref m args keywords) := by
  refine missesOnly_after (Eval.plain_itemsOf ref) fun items => ?_
  cases m with
  | append =>
      dsimp only
      split
      · exact missesOnly_setItems_pure ref _ _
      · exact (Eval.plain_breach _).missesOnly
  | pop => exact missesOnly_pop ref args
  | insert => exact missesOnly_insert ref args
  | remove => exact missesOnly_remove ref args
  | count => exact (plain_countOf items args).missesOnly
  | index => exact (plain_indexOf items args).missesOnly
  | sort =>
      refine missesOnly_after (plain_noArguments args) fun _ => ?_
      refine missesOnly_after (plain_reverseFlag keywords) fun reversed => ?_
      exact Eval.missesOnly_bind (missesOnly_sortInPlace ref items reversed) fun _ =>
        Eval.missesOnly_pure _
  | reverse =>
      exact missesOnly_after (plain_noArguments args) fun _ => missesOnly_setItems_pure ref _ _
  | copy =>
      exact missesOnly_after (plain_noArguments args) fun _ => Value.missesOnly_ofList items

theorem missesOnly_dictPop (ref : Ref) (args : List Value) : MissesOnly Q (dictPop ref args) := by
  refine missesOnly_after (plain_keyArguments args) fun given => ?_
  obtain ⟨key, fallback⟩ := given
  refine missesOnly_after (Eval.plain_entriesOf ref) fun entries => ?_
  refine Eval.missesOnly_guarded (Eval.plain_breach _) ?_
  dsimp only
  split
  · exact Eval.missesOnly_bind (Eval.missesOnly_setEntries ref _) fun _ => Eval.missesOnly_pure _
  · split
    · exact Eval.missesOnly_pure _
    · exact Eval.missesOnly_throw trivial

theorem missesOnly_callDict (ref : Ref) (m : DictMethod) (args : List Value) :
    MissesOnly Q (callDict ref m args) := by
  cases m with
  | get => exact (plain_dictGet ref args).missesOnly
  | pop => exact missesOnly_dictPop ref args
  | keys | values | items => exact (plain_view ref _ args).missesOnly

theorem missesOnly_run (base : Value) (method : BoundMethod) (args : List Value)
    (keywords : Bindings) : MissesOnly Q (run base method args keywords) := by
  cases method with
  | ofText t m => exact missesOnly_callText base t m args keywords
  | ofList r m => exact missesOnly_callList r m args keywords
  | ofTuple items m => exact (plain_callTuple items m args).missesOnly
  | ofDict r m => exact missesOnly_callDict r m args

/-- A method call fails for a reason that is about no name. -/
theorem missesOnly_call (base : Value) (name : Text) (args : List Value) (keywords : Bindings) :
    MissesOnly Q (call base name args keywords) := by
  unfold call
  split
  · exact (Eval.plain_fail (by simp)).missesOnly
  · split
    · exact (Eval.plain_fail (by simp)).missesOnly
    · refine missesOnly_after (Eval.plain_forM Value.plain_checkWeight) fun _ => ?_
      refine missesOnly_after Eval.plain_get fun s => ?_
      refine Eval.missesOnly_guarded (Eval.plain_fail (by simp)) ?_
      exact Eval.missesOnly_bind (missesOnly_run base _ args keywords) fun v =>
        (Value.plain_checked v).missesOnly

end Method

namespace Builtin

theorem missesOnly_settle {α : Type} {fault : Fault} (h : fault.MissesOnly Q) :
    MissesOnly Q (settle fault : Eval α) := by
  cases fault with
  | cause c => exact Eval.missesOnly_fail h
  | breach b => exact (Eval.plain_fail (by simp)).missesOnly
  | missingKey key =>
      refine missesOnly_after Eval.plain_get fun s => ?_
      refine missesOnly_after (Eval.plain_lift _) fun shown => ?_
      exact (Eval.plain_fail (by simp)).missesOnly

-- A function that misses no name misses none when it is called.
theorem missesOnly_invoke {b : Builtin} {args : List Value} {keywords : Bindings}
    (h : MissesOnly Q (b.run args keywords)) : MissesOnly Q (b.invoke args keywords) := by
  refine missesOnly_after (plain_checkArguments b args.length keywords) fun _ => ?_
  refine missesOnly_after (Eval.plain_forM Value.plain_checkWeight) fun _ => ?_
  refine missesOnly_after (Eval.plain_forM fun k => Value.plain_checkWeight k.2) fun _ => ?_
  exact Eval.missesOnly_catch h fun fault misses => missesOnly_settle misses

theorem missesOnly_sumFrom (start : Value) (items : List Value) :
    MissesOnly Q (sumFrom start items) := by
  unfold sumFrom
  split
  · exact (plain_emptySum _).missesOnly
  · refine missesOnly_after (Eval.plain_mapM fun v _ => ?each) fun rest => ?_
    case each =>
      split
      · exact Eval.plain_itemsOf _
      · exact Eval.plain_breach _
    exact missesOnly_after (Eval.plain_itemsOf _) fun items => Value.missesOnly_ofList _
  · exact Eval.missesOnly_foldlM Operator.missesOnly_addPlain

theorem missesOnly_sum (args : List Value) (keywords : Bindings) :
    MissesOnly Q (sum args keywords) := by
  unfold sum
  split
  · refine missesOnly_after (Value.plain_ofInt 0) fun start => ?_
    exact missesOnly_after (Subscript.plain_iterate _) fun items => missesOnly_sumFrom start items
  · split
    · exact (Eval.plain_fail (by simp)).missesOnly
    · exact missesOnly_after (Subscript.plain_iterate _) fun items => missesOnly_sumFrom _ items
  · exact (Eval.plain_breach _).missesOnly

theorem missesOnly_sorted (args : List Value) (keywords : Bindings) :
    MissesOnly Q (sorted args keywords) := by
  unfold sorted
  split
  · refine missesOnly_after Eval.plain_get fun s => ?_
    refine missesOnly_after (Subscript.plain_iterate _) fun items => ?_
    exact missesOnly_after (Method.plain_sortItems items _) Value.missesOnly_ofList
  · exact (Eval.plain_breach _).missesOnly

theorem missesOnly_toList (args : List Value) (keywords : Bindings) :
    MissesOnly Q (toList args keywords) := by
  unfold toList
  split
  · exact missesOnly_after (Subscript.plain_iterate _) Value.missesOnly_ofList
  · exact Value.missesOnly_ofList []

/-- The functions that every snippet may call miss no name. -/
theorem missesOnly_run {b : Builtin} (member : b ∈ core) (args : List Value)
    (keywords : Bindings) : MissesOnly Q (b.run args keywords) := by
  simp only [core, List.mem_cons, List.not_mem_nil, or_false] at member
  obtain rfl | rfl | rfl | rfl | rfl | rfl | rfl | rfl | rfl | rfl | rfl | rfl := member
  · exact (plain_length args keywords).missesOnly
  · exact (plain_toText args keywords).missesOnly
  · exact (plain_toInt args keywords).missesOnly
  · exact (plain_toFloat args keywords).missesOnly
  · exact (plain_toBool args keywords).missesOnly
  · exact (plain_absolute args keywords).missesOnly
  · exact (plain_extreme .gt args keywords).missesOnly
  · exact (plain_extreme .lt args keywords).missesOnly
  · exact missesOnly_sum args keywords
  · exact (plain_round args keywords).missesOnly
  · exact missesOnly_sorted args keywords
  · exact missesOnly_toList args keywords

end Builtin

-- A name that is bound neither in the scope nor among the functions.
def Env.Lacks (env : Env) (name : Text) : Prop :=
  env.scope.find? name = none ∧ Builtin.find? env.builtins name = none

namespace Evaluate

theorem missesOnly_name {env : Env} {id : Text} (h : env.Lacks id → Q id) :
    MissesOnly Q (name env id) := by
  rw [name]
  split
  · exact Eval.missesOnly_pure _
  · split
    · exact Eval.missesOnly_pure _
    · exact Eval.missesOnly_throw (by grind [Env.Lacks])

section Parts

variable {eval : Evaluator}

theorem missesOnly_part {p : Part}
    (field : ∀ e conversion spec, p = .field e conversion spec → MissesOnly Q (eval e)) :
    MissesOnly Q (part eval p) := by
  cases p with
  | text t => exact (Value.plain_ofText t).missesOnly
  | field e conversion spec =>
      refine Eval.missesOnly_bind (field e conversion spec rfl) fun v => ?_
      refine missesOnly_after (Value.plain_checkWeight v) fun _ => ?_
      refine missesOnly_after (plain_convert conversion v) fun v => ?_
      refine Eval.missesOnly_guarded (Eval.plain_fail (by simp)) ?_
      exact (plain_format v _).missesOnly

theorem missesOnly_entries (done : Entries) {es : List (Expr × Expr)}
    (keys : ∀ e ∈ es, MissesOnly Q (eval e.1)) (values : ∀ e ∈ es, MissesOnly Q (eval e.2)) :
    MissesOnly Q (entries eval done es) := by
  induction es generalizing done with
  | nil => exact Eval.missesOnly_pure done
  | cons e rest ih =>
      have later (done : Entries) : MissesOnly Q (entries eval done rest) :=
        ih done (fun e member => keys e (List.mem_cons_of_mem _ member))
          fun e member => values e (List.mem_cons_of_mem _ member)
      refine Eval.missesOnly_bind (values e List.mem_cons_self) fun value => ?_
      refine Eval.missesOnly_bind (keys e List.mem_cons_self) fun key => ?_
      exact Eval.missesOnly_guarded (Eval.plain_breach _) (later _)

theorem missesOnly_links (left : Value) {rest : List (Comparison × Expr)}
    (each : ∀ link ∈ rest, MissesOnly Q (eval link.2)) : MissesOnly Q (links eval left rest) := by
  induction rest generalizing left with
  | nil => exact Eval.missesOnly_pure true
  | cons link rest ih =>
      have later (left : Value) : MissesOnly Q (links eval left rest) :=
        ih left fun link member => each link (List.mem_cons_of_mem _ member)
      refine Eval.missesOnly_bind (each link List.mem_cons_self) fun right => ?_
      refine missesOnly_after (Operator.plain_compare link.1 left right) fun holds => ?_
      cases holds with
      | true => exact later right
      | false => exact Eval.missesOnly_pure false

theorem missesOnly_argumentsFrom (args : List Value) (keywords : Bindings) {rest : List Argument}
    (each : ∀ a ∈ rest, MissesOnly Q (eval a.2)) :
    MissesOnly Q (argumentsFrom eval args keywords rest) := by
  induction rest generalizing args keywords with
  | nil => exact Eval.missesOnly_pure _
  | cons a rest ih =>
      have later (args : List Value) (keywords : Bindings) :
          MissesOnly Q (argumentsFrom eval args keywords rest) :=
        ih args keywords fun a member => each a (List.mem_cons_of_mem _ member)
      refine Eval.missesOnly_bind (each a List.mem_cons_self) fun v => ?_
      split
      · exact later _ _
      · split
        · exact (Eval.plain_fail (by simp)).missesOnly
        · exact later _ _

theorem missesOnly_callMethod {base : Expr} {id : Text} {args : List Argument}
    (receiver : MissesOnly Q (eval base)) (each : ∀ a ∈ args, MissesOnly Q (eval a.2)) :
    MissesOnly Q (callMethod eval base id args) := by
  refine Eval.missesOnly_bind receiver fun v => ?_
  refine Eval.missesOnly_bind (missesOnly_argumentsFrom [] [] each) fun ⟨args, keywords⟩ => ?_
  exact Method.missesOnly_call v id args keywords

theorem missesOnly_optional {e : Option Expr} (each : ∀ i ∈ e, MissesOnly Q (eval i)) :
    MissesOnly Q (optional eval e) := by
  cases e with
  | none => exact Eval.missesOnly_pure none
  | some i => exact Eval.missesOnly_map some (each i rfl)

theorem missesOnly_slice {lower upper step : Option Expr}
    (of_lower : ∀ i ∈ lower, MissesOnly Q (eval i)) (of_upper : ∀ i ∈ upper, MissesOnly Q (eval i))
    (of_step : ∀ i ∈ step, MissesOnly Q (eval i)) :
    MissesOnly Q (slice eval lower upper step) := by
  refine Eval.missesOnly_bind (missesOnly_optional of_lower) fun _ => ?_
  refine Eval.missesOnly_bind (missesOnly_optional of_upper) fun _ => ?_
  exact Eval.missesOnly_bind (missesOnly_optional of_step) fun _ => Eval.missesOnly_pure _

end Parts

section Names

variable {P : Text → Prop} {L : Literal → Prop} {env : Env}
  (table : ∀ b ∈ env.builtins, ∀ args keywords, MissesOnly Q (b.run args keywords))

include table in
theorem missesOnly_callFunction {eval : Evaluator} {func : Expr} {args : List Argument}
    (callee : MissesOnly Q (eval func)) (each : ∀ a ∈ args, MissesOnly Q (eval a.2)) :
    MissesOnly Q (callFunction env eval func args) := by
  refine Eval.missesOnly_bind callee fun v => ?_
  refine Eval.missesOnly_bind (missesOnly_argumentsFrom [] [] each) fun ⟨args, keywords⟩ => ?_
  have refused : MissesOnly Q (Eval.fail (.notCallable v.typeName) : Eval Value) :=
    (Eval.plain_fail (by simp)).missesOnly
  cases v with
  | builtin id =>
      dsimp only
      cases found : Builtin.find? env.builtins id with
      | none => exact refused
      | some b =>
          have member : b ∈ env.builtins := List.mem_of_find?_eq_some found
          have called := Builtin.missesOnly_invoke (table b member args keywords)
          exact Eval.missesOnly_bind called fun v => (Value.plain_checked v).missesOnly
  | _ => exact refused

variable (unbound : ∀ id, P id → env.Lacks id → Q id)

include table unbound in
/-- One expression: the names that it misses are its own, or missed by its parts. -/
theorem missesOnly_step {eval : Evaluator} (parts : ∀ e, e.AtomsAre P L → MissesOnly Q (eval e))
    {e : Expr} (names : e.AtomsAre P L) : MissesOnly Q (step env eval e) := by
  have checked (v : Value) : MissesOnly Q v.checked := (Value.plain_checked v).missesOnly
  cases names with
  | literal column holds => exact (plain_literal _).missesOnly
  | name column holds => exact missesOnly_name fun lacks => unbound _ holds lacks
  | formatted column fields =>
      refine Eval.missesOnly_bind (Eval.missesOnly_mapM fun p member => ?_) fun vs => ?_
      · exact missesOnly_part fun e conversion spec same =>
          parts e (fields e conversion spec (same ▸ member))
      · exact Eval.missesOnly_bind (plain_joinParts vs).missesOnly checked
  | list column each =>
      refine Eval.missesOnly_bind (Eval.missesOnly_mapM fun e member => parts e (each e member))
        fun vs => ?_
      exact Eval.missesOnly_bind (Value.missesOnly_ofList vs) checked
  | tuple column each =>
      refine Eval.missesOnly_bind (Eval.missesOnly_mapM fun e member => parts e (each e member))
        fun vs => ?_
      exact Eval.missesOnly_bind (Value.plain_ofTuple vs).missesOnly checked
  | dict column keys values =>
      refine Eval.missesOnly_bind (missesOnly_entries [] (fun e member => parts _ (keys e member))
        fun e member => parts _ (values e member)) fun es => ?_
      exact Eval.missesOnly_bind (Value.missesOnly_ofEntries es) checked
  | unary column op operand =>
      exact Eval.missesOnly_bind (parts _ operand) fun v =>
        (Operator.plain_unary op v).missesOnly
  | binary column op left right =>
      refine Eval.missesOnly_bind (parts _ left) fun a => ?_
      exact Eval.missesOnly_bind (parts _ right) fun b => Operator.missesOnly_binary op a b
  | bool column op left right =>
      refine Eval.missesOnly_bind (parts _ left) fun v => ?_
      refine missesOnly_after (plain_isTrue v) fun holds => ?_
      split
      · exact Eval.missesOnly_pure v
      · exact parts _ right
  | compare column first each =>
      refine Eval.missesOnly_bind (parts _ first) fun v => ?_
      have compared := missesOnly_links v fun link member => parts _ (each link member)
      exact Eval.missesOnly_bind compared fun holds => Eval.missesOnly_pure _
  | conditional column test body orelse =>
      refine Eval.missesOnly_bind (parts _ test) fun v => ?_
      refine missesOnly_after (plain_isTrue v) fun holds => ?_
      split
      · exact parts _ body
      · exact parts _ orelse
  | member column id base =>
      refine Eval.missesOnly_bind (parts _ base) fun v => ?_
      exact (Eval.plain_fail (by simp)).missesOnly
  | call column func each =>
      have arguments (a) (member : a ∈ _) := parts _ (each a member)
      have called := missesOnly_callFunction table (parts _ func) arguments
      cases func with
      | member column id base => exact missesOnly_callMethod (parts _ base) arguments
      | _ => exact called
  | item column base position =>
      refine Eval.missesOnly_bind (parts _ base) fun v => ?_
      exact Eval.missesOnly_bind (parts _ position) fun i =>
        (Subscript.plain_getItem v i).missesOnly
  | slice column start base lower upper step =>
      refine Eval.missesOnly_bind (parts _ base) fun v => ?_
      refine Eval.missesOnly_bind (missesOnly_slice (fun i member => parts i (lower i member))
        (fun i member => parts i (upper i member)) fun i member => parts i (step i member))
        fun s => ?_
      exact Subscript.missesOnly_getSlice v s

include table unbound in
theorem missesOnly_evalAt (budget : Nat) {e : Expr} (names : e.AtomsAre P L) :
    MissesOnly Q (evalAt env budget e) := by
  induction budget generalizing e with
  | zero => exact (Eval.plain_breach .depth).missesOnly
  | succ budget ih => exact missesOnly_step table unbound (fun _ => ih) names

end Names

-- A text that cannot be read misses no name, so only what was read may.
theorem missesOnly_reading_bind {α β : Type} {r : Except ReadError α} {k : α → Eval β}
    (next : ∀ a, r = .ok a → MissesOnly Q (k a)) : MissesOnly Q (reading r >>= k) := by
  cases r with
  | ok a => exact next a rfl
  | error e => cases e <;> exact Eval.missesOnly_throw (by grind)

end Evaluate

namespace Session

variable {α : Type}

/-- The causes of a settled failure are about no names but those of which `Q` holds. -/
def MissesOnly (Q : Text → Prop) (m : Session α) : Prop :=
  ∀ s, ¬ Ends (fun stop _ => ∃ c, stop = .cause c ∧ ¬ c.MissesOnly Q) m s

theorem MissesOnly.cause {m : Session α} (h : MissesOnly Q m) {s s' : Store} {c : Cause}
    (failed : m s = .error (.cause c) s') : c.MissesOnly Q := by
  apply Classical.byContradiction
  exact fun misses => h s ⟨.cause c, s', failed, c, rfl, misses⟩

theorem missesOnly_guarded {m : Eval α} (h : Eval.MissesOnly Q m) : MissesOnly Q (guarded m) := by
  rintro s ⟨stop, s', ended, c, rfl, misses⟩
  cases ran : m s with
  | ok a after => simp [guarded, ran] at ended
  | error fault after =>
      have answered := h.fault ran
      have stopped : stopOf after fault = .cause c := by
        simp only [guarded, ran] at ended
        injection ended
      cases fault with
      | cause inner =>
          cases stopped
          exact misses answered
      | breach b =>
          cases b <;> cases stopped <;> exact misses (by grind)
      | missingKey key =>
          simp only [stopOf] at stopped
          split at stopped
          · cases stopped
            exact misses (by grind)
          · contradiction

-- A name that an argument misses is an identifier that is bound nowhere.
theorem missesOnly_evaluateArguments {env : Env} (core : env.builtins = Builtin.core) (t : Text) :
    MissesOnly (fun id => isIdentifier id = true ∧ env.Lacks id) (evaluateArguments env t) := by
  have table (b) (member : b ∈ env.builtins) (args : List Value) (keywords : Bindings) :
      Eval.MissesOnly (fun id => isIdentifier id = true ∧ env.Lacks id) (b.run args keywords) :=
    Builtin.missesOnly_run (core ▸ member) args keywords
  apply missesOnly_guarded
  apply Evaluate.missesOnly_reading_bind
  intro args read
  have identified := Expr.identified_of_readArguments read
  exact Evaluate.missesOnly_argumentsFrom [] [] fun a member =>
    Evaluate.missesOnly_evalAt table (fun _ identifier lacks => ⟨identifier, lacks⟩)
      Evaluate.evalBudget (identified a member)

theorem missesOnly_display (v : Value) : MissesOnly Q (display v) :=
  missesOnly_guarded (Eval.missesOnly_after (Value.plain_checkWeight v) fun _ =>
    (Eval.plain_read _).missesOnly)

end Session

end Snippet
