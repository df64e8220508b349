import Snippet.Proofs.Eval.Assigned
import Snippet.Run.Execute

/-!
Sizes of values over a run. Statement after statement, what the names of a run hold and what its
lists and dicts hold stays within limits, which grow by one bit for each subtraction in the source.
-/

set_option autoImplicit false

namespace Snippet

open Value (solids solidEntries weight)
open Eval (Grows Keeps KeepsAt Safe SafeAt)

variable {α β : Type} {w w' : Limits} {j k chars : Nat} {s s' : Store} {v : Value}

/-- The expression that a text is read as, if it is one. -/
def Expr.ofText (t : Text) : List Expr :=
  (Expr.read t).toOption.toList

def Expr.ofArguments (t : Text) : List Expr :=
  ((Expr.readArguments t).toOption.getD []).map (·.2)

theorem Expr.ofText_eq {t : Text} {e : Expr} (read : Expr.read t = .ok e) : ofText t = [e] := by
  rw [ofText, read]
  rfl

theorem Expr.ofArguments_eq {t : Text} {args : List Argument}
    (read : Expr.readArguments t = .ok args) : ofArguments t = args.map (·.2) := by
  rw [ofArguments, read]
  rfl

/-- The subtractions of several expressions. -/
def totalSubtractions (es : List Expr) : Nat :=
  (es.map Expr.subtractions).sum

/-- No text that stands in an expression has more characters. -/
def TextsFit (chars : Nat) (es : List Expr) : Prop :=
  ∀ e ∈ es, e.longestText ≤ chars

/-! ### Settled evaluations -/

namespace Session

theorem safe_guarded {m : Eval α} {Q : Limits → α → Prop} (h : Safe w k m Q) :
    Safe w k (guarded m) Q := by
  intro s held
  have here := h s held
  rw [SafeAt] at here ⊢
  rw [guarded]
  cases ran : m s with
  | ok a s' => rwa [ran] at here
  | error fault s' => rwa [ran] at here

variable {env : Env}

theorem safe_evaluate (within : env.Within w chars) {t : Text}
    (short : TextsFit chars (Expr.ofText t)) :
    Safe w (totalSubtractions (Expr.ofText t)) (evaluate env t) fun w v => v.Within w := by
  refine safe_guarded (Evaluate.safe_reading_bind fun e read => ?_)
  rw [Expr.ofText_eq read] at short ⊢
  have fits := (Expr.identified_of_read read).fits (short e List.mem_cons_self)
  exact (Evaluate.isSafe_evalAt _ fits w within).of_eq (Nat.add_zero _).symm

theorem safe_evaluateArguments (within : env.Within w chars) {t : Text}
    (short : TextsFit chars (Expr.ofArguments t)) :
    Safe w (totalSubtractions (Expr.ofArguments t)) (evaluateArguments env t)
      fun w r => AllWithin w r.1 := by
  refine safe_guarded (Evaluate.safe_reading_bind fun args read => ?_)
  rw [Expr.ofArguments_eq read] at short ⊢
  have each : ∀ a ∈ args, Evaluate.IsSafe env chars (Evaluate.eval env) a.2 := fun a member =>
    Evaluate.isSafe_evalAt _ ((Expr.identified_of_readArguments read a member).fits
      (short a.2 (List.mem_map_of_mem member)))
  exact Evaluate.safe_argumentsFrom each within (List.forall_mem_nil _) []

theorem safe_storeItem (within : env.Within w.settled chars) {target : Text}
    (of_v : v.Within w.settled) (short : TextsFit chars (Expr.ofText target)) :
    Safe w.settled (totalSubtractions (Expr.ofText target)) (storeItem env target v)
      fun _ _ => True := by
  refine safe_guarded (Evaluate.safe_assignItem within of_v (fun e read => ?_) fun e read => ?_)
  · exact short e (by simp [Expr.ofText_eq read])
  · simp [totalSubtractions, Expr.ofText_eq read]

theorem safe_unpack (of_v : v.Within w) (count : Nat) : Safe w 0 (v.unpack count) AllWithin := by
  unfold Value.unpack
  split
  · exact Safe.pure (List.forall_mem_singleton.mpr of_v)
  · extract_lets counted
    have of_counted {w : Limits} (items : List Value) (each : AllWithin w items) :
        Safe w 0 (counted items) AllWithin := by
      dsimp only [counted]
      split
      · exact Safe.pure each
      · exact Safe.throw _
    clear_value counted
    cases of_v with
    | list known => exact fun s held => of_counted _ (held.lists _).each s held
    | tuple tag fits each => exact of_counted _ each
    | @text tag t fits | @raw tag t fits =>
        have each : Keeps w (t.mapM fun c => Value.ofText [c]) fun _ items => AllWithin w items :=
          (Subscript.keeps_characters t).mono fun _ _ _ of_items => of_items.1
        exact (safe_guarded each.safe).bind fun _ items _ of_items => of_counted items of_items
    | _ => exact Safe.throw _

theorem safe_display (v : Value) : Safe w 0 (display v) fun _ _ => True := by
  refine safe_guarded (Keeps.safe ?_)
  refine (Value.plain_checkWeight v).keeps_any.bind fun _ _ => ?_
  exact Eval.plain_get.keeps_any.bind fun s _ => (Eval.plain_lift _).keeps_any

theorem safe_displays (args : List Value) : Safe w 0 (args.mapM display) fun _ _ => True := by
  induction args generalizing w with
  | nil => exact Safe.pure trivial
  | cons v rest ih =>
      rw [List.mapM_cons]
      exact (safe_display v).bind fun _ _ _ _ => ih.bind_last fun _ _ _ _ => Safe.pure trivial

theorem safe_option (given : Bindings) (keyword : String) (usual : Text) :
    Safe w 0 (Print.option given keyword usual) fun _ _ => True := by
  unfold Print.option
  split
  · exact Safe.pure trivial
  · exact Safe.pure trivial
  · split
    · exact Safe.pure trivial
    · exact Safe.throw _

theorem safe_printed (within : env.Within w chars) {arguments : Text}
    (short : TextsFit chars (Expr.ofArguments arguments)) :
    Safe w (totalSubtractions (Expr.ofArguments arguments)) (Print.text arguments env)
      fun _ _ => True := by
  refine (safe_evaluateArguments within short).bind_last fun _ r _ _ => ?_
  obtain ⟨args, given⟩ := r
  dsimp -zeta only
  extract_lets written
  have of_written (u : Unit) {w : Limits} : Safe w 0 (written u) fun _ _ => True :=
    (safe_option given _ _).bind fun _ _ _ _ => (safe_option given _ _).bind_last
      fun _ _ _ _ => (safe_displays args).bind_last fun _ _ _ _ => Safe.pure trivial
  clear_value written
  split
  · exact (Safe.throw (Q := fun _ _ => True) _).bind_last fun _ _ _ _ => of_written _
  · exact of_written ()

end Session

/-! ### Statements -/

/-- What a machine holds is within limits that hold no list or dict that was just weighed. -/
structure Machine.Within (w : Limits) (m : Machine) : Prop where
  settled : w.settled = w
  store : m.store.Within w
  scope : ∀ id v, m.scope.find? id = some v → v.Within w

/-- The functions of a setup keep to limits, which know their names. -/
structure Setup.Within (w : Limits) (setup : Setup) : Prop where
  sized : ∀ b ∈ setup.builtins, b.IsSized
  known : ∀ b ∈ setup.builtins, b.name ∈ w.functions

theorem Setup.Within.grow {setup : Setup} (own : setup.Within w) (grows : w.Grows k w') :
    setup.Within w' where
  sized := own.sized
  known b member := grows.functions ▸ own.known b member

namespace Exec

variable {m : Machine} {setup : Setup}

/-- Ends in a machine within limits that have grown by so many bits. -/
def SafeAt (w : Limits) (k : Nat) (m : Machine) (x : Exec α) (Q : Limits → α → Prop) : Prop :=
  match x m with
  | .ok a m' => ∃ w', w.Grows k w' ∧ m'.Within w' ∧ Q w' a
  | .error _ m' => ∃ w', w.Grows k w' ∧ m'.Within w'

variable {P Q : Limits → α → Prop} {R : Limits → β → Prop} {x : Exec α} {next : α → Exec β}

theorem SafeAt.bind (first : SafeAt w k m x P)
    (then_ : ∀ w' a m', w.Grows k w' → m'.Within w' → P w' a → SafeAt w' 0 m' (next a) R) :
    SafeAt w k m (x >>= next) R := by
  rw [SafeAt] at first ⊢
  rw [bind_eq]
  cases ran : x m with
  | ok a m' =>
      rw [ran] at first
      obtain ⟨w', grows, within, holds⟩ := first
      have there := then_ w' a m' grows within holds
      rw [SafeAt] at there
      dsimp only
      cases ran : next a m' with
      | ok b m'' =>
          rw [ran] at there
          obtain ⟨w'', more, rest⟩ := there
          exact ⟨w'', grows.trans more, rest⟩
      | error halt m'' =>
          rw [ran] at there
          obtain ⟨w'', more, rest⟩ := there
          exact ⟨w'', grows.trans more, rest⟩
  | error halt m' =>
      rw [ran] at first
      exact first

theorem safeAt_pure (within : m.Within w) {a : α} (h : Q w a) : SafeAt w 0 m (pure a) Q :=
  ⟨w, .refl w, within, h⟩

theorem safeAt_fail (within : m.Within w) (c : Cause) : SafeAt w 0 m (fail c : Exec α) Q :=
  ⟨w, .refl w, within⟩

theorem safeAt_write (within : m.Within w) (chunk : Text) :
    SafeAt w 0 m (write setup chunk) fun _ _ => True := by
  have same : Machine.Within w
      { m with output := m.output.push chunk, received := m.received.push chunk } :=
    ⟨within.settled, within.store, within.scope⟩
  rw [SafeAt, write]
  cases setup.sink (m.received.push chunk) with
  | none => exact ⟨w, .refl w, same, trivial⟩
  | some failure => exact ⟨w, .refl w, same⟩

theorem safeAt_set (within : m.Within w) (name : Text) (of_v : v.Within w) :
    SafeAt w 0 m (set name v) fun _ _ => True := by
  refine ⟨w, .refl w, ⟨within.settled, within.store, fun id u found => ?_⟩, trivial⟩
  have named : (m.scope.set name v).find? id = some u := found
  rw [Scope.find?_set] at named
  split at named
  · cases named
    exact of_v
  · exact within.scope id u named

theorem env_within (within : m.Within w) (own : setup.Within w) :
    (m.env setup).Within w w.chars where
  chars := rfl
  scope := within.scope
  builtins := own.sized
  functions := own.known

theorem safeAt_attempt {f : Env → Session α} (within : m.Within w)
    (safe : Safe w k (f (m.env setup)) Q) (stable : ∀ w a, Q w a → Q w.settled a) :
    SafeAt w k m (attempt setup f) fun w r => ∀ a, r = .ok a → Q w a := by
  have here := safe m.store within.store
  have step {w'} (grows : w.Grows k w') : w.Grows k w'.settled := within.settled ▸ grows.settled
  have kept {w' : Limits} {s' : Store} (grows : w.Grows k w') (store : s'.Within w') :
      Machine.Within w'.settled { m with store := s' } :=
    ⟨rfl, store.settled, fun id v found => (within.scope id v found).grow (step grows)⟩
  rw [Eval.SafeAt] at here
  rw [SafeAt, attempt]
  cases ran : f (m.env setup) m.store with
  | ok a s' =>
      rw [ran] at here
      obtain ⟨w', grows, store, holds⟩ := here
      refine ⟨w'.settled, step grows, kept grows store, ?_⟩
      rintro b ⟨⟩
      exact stable w' a holds
  | error stop s' =>
      rw [ran] at here
      obtain ⟨w', grows, store⟩ := here
      cases stop with
      | cause c => exact ⟨w'.settled, step grows, kept grows store, by simp⟩
      | escaped b => exact ⟨w'.settled, step grows, kept grows store⟩

theorem safeAt_print (within : m.Within w) (own : setup.Within w)
    {arguments : Text} (short : TextsFit w.chars (Expr.ofArguments arguments)) :
    SafeAt w (totalSubtractions (Expr.ofArguments arguments)) m (print setup arguments)
      fun _ _ => True := by
  refine (safeAt_attempt within (Session.safe_printed (env_within within own) short)
    fun _ _ _ => trivial).bind fun _ written _ _ within _ => ?_
  cases written with
  | ok chunk => exact safeAt_write within chunk
  | error c => exact safeAt_fail within _

theorem safeAt_setAll {bound : List (Text × Value)} (within : m.Within w)
    (each : ∀ b ∈ bound, b.2.Within w) :
    SafeAt w 0 m (bound.forM fun (name, v) => set name v) fun _ _ => True := by
  induction bound generalizing w m with
  | nil => exact safeAt_pure within trivial
  | cons b rest ih =>
      obtain ⟨of_b, of_rest⟩ := List.forall_mem_cons.mp each
      exact (safeAt_set within b.1 of_b).bind fun _ _ _ grows within _ =>
        ih within fun c member => (of_rest c member).grow grows

theorem safe_assignedValues {env : Env} (within : env.Within w chars) {targets : List Text}
    {expression : Text} {op : Option BinaryOp}
    (short : TextsFit chars (Expr.ofText (assignedExpression targets expression op))) :
    Safe w (totalSubtractions (Expr.ofText (assignedExpression targets expression op)))
      (assignedValues targets expression op env) AllWithin := by
  exact (Session.safe_evaluate within short).bind_last fun _ v _ of_v => Session.safe_unpack of_v _

theorem safe_sourceValues {expression : Text} (short : expression.length ≤ w.chars)
    (targets : List Text) (env : Env) :
    Safe w 0 (sourceValues targets expression env) AllWithin := by
  have raw : Safe w 0 (Value.ofRaw expression) fun w v => v.Within w := by
    refine Keeps.safe (Eval.Plain.keeps (by grind [Value.ofRaw]) ?_)
    exact Eval.Yields.bind_any fun tag => Eval.Yields.pure (.raw tag short)
  refine (Session.safe_guarded raw).bind fun _ v _ of_v => Safe.pure ?_
  exact List.forall_mem_map.mpr fun _ _ => of_v

theorem safeAt_assign (within : m.Within w) (own : setup.Within w)
    {targets : List Text} {expression : Text} {op : Option BinaryOp}
    (short : TextsFit w.chars (Expr.ofText (assignedExpression targets expression op)))
    (source : expression.length ≤ w.chars) :
    SafeAt w (totalSubtractions (Expr.ofText (assignedExpression targets expression op))) m
      (assign setup targets expression op) fun _ _ => True := by
  have settle (w : Limits) (items : List Value) (each : AllWithin w items) :
      AllWithin w.settled items := fun v member => Value.within_settled.mpr (each v member)
  have bind {w : Limits} {m : Machine} {values : List Value} (within : m.Within w)
      (each : AllWithin w values) :
      SafeAt w 0 m ((targets.zip values).forM fun (name, v) => set name v) fun _ _ => True :=
    safeAt_setAll within fun b member => each b.2 (List.of_mem_zip member).2
  refine (safeAt_attempt within (safe_assignedValues (env_within within own) short)
    settle).bind fun after values _ grows within of_values => ?_
  cases values with
  | ok values => exact bind within (of_values values rfl)
  | error c =>
      rw [← grows.chars] at source
      refine (safeAt_attempt within (safe_sourceValues source targets _) settle).bind
        fun _ values _ _ within of_values => ?_
      cases values with
      | ok values => exact bind within (of_values values rfl)
      | error c => exact safeAt_fail within c

theorem safeAt_assignItem (within : m.Within w) (own : setup.Within w)
    {target expression : Text} (of_expression : TextsFit w.chars (Expr.ofText expression))
    (of_target : TextsFit w.chars (Expr.ofText target)) :
    SafeAt w (totalSubtractions (Expr.ofText expression ++ Expr.ofText target)) m
      (assignItem setup target expression) fun _ _ => True := by
  have env := env_within within own
  have stored : Safe w (totalSubtractions (Expr.ofText expression ++ Expr.ofText target))
      (do
        let v ← Session.evaluate (m.env setup) expression
        Session.storeItem (m.env setup) target v) fun _ _ => True := by
    rw [totalSubtractions, List.map_append, List.sum_append]
    intro s held
    rw [← within.settled]
    refine (Session.safe_evaluate env of_expression s held).bind_settled
      fun after v s' grows held' of_v => ?_
    have grown := grows.settled
    rw [within.settled] at grown
    exact Session.safe_storeItem (env.grow grown) (Value.within_settled.mpr of_v) of_target s'
      held'.settled
  exact (safeAt_attempt within stored fun _ _ _ => trivial).bind fun _ _ _ _ within _ =>
    safeAt_pure within trivial

theorem safeAt_check (within : m.Within w) (own : setup.Within w)
    {source : Text} (short : TextsFit w.chars (Expr.ofText source)) :
    SafeAt w (totalSubtractions (Expr.ofText source)) m (check setup source) fun _ _ => True := by
  have evaluated := Session.safe_evaluate (env_within within own) short
  refine (safeAt_attempt within evaluated fun _ _ => Value.within_settled.mpr).bind
    fun _ value _ _ within _ => ?_
  cases value with
  | ok v => exact safeAt_pure within trivial
  | error c => exact safeAt_fail within _

end Exec

namespace LineForm

/-- The expressions that a line evaluates. -/
def expressions : LineForm → List Expr
  | .print arguments => Expr.ofArguments arguments
  | .assignment targets source op => Expr.ofText (Exec.assignedExpression targets source op)
  | .itemAssignment target source => Expr.ofText source ++ Expr.ofText target
  | .expression source => Expr.ofText source
  | _ => []

/-- The source text that a line keeps for a value that it cannot evaluate. -/
def keptLength : LineForm → Nat
  | .assignment _ source _ => source.length
  | _ => 0

end LineForm

namespace Exec

variable {m : Machine} {setup : Setup}

/-- One statement: whatever it is and however it ends, the machine is within limits. -/
theorem safeAt_perform (within : m.Within w) (own : setup.Within w)
    {form : LineForm} (short : TextsFit w.chars form.expressions)
    (kept : form.keptLength ≤ w.chars) :
    SafeAt w (totalSubtractions form.expressions) m (perform setup form) fun _ _ => True := by
  cases form with
  | print arguments => exact safeAt_print within own short
  | assignment targets expression op => exact safeAt_assign within own short kept
  | itemAssignment target expression =>
      obtain ⟨of_expression, of_target⟩ := List.forall_mem_append.mp short
      exact safeAt_assignItem within own of_expression of_target
  | expression source => exact safeAt_check within own short
  | raise kind arguments => exact safeAt_fail within _
  | blank | header keyword | flow keyword => exact safeAt_pure within trivial

/-- The machine that a program leaves, however it ends. -/
def after (x : Exec α) (m : Machine) : Machine :=
  match x m with
  | .ok _ m' | .error _ m' => m'

/-- The machine after statements, each of which is performed although others failed. -/
def session (setup : Setup) (forms : List LineForm) (m : Machine) : Machine :=
  forms.foldl (fun m form => after (perform setup form) m) m

theorem SafeAt.after {x : Exec α} {Q : Limits → α → Prop} (h : SafeAt w k m x Q) :
    ∃ w', w.Grows k w' ∧ (after x m).Within w' := by
  rw [SafeAt] at h
  rw [Exec.after]
  cases ran : x m with
  | ok a m' =>
      rw [ran] at h
      obtain ⟨w', grows, within, -⟩ := h
      exact ⟨w', grows, within⟩
  | error halt m' =>
      rw [ran] at h
      exact h

theorem session_within (own : setup.Within w) {forms : List LineForm}
    (within : m.Within w) (short : TextsFit w.chars (forms.flatMap LineForm.expressions))
    (kept : ∀ form ∈ forms, form.keptLength ≤ w.chars) :
    ∃ w', w.Grows (totalSubtractions (forms.flatMap LineForm.expressions)) w' ∧
      (session setup forms m).Within w' := by
  induction forms generalizing m w with
  | nil => exact ⟨w, .refl w, within⟩
  | cons form rest ih =>
      rw [List.flatMap_cons] at short ⊢
      obtain ⟨of_form, of_rest⟩ := List.forall_mem_append.mp short
      obtain ⟨kept_form, kept_rest⟩ := List.forall_mem_cons.mp kept
      obtain ⟨w', grows, within'⟩ := (safeAt_perform within own of_form kept_form).after
      rw [← grows.chars] at of_rest kept_rest
      obtain ⟨w'', more, within''⟩ := ih (own.grow grows) within' of_rest kept_rest
      refine ⟨w'', ?_, within''⟩
      rw [totalSubtractions, List.map_append, List.sum_append]
      exact grows.trans more

end Exec

/-! ### From the start -/

theorem Machine.initial_within {chars : Nat} (chars_ge : maxLength ≤ chars)
    (functions : Set Text) : Machine.initial.Within (Limits.initial chars chars_ge functions) where
  settled := rfl
  store :=
    { held_lists := nofun
      held_dicts := nofun
      lists := fun _ => ⟨nofun, nofun, nofun⟩
      dicts := fun _ => ⟨nofun, nofun, nofun⟩ }
  scope := nofun

/-- The longest text that statements and an expression are written with. -/
def longestSource (forms : List LineForm) (t : Text) : Nat :=
  ((forms.flatMap LineForm.expressions ++ Expr.ofText t).map Expr.longestText ++
    forms.map LineForm.keptLength).foldr max 0

theorem longestSource_fits (forms : List LineForm) (t : Text) :
    TextsFit (longestSource forms t) (forms.flatMap LineForm.expressions) ∧
      TextsFit (longestSource forms t) (Expr.ofText t) ∧
      ∀ form ∈ forms, form.keptLength ≤ longestSource forms t := by
  have longest : ∀ n ∈ _, n ≤ longestSource forms t := (Expr.le_foldr_max _ 0).2
  obtain ⟨texts, kept⟩ := List.forall_mem_append.mp longest
  obtain ⟨of_forms, of_t⟩ := List.forall_mem_append.mp (List.forall_mem_map.mp texts)
  exact ⟨of_forms, of_t, List.forall_mem_map.mp kept⟩

theorem TextsFit.mono {es : List Expr} (fit : TextsFit j es) (more : j ≤ k) : TextsFit k es :=
  fun e member => (fit e member).trans more

/-- What an expression gives after any statements is within limits: it has one more bit for each
subtraction in the source. -/
theorem evaluated_within {setup : Setup} (sized : ∀ b ∈ setup.builtins, b.IsSized)
    {forms : List LineForm} {t : Text} {m : Machine}
    (reached : m = Exec.session setup forms .initial)
    (done : Session.evaluate (m.env setup) t m.store = .ok v s') :
    ∃ w : Limits, w.chars = max maxLength (longestSource forms t) ∧
      w.bits = maxBits + totalSubtractions (forms.flatMap LineForm.expressions ++ Expr.ofText t) ∧
      s'.Within w ∧ v.Within w := by
  have enough := Nat.le_max_right maxLength (longestSource forms t)
  obtain ⟨of_forms, of_t, kept⟩ := longestSource_fits forms t
  have least := Nat.le_max_left maxLength (longestSource forms t)
  have start := Machine.initial_within least Set.univ
  have own : setup.Within (Limits.initial _ least Set.univ) := ⟨sized, fun _ _ => trivial⟩
  obtain ⟨w, grows, within⟩ := Exec.session_within own start (of_forms.mono enough)
    fun form member => (kept form member).trans enough
  rw [← reached] at within
  have last := Session.safe_evaluate (Exec.env_within within (own.grow grows))
    (of_t.mono (enough.trans_eq grows.chars.symm)) m.store within.store
  rw [SafeAt, done] at last
  obtain ⟨w', more, held, of_v⟩ := last
  have all := grows.trans more
  refine ⟨w', all.chars, ?_, held, of_v⟩
  rw [all.bits, totalSubtractions, totalSubtractions, totalSubtractions, List.map_append,
    List.sum_append]
  rfl

end Snippet
