import Snippet.Proofs.Eval.Escape
import Snippet.Proofs.Run.Frame

/-!
Assignments. They replace what cannot be evaluated, so the only failures that halt them are those
that escape their evaluation.
-/

set_option autoImplicit false

namespace Snippet

variable {α β : Type}

namespace Session

theorem escapes_bind (m : Session α) (k : α → Session β) (s : Store) :
    Escapes (m >>= k) s ↔ Escapes m s ∨ ∃ a s', m s = .ok a s' ∧ Escapes (k a) s' :=
  ends_bind k

theorem not_escapes_pure (a : α) (s : Store) : ¬ Escapes (pure a : Session α) s :=
  not_ends_pure a

theorem not_escapes_throw (c : Cause) (s : Store) :
    ¬ Escapes (throw (.cause c) : Session α) s := by
  rintro ⟨stop, s', same, b, rfl⟩
  cases same

-- The single characters of a text are values without fail.
theorem not_escapes_characters (t : Text) (s : Store) :
    ¬ Escapes (guarded (t.mapM fun c => Value.ofText [c])) s := by
  rw [escapes_guarded]
  apply not_ends_mapM
  intro c _ s
  rw [Value.ofText]
  split
  · exact not_ends_pure _
  · exact not_ends_bind (not_ends_of_ok rfl) fun _ _ => not_ends_pure _

theorem not_escapes_unpack (v : Value) (count : Nat) (s : Store) :
    ¬ Escapes (v.unpack count) s := by
  have counted (items : List Value) (s : Store) :
      ¬ Escapes (if items.length == count then (pure items : Session (List Value))
        else throw (.cause (.wrongUnpackCount count items.length))) s := by
    split
    · exact not_escapes_pure _ s
    · exact not_escapes_throw _ s
  rw [Value.unpack]
  split
  · exact not_escapes_pure _ s
  · cases v with
    | list r =>
        exact not_ends_bind (not_ends_of_ok rfl) fun _ _ =>
          not_ends_bind (not_escapes_pure _ _) counted
    | tuple tag items => exact not_ends_bind (not_escapes_pure items s) counted
    | text tag t | raw tag t => exact not_ends_bind (not_escapes_characters t s) counted
    | _ => exact not_ends_bind (not_escapes_throw _ s) counted

end Session

namespace Exec

def Halts (x : Exec α) (m : Machine) : Prop :=
  Ends (fun _ _ => True) x m

variable {setup : Setup}

theorem halts_attempt (f : Env → Session α) (m : Machine) :
    Halts (attempt setup f) m ↔ Session.Escapes (f (m.env setup)) m.store := by
  cases ended : f (m.env setup) m.store with
  | ok a s =>
      have ran : attempt setup f m = .ok (.ok a) { m with store := s } := by
        simp only [attempt, ended]
      simp only [Halts, Session.Escapes, not_ends_of_ok ran, not_ends_of_ok ended]
  | error stop s =>
      rw [Session.Escapes, ends_of_error ended]
      cases stop with
      | cause c =>
          have ran : attempt setup f m = .ok (.error c) { m with store := s } := by
            simp only [attempt, ended]
          simp [Halts, not_ends_of_ok ran]
      | escaped b =>
          have ran : attempt setup f m = .error (.mishap (.ofBreach b)) { m with store := s } := by
            simp only [attempt, ended]
          simp [Halts, ends_of_error ran]

theorem not_halts_set (name : Text) (v : Value) (m : Machine) : ¬ Halts (set name v) m :=
  not_ends_of_ok rfl

theorem escapes_assignedValues (targets : List Text) (expression : Text) (op : Option BinaryOp)
    (env : Env) (s : Store) :
    Session.Escapes (assignedValues targets expression op env) s ↔
      Session.Escapes (Session.evaluate env (assignedExpression targets expression op)) s := by
  rw [assignedValues, Session.escapes_bind]
  constructor
  · rintro (escaped | ⟨v, s', -, escaped⟩)
    · exact escaped
    · exact absurd escaped (Session.not_escapes_unpack v _ s')
  · exact .inl

theorem not_halts_setAll (bindings : List (Text × Value)) (m : Machine) :
    ¬ Halts (bindings.forM fun (name, v) => set name v) m := by
  have each (b : Text × Value) (m : Machine) : ¬ Halts (set b.1 b.2) m :=
    not_halts_set b.1 b.2 m
  exact not_ends_forM (fun b _ => each b) m

-- The source text always stands in for a value.
theorem attempt_sourceValues (targets : List Text) (expression : Text) (m : Machine) :
    ∃ values n, attempt setup (sourceValues targets expression) m = .ok (.ok values) n :=
  ⟨_, _, rfl⟩

-- An assignment of a value halts only where its evaluation lets a failure escape.
theorem halts_assign (targets : List Text) (expression : Text) (op : Option BinaryOp)
    (m : Machine) :
    Halts (assign setup targets expression op) m ↔
      Session.Escapes
        (Session.evaluate (m.env setup) (assignedExpression targets expression op)) m.store := by
  rw [← escapes_assignedValues, ← halts_attempt, assign, Halts, ends_bind]
  constructor
  · rintro (halted | ⟨result, n, -, halted⟩)
    · exact halted
    · exfalso
      cases result with
      | ok values =>
          exact not_ends_bind (not_ends_pure _) (fun _ => not_halts_setAll _) halted
      | error c =>
          obtain ⟨values, k, stood_in⟩ := attempt_sourceValues targets expression n
          rw [ends_bind_of_ok stood_in] at halted
          exact not_ends_bind (not_ends_pure _) (fun _ => not_halts_setAll _) halted
  · exact .inl

theorem halts_assignItem (target expression : Text) (m : Machine) :
    Halts (assignItem setup target expression) m ↔
      Session.Escapes (Session.evaluate (m.env setup) expression) m.store ∨
        ∃ v s, Session.evaluate (m.env setup) expression m.store = .ok v s ∧
          Session.Escapes (Session.storeItem (m.env setup) target v) s := by
  rw [← Session.escapes_bind, ← halts_attempt fun env =>
    Session.evaluate env expression >>= Session.storeItem env target]
  rw [assignItem, Halts, ends_bind]
  constructor
  · rintro (halted | ⟨_, n, -, halted⟩)
    · exact halted
    · exact absurd halted (not_ends_pure _)
  · exact .inl

section Quiet

variable (quiet : setup.Quiet)
include quiet

-- Nothing but what a line does can halt it.
theorem halts_line {raw : Text} {number : Int} {line : Line}
    (classified : Line.classify raw number = .ok line) (shown : line.form ≠ .blank)
    (m : Machine) :
    Halts (Exec.line setup raw number) m ↔
      Halts (perform setup line.form) (m.begin setup line) := by
  have acts : Exec.line setup raw number m = atLine number (step setup line) m := by
    simp only [Exec.line, classified]
  have stepped := step_eq quiet.hooks line m
  cases performed : perform setup line.form (m.begin setup line) with
  | ok _ n =>
      rw [performed] at stepped
      have ran : Exec.line setup raw number m
          = .ok () { n with occasions := n.occasions.push (.afterLine line) } := by
        rw [acts, atLine, stepped]
      simp only [Halts, not_ends_of_ok performed, not_ends_of_ok ran]
  | error halt n =>
      rw [performed] at stepped
      have failed : ∃ halt, Exec.line setup raw number m = .error halt n := by
        rw [acts, atLine, stepped]
        cases halt <;> exact ⟨_, rfl⟩
      obtain ⟨placed, failed⟩ := failed
      simp only [Halts, ends_of_error performed, ends_of_error failed]

end Quiet

end Exec

/-- A failure escapes the evaluator exactly if memory runs out or if a missing key cannot be
written, and nothing else halts an assignment. -/
theorem escapes_iff_key_unwritable {setup : Setup} (quiet : setup.Quiet) :
    (∀ env t s, Session.Escapes (Session.evaluate env t) s ↔
      ∃ e, Expr.read t = .ok e ∧ (Evaluate.eval env e).Escapes s) ∧
    (∀ env t s, Session.Escapes (Session.evaluateArguments env t) s ↔
      ∃ args, Expr.readArguments t = .ok args ∧
        (Evaluate.arguments (Evaluate.eval env) args).Escapes s) ∧
    (∀ env target v s, Session.Escapes (Session.storeItem env target v) s ↔
      (Evaluate.assignItem env target v).Escapes s) ∧
    (∀ v s, ¬ Session.Escapes (Session.display v) s) ∧
    ∀ raw number line m, Line.classify raw number = .ok line →
      (∀ targets expression op, line.form = .assignment targets expression op →
        (Exec.Halts (Exec.line setup raw number) m ↔
          Session.Escapes (Session.evaluate (m.env setup)
            (Exec.assignedExpression targets expression op)) m.store)) ∧
      ∀ target expression, line.form = .itemAssignment target expression →
        (Exec.Halts (Exec.line setup raw number) m ↔
          Session.Escapes (Session.evaluate (m.env setup) expression) m.store ∨
            ∃ v s, Session.evaluate (m.env setup) expression m.store = .ok v s ∧
              Session.Escapes (Session.storeItem (m.env setup) target v) s) := by
  refine ⟨Session.escapes_evaluate, Session.escapes_evaluateArguments, Session.escapes_storeItem,
    Session.not_escapes_display, ?_⟩
  intro raw number line m classified
  constructor
  · intro targets expression op form
    rw [Exec.halts_line quiet classified (by simp [form]), form]
    exact Exec.halts_assign targets expression op (m.begin setup line)
  · intro target expression form
    rw [Exec.halts_line quiet classified (by simp [form]), form]
    exact Exec.halts_assignItem target expression (m.begin setup line)

-- A dict is asked for a key with too many digits.
theorem escapes_iff_key_unwritable_long_key :
    plainSetup.Quiet ∧
      Exec.Halts (Exec.line plainSetup "x = \x7b\x7d[10**5000]".toList 1) Machine.initial ∧
      ∃ e, Expr.read "\x7b\x7d[10**5000]".toList = .ok e ∧
        (Evaluate.eval (Machine.initial.env plainSetup) e).Escapes Store.empty := by
  have classified : Line.classify "x = \x7b\x7d[10**5000]".toList 1
      = .ok ⟨1, "x = \x7b\x7d[10**5000]".toList,
          .assignment [['x']] "\x7b\x7d[10**5000]".toList none⟩ := by
    apply ok_of_toOption
    decide +kernel
  have halted : Exec.Halts (Exec.line plainSetup "x = \x7b\x7d[10**5000]".toList 1)
      Machine.initial := by
    have failed : (match Exec.line plainSetup "x = \x7b\x7d[10**5000]".toList 1 Machine.initial with
        | .ok .. => false
        | .error .. => true) = true := by decide +kernel
    cases ran : Exec.line plainSetup "x = \x7b\x7d[10**5000]".toList 1 Machine.initial with
    | ok _ m =>
        rw [ran] at failed
        contradiction
    | error halt m => exact ⟨halt, m, ran, trivial⟩
  obtain ⟨evaluated, -, -, -, lines⟩ := escapes_iff_key_unwritable plainSetup_quiet
  have escaped := ((lines _ _ _ Machine.initial classified).1 _ _ _ rfl).mp halted
  exact ⟨plainSetup_quiet, halted, (evaluated _ _ _).mp escaped⟩

end Snippet
