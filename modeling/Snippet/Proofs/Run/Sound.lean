import Snippet.Proofs.Eval.Alike.Evaluation
import Snippet.Run

/-!
Identities over a run. Whatever the lines of a snippet do, and whether they fail or not, all tags in
its names, lists and dicts have been given out.
-/

set_option autoImplicit false

namespace Snippet

open Eval (Alike)
open Value

variable {ε σ α β : Type} {env : Env} {s : Store} {v : Value}

/-- However a program ends, this holds of the state, and that of a result in it. -/
def EndsIn (P : σ → Prop) (Q : σ → α → Prop) (x : EStateM ε σ α) (s : σ) : Prop :=
  match x s with
  | .ok a t => P t ∧ Q t a
  | .error _ t => P t

namespace EndsIn

variable {P : σ → Prop} {Q : σ → α → Prop} {R : σ → β → Prop} {x : EStateM ε σ α}
  {next : α → EStateM ε σ β} {s : σ}

theorem bind (first : EndsIn P Q x s) (then_ : ∀ a t, P t → Q t a → EndsIn P R (next a) t) :
    EndsIn P R (x >>= next) s := by
  rw [EndsIn] at first ⊢
  rw [bind_eq]
  cases ran : x s with
  | ok a t =>
      rw [ran] at first
      exact then_ a t first.1 first.2
  | error e t =>
      rw [ran] at first
      exact first

theorem then_pure (first : EndsIn P Q x s) {f : α → β} (each : ∀ a t, Q t a → R t (f a)) :
    EndsIn P R (do return f (← x)) s :=
  first.bind fun a t holds of_a => ⟨holds, each a t of_a⟩

theorem weaken {Q' : σ → α → Prop} (first : EndsIn P Q x s) (weaker : ∀ t a, Q t a → Q' t a) :
    EndsIn P Q' x s := by
  rw [EndsIn] at first ⊢
  cases ran : x s with
  | ok a t =>
      rw [ran] at first
      exact ⟨first.1, weaker t a first.2⟩
  | error e t =>
      rw [ran] at first
      exact first

theorem trivially (first : EndsIn P Q x s) : EndsIn P (fun _ _ => True) x s :=
  first.weaken fun _ _ _ => trivial

theorem forM {xs : List α} {f : α → EStateM ε σ PUnit} (holds : P s)
    (each : ∀ a ∈ xs, ∀ t, P t → EndsIn P (fun _ _ => True) (f a) t) :
    EndsIn P (fun _ _ => True) (xs.forM f) s := by
  induction xs generalizing s with
  | nil => exact ⟨holds, trivial⟩
  | cons a rest ih =>
      obtain ⟨first, others⟩ := List.forall_mem_cons.mp each
      exact (first s holds).bind fun _ t holds _ => ih holds others

end EndsIn

/-! ### Evaluations -/

namespace Env.Sound

/-- Binding a name to a value that has been made. -/
theorem set (sound : env.Sound s) (name : Text) (below : v.Below s.nextTag) :
    Env.Sound ⟨env.scope.set name v, env.builtins⟩ s where
  store := sound.store
  scope := by
    have bound (bindings : Bindings) (each : ∀ b ∈ bindings, b.2.Below s.nextTag) :
        ∀ b ∈ Scope.bindIn bindings name v, b.2.Below s.nextTag := by
      induction bindings with
      | nil => exact List.forall_mem_cons.mpr ⟨below, nofun⟩
      | cons b rest ih =>
          obtain ⟨first, later⟩ := List.forall_mem_cons.mp each
          rw [Scope.bindIn]
          split
          · exact List.forall_mem_cons.mpr ⟨below, later⟩
          · exact List.forall_mem_cons.mpr ⟨first, ih later⟩
    exact bound _ sound.scope
  positive := sound.positive

/-- An evaluation that sees no identities gives the tags out in turn. -/
theorem guarded {R : Nat → α → α → Prop} {m m' : Eval α} (sound : env.Sound s)
    (alike : Alike (sound.shift 0) s.nextTag R m m') :
    EndsIn env.Sound (fun t a => ∃ a', R t.nextTag a a') (Session.guarded m) s := by
  have ends := alike.ends s rfl (Nat.le_refl _) sound.store
  rw [EndsIn, Session.guarded]
  generalize m s = r, m' (s.rename _) = r' at ends
  cases ends with
  | ok related later below => exact ⟨sound.of_later later below, _, related⟩
  | error later below => exact sound.of_later later below

end Env.Sound

namespace Session

theorem display_sound (sound : env.Sound s) (v : Value) :
    EndsIn env.Sound (fun _ _ => True) (display v) s := by
  have alike : Alike (sound.shift 0) s.nextTag Equal (do checkWeight v; Eval.lift (shown (← get) v))
      (do
        checkWeight (v.rename (sound.shift 0))
        Eval.lift (shown (← get) (v.rename (sound.shift 0)))) := by
    refine alike_checkWeight_bind v (.get_bind fun t late => ?_)
    rw [shown_rename late]
    exact .lift_same _
  exact (sound.guarded alike).trivially

theorem displays_sound (sound : env.Sound s) (args : List Value) :
    EndsIn env.Sound (fun _ _ => True) (args.mapM display) s := by
  induction args generalizing s with
  | nil => exact ⟨sound, trivial⟩
  | cons v rest ih =>
      rw [List.mapM_cons]
      exact (display_sound sound v).bind fun _ _ sound _ =>
        (ih sound).then_pure fun _ _ _ => trivial

theorem unpack_sound (sound : env.Sound s) (below : v.Below s.nextTag) (count : Nat) :
    EndsIn env.Sound (fun t items => ∀ v ∈ items, v.Below t.nextTag) (v.unpack count) s := by
  unfold Value.unpack
  split
  · exact ⟨sound, List.forall_mem_singleton.mpr below⟩
  · extract_lets counted
    have of_counted {t : Store} (items : List Value) (sound : env.Sound t)
        (each : ∀ v ∈ items, v.Below t.nextTag) :
        EndsIn env.Sound (fun t items => ∀ v ∈ items, v.Below t.nextTag) (counted items) t := by
      dsimp only [counted]
      split
      · exact ⟨sound, each⟩
      · exact sound
    clear_value counted
    cases v with
    | list r => exact of_counted _ sound (sound.store.lists r)
    | tuple tag items => exact of_counted _ sound (below_tuple.mp below).2
    | text tag t | raw tag t =>
        have characters : Alike (sound.shift 0) s.nextTag (RenamedAll (sound.shift 0))
            (t.mapM fun c => Value.ofText [c]) (t.mapM fun c => Value.ofText [c]) :=
          .mapM_each fun c _ _ _ => alike_ofText [c]
        exact (sound.guarded characters).bind fun items t sound ⟨_, _, each⟩ =>
          of_counted items sound each
    | _ => exact sound

theorem option_sound (sound : env.Sound s) (given : Bindings) (keyword : String) (usual : Text) :
    EndsIn env.Sound (fun _ _ => True) (Print.option given keyword usual) s := by
  unfold Print.option
  split
  · exact ⟨sound, trivial⟩
  · exact ⟨sound, trivial⟩
  · split
    · exact ⟨sound, trivial⟩
    · exact sound

section

variable (uniform : ∀ b ∈ env.builtins, b.Uniform)
include uniform

theorem evaluate_sound (sound : env.Sound s) (text : Text) :
    EndsIn env.Sound (fun t v => v.Below t.nextTag) (evaluate env text) s := by
  have ends := sound.guarded (m := Evaluate.reading (Expr.read text) >>= Evaluate.eval env)
    (.bind_same (Evaluate.alike_reading (Expr.read text)) fun k _ e =>
      Evaluate.alike_evalAt (sound.unmoved uniform 0) Evaluate.evalBudget k e)
  exact ends.weaken fun _ _ ⟨_, _, below⟩ => below

theorem evaluateArguments_sound (sound : env.Sound s) (text : Text) :
    EndsIn env.Sound (fun _ _ => True) (evaluateArguments env text) s := by
  have alike (n : Nat) (e : Expr) :=
    Evaluate.alike_evalAt (sound.unmoved uniform 0) Evaluate.evalBudget n e
  exact (sound.guarded (.bind_same (Evaluate.alike_reading (Expr.readArguments text))
    fun _ _ args => Evaluate.alike_arguments alike args)).trivially

theorem storeItem_sound (sound : env.Sound s) (target : Text) (below : v.Below s.nextTag) :
    EndsIn env.Sound (fun _ _ => True) (storeItem env target v) s :=
  (sound.guarded (Evaluate.alike_assignItem (sound.unmoved uniform 0) target below)).trivially

theorem printed_sound (sound : env.Sound s) (arguments : Text) :
    EndsIn env.Sound (fun _ _ => True) (Print.text arguments env) s := by
  refine (evaluateArguments_sound uniform sound arguments).bind fun r t sound _ => ?_
  obtain ⟨args, given⟩ := r
  dsimp -zeta only
  extract_lets written
  have of_written (u : Unit) {t : Store} (sound : env.Sound t) :
      EndsIn env.Sound (fun _ _ => True) (written u) t :=
    (option_sound sound given _ _).bind fun _ _ sound _ =>
      (option_sound sound given _ _).bind fun _ _ sound _ =>
        (displays_sound sound args).then_pure fun _ _ _ => trivial
  clear_value written
  split
  · exact sound
  · exact of_written () sound

end

end Session

/-! ### Lines -/

/-- All tags in the names, lists and dicts of a machine have been given out. -/
def Machine.Sound (setup : Setup) (m : Machine) : Prop :=
  (m.env setup).Sound m.store

/-- A hook that leaves no tags that have not been given out. -/
def Hook.IsSound (hook : Hook) : Prop :=
  ∀ builtins : List Builtin, (∀ b ∈ builtins, b.Uniform) → ∀ (occasion : Occasion) (w : Workspace),
    Env.Sound ⟨w.scope, builtins⟩ w.store →
      EndsIn (fun w => Env.Sound ⟨w.scope, builtins⟩ w.store) (fun _ _ => True)
        (hook.act builtins occasion) w

namespace Exec

variable {setup : Setup} {m : Machine} {Q : Store → α → Prop}

theorem attempt_sound {f : Env → Session α}
    (ends : EndsIn (m.env setup).Sound Q (f (m.env setup)) m.store) :
    EndsIn (Machine.Sound setup) (fun n r => ∀ a, r = .ok a → Q n.store a) (attempt setup f) m := by
  rw [EndsIn] at ends ⊢
  rw [attempt]
  cases ran : f (m.env setup) m.store with
  | ok a t =>
      rw [ran] at ends
      exact ⟨ends.1, by rintro b ⟨⟩; exact ends.2⟩
  | error stop t =>
      rw [ran] at ends
      cases stop with
      | cause c => exact ⟨ends, nofun⟩
      | escaped b => exact ends

theorem write_sound (sound : m.Sound setup) (chunk : Text) :
    EndsIn (Machine.Sound setup) (fun _ _ => True) (write setup chunk) m := by
  rw [EndsIn, write]
  cases setup.sink (m.received.push chunk) with
  | none => exact ⟨sound, trivial⟩
  | some failure => exact sound

theorem setAll_sound (sound : m.Sound setup) {bound : Bindings}
    (each : ∀ b ∈ bound, b.2.Below m.store.nextTag) :
    EndsIn (Machine.Sound setup) (fun _ _ => True) (bound.forM fun (name, v) => set name v) m := by
  induction bound generalizing m with
  | nil => exact ⟨sound, trivial⟩
  | cons b rest ih =>
      obtain ⟨of_b, of_rest⟩ := List.forall_mem_cons.mp each
      exact ih (m := { m with scope := m.scope.set b.1 b.2 }) (Env.Sound.set sound b.1 of_b) of_rest

variable (uniform : ∀ b ∈ setup.builtins, b.Uniform)
include uniform

theorem print_sound (sound : m.Sound setup) (arguments : Text) :
    EndsIn (Machine.Sound setup) (fun _ _ => True) (print setup arguments) m := by
  refine (attempt_sound (Session.printed_sound uniform sound arguments)).bind
    fun written n sound _ => ?_
  cases written with
  | ok chunk => exact write_sound sound chunk
  | error c => exact sound

theorem assign_sound (sound : m.Sound setup) (targets : List Text) (expression : Text)
    (op : Option BinaryOp) :
    EndsIn (Machine.Sound setup) (fun _ _ => True) (assign setup targets expression op) m := by
  have bind {n : Machine} {values : List Value} (sound : n.Sound setup)
      (each : ∀ v ∈ values, v.Below n.store.nextTag) :
      EndsIn (Machine.Sound setup) (fun _ _ => True)
        ((targets.zip values).forM fun (name, v) => set name v) n :=
    setAll_sound sound fun b member => each b.2 (List.of_mem_zip member).2
  have evaluated := (Session.evaluate_sound uniform sound
    (assignedExpression targets expression op)).bind fun v t sound below =>
      Session.unpack_sound sound below targets.length
  refine (attempt_sound (f := assignedValues targets expression op) evaluated).bind
    fun values n sound each => ?_
  cases values with
  | ok values => exact bind sound (each values rfl)
  | error c =>
      have raw : Alike (Env.Sound.shift sound 0) n.store.nextTag (Renamed (Env.Sound.shift sound 0))
          (Value.ofRaw expression) (Value.ofRaw expression) :=
        alike_newTag (.raw · expression) _ (fun _ => rfl) (Nat.lt_succ_self _)
      have kept : EndsIn (n.env setup).Sound (fun t values => ∀ v ∈ values, v.Below t.nextTag)
          (sourceValues targets expression (n.env setup)) n.store :=
        (Env.Sound.guarded sound raw).then_pure fun v t ⟨_, _, below⟩ =>
          List.forall_mem_map.mpr fun _ _ => below
      refine (attempt_sound kept).bind
        fun values n sound each => ?_
      cases values with
      | ok values => exact bind sound (each values rfl)
      | error c => exact sound

theorem assignItem_sound (sound : m.Sound setup) (target expression : Text) :
    EndsIn (Machine.Sound setup) (fun _ _ => True) (assignItem setup target expression) m := by
  have stored := (Session.evaluate_sound uniform sound expression).bind fun v t sound below =>
    Session.storeItem_sound uniform sound target below
  exact (attempt_sound (f := fun env => do
    let v ← Session.evaluate env expression
    Session.storeItem env target v) stored).then_pure fun _ _ _ => trivial

theorem check_sound (sound : m.Sound setup) (source : Text) :
    EndsIn (Machine.Sound setup) (fun _ _ => True) (check setup source) m := by
  have evaluated := Session.evaluate_sound uniform sound source
  refine (attempt_sound (f := fun env => Session.evaluate env source) evaluated).bind
    fun value n sound _ => ?_
  cases value with
  | ok v => exact ⟨sound, trivial⟩
  | error c => exact sound

theorem perform_sound (sound : m.Sound setup) (form : LineForm) :
    EndsIn (Machine.Sound setup) (fun _ _ => True) (perform setup form) m := by
  cases form with
  | print arguments => exact print_sound uniform sound arguments
  | assignment targets expression op => exact assign_sound uniform sound targets expression op
  | itemAssignment target expression => exact assignItem_sound uniform sound target expression
  | expression source => exact check_sound uniform sound source
  | raise kind arguments => exact sound
  | blank | header keyword | flow keyword => exact ⟨sound, trivial⟩

variable (hooks : ∀ h ∈ setup.hooks, h.IsSound)
include hooks

theorem emit_sound (sound : m.Sound setup) (occasion : Occasion) :
    EndsIn (Machine.Sound setup) (fun _ _ => True) (emit setup occasion) m := by
  let Kept (w : Workspace) : Prop := Env.Sound ⟨w.scope, setup.builtins⟩ w.store
  have acted : EndsIn Kept (fun _ _ => True)
      ((Hook.ofEvent setup.hooks occasion.event).forM fun h => h.act setup.builtins occasion)
      m.toWorkspace :=
    .forM sound fun h member w kept =>
      hooks h (List.mem_of_mem_filter member) setup.builtins uniform occasion w kept
  rw [EndsIn] at acted ⊢
  rw [emit, Hook.emit]
  dsimp only
  cases ran : (Hook.ofEvent setup.hooks occasion.event).forM
      (fun h => h.act setup.builtins occasion) m.toWorkspace with
  | ok done w =>
      rw [ran] at acted
      exact ⟨acted.1, trivial⟩
  | error halt w =>
      rw [ran] at acted
      exact acted

theorem step_sound (sound : m.Sound setup) (line : Line) :
    EndsIn (Machine.Sound setup) (fun _ _ => True) (step setup line) m :=
  (emit_sound uniform hooks sound _).bind fun _ n sound _ =>
    (perform_sound uniform (m := n.log setup line.number line.form.rule line.text) sound
      line.form).bind fun _ _ sound _ => emit_sound uniform hooks sound _

theorem line_sound (sound : m.Sound setup) (raw : Text) (number : Int) :
    EndsIn (Machine.Sound setup) (fun _ _ => True) (line setup raw number) m := by
  unfold line
  cases Line.classify raw number with
  | error mistake => exact sound
  | ok line =>
      have stepped := step_sound uniform hooks sound line
      have placed : EndsIn (Machine.Sound setup) (fun _ _ => True)
          (atLine number (step setup line)) m := by
        rw [EndsIn] at stepped ⊢
        rw [atLine]
        cases ran : step setup line m with
        | ok done n =>
            rw [ran] at stepped
            exact stepped
        | error halt n =>
            rw [ran] at stepped
            cases halt <;> exact stepped
      dsimp only
      split
      · exact ⟨sound, trivial⟩
      · exact placed

/-- Lines leave the machine with tags that have been given out, even if one of them fails. -/
theorem lines_sound (sound : m.Sound setup) (number : Int) (raws : List Text) :
    EndsIn (Machine.Sound setup) (fun _ _ => True) (lines setup number raws) m := by
  induction raws generalizing m number with
  | nil => exact ⟨sound, trivial⟩
  | cons raw rest ih =>
      exact (line_sound uniform hooks sound raw number).bind fun _ _ sound _ => ih sound _

end Exec

/-! ### Whole runs -/

theorem Machine.initial_sound (setup : Setup) : Machine.initial.Sound setup :=
  Env.sound_empty setup.builtins

variable {setup : Setup}

theorem Run.conclude_sound (uniform : ∀ b ∈ setup.builtins, b.Uniform)
    (hooks : ∀ h ∈ setup.hooks, h.IsSound) {m : Machine} (sound : m.Sound setup) (e : Error) :
    (conclude setup e m).machine.Sound setup := by
  have told := Exec.emit_sound uniform hooks sound (.onError e)
  rw [EndsIn] at told
  rw [conclude]
  cases ran : Exec.emit setup (.onError e) m with
  | ok done n =>
      rw [ran] at told
      exact told.1
  | error halt n =>
      rw [ran] at told
      cases halt <;> exact told

/-- A run of any source ends with tags that have been given out. -/
theorem Run.ofSource_sound (uniform : ∀ b ∈ setup.builtins, b.Uniform)
    (hooks : ∀ h ∈ setup.hooks, h.IsSound) (source : Text) :
    (ofSource setup source).machine.Sound setup := by
  have ran : EndsIn (Machine.Sound setup) (fun _ _ => True) (Exec.program setup source) .initial :=
    (Exec.emit_sound uniform hooks (Machine.initial_sound setup) _).bind fun _ _ sound _ =>
      (Exec.lines_sound uniform hooks sound 1 _).bind fun _ _ sound _ =>
        Exec.emit_sound uniform hooks sound _
  rw [EndsIn] at ran
  rw [ofSource]
  cases ended : Exec.program setup source Machine.initial with
  | ok done m =>
      rw [ended] at ran
      exact ran.1
  | error halt m =>
      rw [ended] at ran
      exact conclude_sound uniform hooks ran _

end Snippet
