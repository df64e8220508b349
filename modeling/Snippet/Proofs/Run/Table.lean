import Snippet.Extension.Roots
import Snippet.Proofs.Eval.Table
import Snippet.Proofs.Line.Names
import Snippet.Proofs.Run.Shift
import Snippet.Proofs.Run.Sized
import Snippet.Proofs.Text.Break

/-!
Runs under two tables of functions. A function that another table adds is called only by its name,
and names stand in the source. So without hooks a run that names none of the added functions is the
same under both tables, statement after statement.
-/

set_option autoImplicit false

namespace Snippet

variable {α β : Type} {P : Text → Prop} {w : Limits} {k chars : Nat} {s : Store} {m : Machine}
  {setup : Setup} {table : List Builtin}

/-! ### Evaluations -/

namespace Session

variable {env : Env}

theorem guarded_same {x x' : Eval α} (same : x' s = x s) : guarded x' s = guarded x s := by
  rw [guarded, guarded, same]

variable (shared : env.Shared w chars table) (held : s.Within w) {t : Text}
  (names : Text.NamesAre (env.Shares table) t)
include shared held names

theorem evaluate_same (short : TextsFit chars (Expr.ofText t)) :
    evaluate (env.withTable table) t s = evaluate env t s := by
  refine guarded_same (Evaluate.reading_bind_same fun e read => ?_)
  rw [Expr.ofText_eq read] at short
  have fits := (Expr.namesAre_of_read names read).fits (short e List.mem_cons_self)
  exact (Evaluate.isShared_eval fits).same w s shared held

theorem evaluateArguments_same (short : TextsFit chars (Expr.ofArguments t)) :
    evaluateArguments (env.withTable table) t s = evaluateArguments env t s := by
  refine guarded_same (Evaluate.reading_bind_same fun args read => ?_)
  rw [Expr.ofArguments_eq read] at short
  have each : ∀ a ∈ args, Evaluate.IsShared env chars table (Evaluate.eval env)
      (Evaluate.eval (env.withTable table)) a.2 := fun a member =>
    Evaluate.isShared_eval ((Expr.namesAre_of_readArguments names read a member).fits
      (short a.2 (List.mem_map_of_mem member)))
  exact Evaluate.argumentsFrom_same shared held each [] []

theorem storeItem_same (short : TextsFit chars (Expr.ofText t)) (v : Value) :
    storeItem (env.withTable table) t v s = storeItem env t v s := by
  refine guarded_same (Evaluate.assignItem_same shared held names (fun e read => ?_) v)
  exact short e (by simp [Expr.ofText_eq read])

end Session

/-! ### Statements -/

def Setup.withTable (setup : Setup) (table : List Builtin) : Setup :=
  { setup with builtins := table }

/-- The names for which a setup has the same function as another table, or neither has one. -/
def Setup.shared (setup : Setup) (table : List Builtin) : Set Text :=
  {id | Builtin.find? table id = Builtin.find? setup.builtins id}

/-- Another table has the functions of a setup too. -/
structure Setup.Extended (setup : Setup) (table : List Builtin) : Prop where
  sized : ∀ b ∈ setup.builtins, b.IsSized
  own : ∀ b ∈ setup.builtins, b.name ∈ setup.shared table

/-- What a machine holds is within limits, and its functions are those of both tables. -/
def Machine.Held (setup : Setup) (table : List Builtin) (chars : Nat) (m : Machine) : Prop :=
  ∃ w : Limits, w.functions = setup.shared table ∧ w.chars = chars ∧ m.Within w

/-- A line is written with names that are in both tables or in none, and with no longer text. -/
structure LineForm.Fits (setup : Setup) (table : List Builtin) (chars : Nat) (form : LineForm) :
    Prop where
  names : ∀ t ∈ form.sources, Text.NamesAre (· ∈ setup.shared table) t
  short : TextsFit chars form.expressions
  kept : form.keptLength ≤ chars

/-- Wherever a line of source stands, it is read as one that is written so. -/
def RawFits (setup : Setup) (table : List Builtin) (chars : Nat) (raw : Text) : Prop :=
  ∀ number line, Line.classify raw number = .ok line → line.form.Fits setup table chars

theorem Machine.Held.beside {n : Machine} (held : m.Held setup table chars)
    (store : n.store = m.store) (scope : n.scope = m.scope) : n.Held setup table chars := by
  obtain ⟨w, functions, same, within⟩ := held
  refine ⟨w, functions, same, within.settled, store ▸ within.store, fun id v found => ?_⟩
  exact within.scope id v (scope ▸ found)

namespace Exec

theorem env_shared (extended : setup.Extended table) (functions : w.functions = setup.shared table)
    (within : m.Within w) : (m.env setup).Shared w w.chars table where
  chars := rfl
  scope := within.scope
  builtins := extended.sized
  functions b member := functions ▸ extended.own b member
  shares id known := by
    rw [functions] at known
    exact known

theorem SafeAt.held {x : Exec α} {Q : Limits → α → Prop} (safe : SafeAt w k m x Q)
    (functions : w.functions = setup.shared table) : (Exec.after x m).Held setup table w.chars := by
  obtain ⟨w', grows, within⟩ := safe.after
  exact ⟨w', grows.functions.trans functions, grows.chars, within⟩

theorem attempt_same {f : Env → Session α}
    (same : f ((m.env setup).withTable table) m.store = f (m.env setup) m.store) :
    attempt (setup.withTable table) f m = attempt setup f m := by
  have env : m.env (setup.withTable table) = (m.env setup).withTable table := rfl
  rw [attempt, attempt, env, same]

/-- From every machine with functions of both tables, both programs do the same, and leave such a
machine. -/
def Agree (setup : Setup) (table : List Builtin) (chars : Nat) (x x' : Exec α) : Prop :=
  ∀ m : Machine, m.Held setup table chars →
    x' m = x m ∧ (after x m).Held setup table chars

section Agree

variable {x x' : Exec α} {next next' : α → Exec β}

theorem Agree.pure (a : α) : Agree setup table chars (pure a) (pure a) :=
  fun _ held => ⟨rfl, held⟩

theorem Agree.throw (halt : Halt) : Agree setup table chars (throw halt : Exec α) (throw halt) :=
  fun _ held => ⟨rfl, held⟩

theorem Agree.bind (first : Agree setup table chars x x')
    (then_ : ∀ a, Agree setup table chars (next a) (next' a)) :
    Agree setup table chars (x >>= next) (x' >>= next') := by
  intro m held
  obtain ⟨same, left⟩ := first m held
  rw [after] at left ⊢
  rw [bind_eq, bind_eq, same]
  cases ran : x m with
  | ok a n =>
      rw [ran] at left
      exact then_ a n left
  | error halt n =>
      rw [ran] at left
      exact ⟨rfl, left⟩

theorem Agree.atLine (h : Agree setup table chars x x') (number : Int) :
    Agree setup table chars (atLine number x) (atLine number x') := by
  intro m held
  obtain ⟨same, left⟩ := h m held
  rw [after] at left ⊢
  rw [Exec.atLine, Exec.atLine, same]
  cases ran : x m with
  | ok a n =>
      rw [ran] at left
      exact ⟨rfl, left⟩
  | error halt n =>
      rw [ran] at left
      cases halt <;> exact ⟨rfl, left⟩

theorem Agree.log (number : Int) (rule : String) (statement : Text) :
    Agree setup table chars (log setup number rule statement)
      (log (setup.withTable table) number rule statement) :=
  fun _ held => ⟨rfl, held.beside rfl rfl⟩

theorem Agree.emit (hookless : setup.hooks = []) (occasion : Occasion) :
    Agree setup table chars (emit setup occasion) (emit (setup.withTable table) occasion) := by
  intro m held
  have other : (setup.withTable table).hooks = [] := hookless
  rw [after, emit_eq hookless, emit_eq other]
  exact ⟨rfl, held.beside rfl rfl⟩

end Agree

variable (extended : setup.Extended table)
include extended

/-- One statement: it does the same under both tables. -/
theorem Agree.perform {form : LineForm} (fits : form.Fits setup table chars) :
    Agree setup table chars (perform setup form) (perform (setup.withTable table) form) := by
  rintro m ⟨w, functions, rfl, within⟩
  obtain ⟨names, short, kept⟩ := fits
  have shared := env_shared extended functions within
  have own : setup.Within w := ⟨shared.builtins, shared.toWithin.functions⟩
  refine ⟨?_, (safeAt_perform within own short kept).held functions⟩
  have store := within.store
  cases form with
  | blank | header | flow | raise => rfl
  | print arguments =>
      have given := Session.evaluateArguments_same shared store (names _ List.mem_cons_self) short
      exact bind_same (attempt_same (bind_same given))
  | assignment targets expression op =>
      have assigned := Session.evaluate_same shared store (names _ List.mem_cons_self) short
      exact bind_same (attempt_same (bind_same assigned))
  | itemAssignment target expression =>
      obtain ⟨of_expression, of_target⟩ := List.forall_mem_append.mp short
      have evaluated := Session.evaluate_same shared store (names _ List.mem_cons_self)
        of_expression
      have safe := Session.safe_evaluate shared.toWithin of_expression m.store store
      -- The target is worked out in the world the value left, which holds more than the first one
      -- did.
      refine bind_same (attempt_same (safe.bind_same evaluated fun w' v s' grows held' _ => ?_))
      exact Session.storeItem_same (shared.grow grows) held' (names _ (by simp [LineForm.sources]))
        of_target v
  | expression source =>
      have evaluated := Session.evaluate_same shared store (names _ List.mem_cons_self) short
      exact bind_same (attempt_same evaluated)

/-! ### Lines -/

variable (hookless : setup.hooks = [])
include hookless

theorem Agree.step {line : Line} (fits : line.form.Fits setup table chars) :
    Agree setup table chars (step setup line) (step (setup.withTable table) line) := by
  refine (Agree.emit hookless (.beforeLine line)).bind fun _ => ?_
  refine (Agree.log line.number line.form.rule line.text).bind fun _ => ?_
  refine (Agree.perform extended fits).bind fun _ => ?_
  exact Agree.emit hookless (.afterLine line)

theorem Agree.line {raw : Text} (fits : RawFits setup table chars raw) (number : Int) :
    Agree setup table chars (line setup raw number) (line (setup.withTable table) raw number) := by
  rw [Exec.line, Exec.line]
  cases classified : Line.classify raw number with
  | error mistake => exact (Agree.log number syntaxRule (Text.trim raw)).bind fun _ => .throw _
  | ok line =>
      have placed := (Agree.step extended hookless (fits number line classified)).atLine number
      cases form : line.form with
      | blank => simpa only [form] using Agree.pure ()
      | _ => simpa only [form] using placed

/-- Lines one after the other do the same under both tables. -/
theorem Agree.lines {raws : List Text} (fits : ∀ raw ∈ raws, RawFits setup table chars raw)
    (number : Int) :
    Agree setup table chars (lines setup number raws)
      (lines (setup.withTable table) number raws) := by
  induction raws generalizing number with
  | nil => exact .pure ()
  | cons raw rest ih =>
      obtain ⟨here, later⟩ := List.forall_mem_cons.mp fits
      exact (Agree.line extended hookless here number).bind fun _ => ih later (number + 1)

theorem Agree.program {source : Text}
    (fits : ∀ raw ∈ sourceLines source, RawFits setup table chars raw) :
    Agree setup table chars (program setup source) (program (setup.withTable table) source) := by
  refine (Agree.emit hookless .programStart).bind fun _ => ?_
  refine (Agree.lines extended hookless fits 1).bind fun _ => ?_
  exact Agree.emit hookless .programEnd

end Exec

/-! ### From the source -/

theorem Text.follows_dropReturns (t : Text) : Follows (dropReturns t) t := by
  fun_induction dropReturns t with
  | case1 => exact .nil []
  | case2 rest ih => exact .sign (by decide) ['\r', '\n'] ih
  | case3 c rest single ih => exact .cons c ih

theorem Text.isInfix_join {piece : Text} {pieces : List Text} (sep : Text)
    (member : piece ∈ pieces) : piece <:+: join sep pieces := by
  fun_induction join sep pieces with
  | case1 => contradiction
  | case2 only =>
      rw [List.mem_singleton.mp member]
  | case3 first rest _ ih =>
      obtain rfl | later := List.mem_cons.mp member
      · exact (List.prefix_append piece _).isInfix.trans (List.prefix_append _ _).isInfix
      · exact (ih later).trans (List.suffix_append _ _).isInfix

theorem Text.isInfix_of_mem_lines {t line : Text} (member : line ∈ lines t) : line <:+: t := by
  rw [← join_cut ['\n'] t (t.length + 1) (by simp)]
  exact isInfix_join ['\n'] member

/-- Names in a line of a source text stand in the text. -/
theorem Text.NamesAre.line {source raw : Text} (names : NamesAre P source)
    (member : raw ∈ sourceLines source) : NamesAre P raw := by
  rw [sourceLines_eq_lines] at member
  exact (names.follows (follows_dropReturns source)).within (isInfix_of_mem_lines member)

/-- What a line of source is read as; its number changes nothing. -/
def LineForm.ofRaw? (raw : Text) : Option LineForm :=
  (Line.classify raw 0).toOption.map (·.form)

theorem LineForm.ofRaw?_eq {raw : Text} {number : Int} {line : Line}
    (h : Line.classify raw number = .ok line) : ofRaw? raw = some line.form := by
  have moved := Line.classify_shift raw number (-number)
  rw [Int.add_right_neg, h] at moved
  rw [ofRaw?, moved]
  rfl

/-- Lines that are written with names of both tables or of none keep to some length. -/
theorem exists_rawFits {raws : List Text}
    (names : ∀ raw ∈ raws, Text.NamesAre (· ∈ setup.shared table) raw) :
    ∃ chars, maxLength ≤ chars ∧ ∀ raw ∈ raws, RawFits setup table chars raw := by
  let forms := raws.filterMap LineForm.ofRaw?
  have enough := Nat.le_max_right maxLength (longestSource forms [])
  obtain ⟨short, -, kept⟩ := longestSource_fits forms []
  refine ⟨max maxLength (longestSource forms []), Nat.le_max_left _ _, ?_⟩
  intro raw member number line classified
  have of_forms : line.form ∈ forms :=
    List.mem_filterMap.mpr ⟨raw, member, LineForm.ofRaw?_eq classified⟩
  refine ⟨Line.namesAre_of_classify (names raw member) classified, ?_, ?_⟩
  · exact fun e used => ((short e (List.mem_flatMap.mpr ⟨_, of_forms, used⟩)).trans enough)
  · exact (kept _ of_forms).trans enough

/-- A run is the same under another table that has the functions of a setup too, and no others that
the source names. -/
theorem Run.ofSource_same (extended : setup.Extended table) (hookless : setup.hooks = [])
    {source : Text} (names : Text.NamesAre (· ∈ setup.shared table) source) :
    Run.ofSource (setup.withTable table) source = Run.ofSource setup source := by
  obtain ⟨chars, chars_ge, fits⟩ := exists_rawFits fun raw member => names.line member
  have initial : Machine.initial.Held setup table chars :=
    ⟨_, rfl, rfl, Machine.initial_within chars_ge (setup.shared table)⟩
  obtain ⟨same, -⟩ := Exec.Agree.program extended hookless fits .initial initial
  have other : (setup.withTable table).hooks = [] := hookless
  rw [Run.ofSource, Run.ofSource, same]
  cases Exec.program setup source .initial with
  | ok _ m => rfl
  | error halt m => simp only [conclude, Exec.emit_eq other, Exec.emit_eq hookless]

/-! ### Extensions -/

namespace Services

variable {services : Services}

theorem builtins_empty : Services.empty.builtins = Builtin.core :=
  List.append_nil _

theorem find?_builtins (id : Text) :
    Builtin.find? services.builtins id =
      (Builtin.find? Builtin.core id).or
        (Builtin.find? (services.provided.map (·.builtin)) id) :=
  List.find?_append

-- What extensions provide does not hide a function of the core.
theorem extended_setup (services : Services) (filename : Text) (verbose : Bool) (sink : Sink) :
    (Services.empty.setup filename verbose sink).Extended services.builtins where
  sized := by
    rw [setup, builtins_empty]
    exact Builtin.core_isSized
  own b member := by
    rw [setup, builtins_empty] at member ⊢
    have found : (Builtin.find? Builtin.core b.name).isSome :=
      List.find?_isSome.mpr ⟨b, member, beq_self_eq_true _⟩
    obtain ⟨core, same⟩ := Option.isSome_iff_exists.mp found
    show Builtin.find? services.builtins b.name = Builtin.find? Builtin.core b.name
    rw [find?_builtins, same]
    rfl

theorem mem_shared_of_unnamed {filename : Text} {verbose : Bool} {sink : Sink} {id : Text}
    (unnamed : ∀ p ∈ services.provided, p.builtin.name ≠ id) :
    id ∈ (Services.empty.setup filename verbose sink).shared services.builtins := by
  have missing : Builtin.find? (services.provided.map (·.builtin)) id = none := by
    refine List.find?_eq_none.mpr (List.forall_mem_map.mpr fun p member => ?_)
    simpa using unnamed p member
  show Builtin.find? services.builtins id = Builtin.find? Services.empty.builtins id
  rw [find?_builtins, missing, builtins_empty, Option.or_none]

end Services

end Snippet
