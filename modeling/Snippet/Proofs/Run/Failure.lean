import Snippet.Proofs.Eval.Lookup
import Snippet.Proofs.Line.Shape
import Snippet.Proofs.Run.Assignment
import Snippet.Proofs.Run.NormalForm

/-!
How a snippet fails. As long as every evaluation has an answer, only a few reports reach the
reader, each from lines of its own form, and always with the number of the first line that fails.
-/

set_option autoImplicit false

namespace Snippet

variable {Q : Text → Prop}

namespace Print

section Text

variable {P : Stop → Store → Prop} {env : Env} {arguments : Text} {s : Store}
  (not_text : ∀ keyword s, ¬ P (.cause (.printKeywordNotText keyword)) s)

include not_text in
theorem not_ends_option (given : Bindings) (keyword : String) (usual : Text) (s : Store) :
    ¬ Ends P (option given keyword usual) s := by
  fun_cases option given keyword usual
  · exact not_ends_pure _
  · exact not_ends_pure _
  · exact not_ends_pure _
  · rintro ⟨stop, s', same, holds⟩
    cases same
    exact not_text keyword _ holds

include not_text in
-- A print line fails where its arguments or their texts do, or its keywords are wrong.
theorem not_ends_text (stray : ∀ keyword s, ¬ P (.cause (.invalidPrintKeyword keyword)) s)
    (evaluated : ¬ Ends P (Session.evaluateArguments env arguments) s)
    (shown : ∀ v s, ¬ Ends P (Session.display v) s) : ¬ Ends P (text arguments env) s := by
  refine not_ends_bind evaluated fun ⟨args, given⟩ s => ?_
  have behind (s : Store) : ¬ Ends P (do
      let sep ← option given "sep" [' ']
      let ending ← option given "end" ['\n']
      return Text.join sep (← args.mapM Session.display) ++ ending : Session Text) s := by
    refine not_ends_bind (not_ends_option not_text given _ _ s) fun sep s => ?_
    refine not_ends_bind (not_ends_option not_text given _ _ s) fun ending s => ?_
    exact not_ends_bind (not_ends_mapM (fun v _ => shown v) s) fun texts s => not_ends_pure _
  dsimp only
  split
  · rintro ⟨stop, s', same, holds⟩
    cases same
    exact stray _ _ holds
  · exact behind s

end Text

/-- A print line misses names of its arguments only. -/
theorem missesOnly_text {env : Env} (core : env.builtins = Builtin.core) (arguments : Text) :
    Session.MissesOnly (fun id => isIdentifier id = true ∧ env.Lacks id) (text arguments env) := by
  intro s
  apply not_ends_text
  case evaluated => exact Session.missesOnly_evaluateArguments core arguments s
  case shown => exact fun v => Session.missesOnly_display v
  all_goals
    rintro keyword s ⟨c, same, misses⟩
    cases same
    exact misses (by grind)

theorem escapes_text {arguments : Text} {env : Env} {s : Store}
    (h : Session.Escapes (text arguments env) s) :
    Session.Escapes (Session.evaluateArguments env arguments) s := by
  apply Classical.byContradiction
  intro answered
  refine not_ends_text ?_ ?_ answered Session.not_escapes_display h
  all_goals
    rintro keyword s ⟨b, same⟩
    cases same

end Print

/-- An evaluation that a line asks for lets a failure escape. -/
def LineForm.Escapes (env : Env) (s : Store) : LineForm → Prop
  | .print arguments => Session.Escapes (Session.evaluateArguments env arguments) s
  | .assignment targets source op =>
      Session.Escapes (Session.evaluate env (Exec.assignedExpression targets source op)) s
  | .itemAssignment target source =>
      Session.Escapes (Session.evaluate env source) s ∨
        ∃ v s', Session.evaluate env source s = .ok v s' ∧
          Session.Escapes (Session.storeItem env target v) s'
  | .expression source => Session.Escapes (Session.evaluate env source) s
  | .blank | .header _ | .flow _ | .raise .. => False

instance Session.decidableEscapes {α : Type} (m : Session α) (s : Store) :
    Decidable (Escapes m s) :=
  match ended : m s with
  | .ok _ _ => .isFalse (not_ends_of_ok ended)
  | .error (.cause _) _ => .isFalse fun h => nomatch (ends_of_error ended).mp h
  | .error (.escaped b) _ => .isTrue ((ends_of_error ended).mpr ⟨b, rfl⟩)

instance LineForm.decidableEscapes (env : Env) (s : Store) :
    (form : LineForm) → Decidable (form.Escapes env s)
  | .print arguments =>
      inferInstanceAs (Decidable (Session.Escapes (Session.evaluateArguments env arguments) s))
  | .assignment targets source op =>
      inferInstanceAs (Decidable
        (Session.Escapes (Session.evaluate env (Exec.assignedExpression targets source op)) s))
  | .itemAssignment target source =>
      decidable_of_iff
        (Session.Escapes (Session.evaluate env source >>= Session.storeItem env target) s)
        (Session.escapes_bind ..)
  | .expression source =>
      inferInstanceAs (Decidable (Session.Escapes (Session.evaluate env source) s))
  | .blank | .header _ | .flow _ | .raise .. => .isFalse id

namespace Line

theorem kind_of_raise? {masked kind : Text} {c : Capture} (h : raise? masked = some (kind, c)) :
    kind = "ValueError".toList := by
  simp only [raise?, Option.bind_eq_bind, Option.bind_eq_some_iff] at h
  obtain ⟨rest, -, h⟩ := h
  split at h
  · contradiction
  · obtain ⟨word, member, h⟩ := List.exists_of_findSome?_eq_some h
    obtain rfl := List.mem_singleton.mp member
    obtain ⟨rest, -, h⟩ := Option.bind_eq_some_iff.mp h
    obtain ⟨arguments, -, h⟩ := Option.bind_eq_some_iff.mp h
    split at h
    · contradiction
    · cases h
      rfl

-- The only errors that a line raises are of one kind.
def RaisesKnown (form : LineForm) : Prop :=
  ∀ kind arguments, form = .raise kind arguments → kind = "ValueError".toList

theorem assignmentForm?_ne_raise {t masked kind arguments : Text} :
    assignmentForm? t masked ≠ some (.raise kind arguments) := by
  simp [assignmentForm?, Option.bind_eq_some_iff]

theorem raisesKnown_formOf (t masked : Text) : RaisesKnown (formOf t masked) := by
  intro kind arguments same
  obtain ⟨-, -, c, found, -⟩ : leadingWord? flowKeywords masked = none ∧ print? masked = none ∧
      ∃ c, raise? masked = some (kind, c) ∧ c.of t = arguments := by
    simpa [formOf, Option.getD_eq_iff, assignmentForm?_ne_raise] using same
  exact kind_of_raise? found

theorem raisesKnown_of_classify {raw : Text} {number : Int} {line : Line}
    (h : classify raw number = .ok line) : RaisesKnown line.form := by
  intro kind arguments same
  obtain ⟨-, -, rfl⟩ := correct_of_classify h (by rw [same]; nofun)
  exact raisesKnown_formOf _ _ kind arguments same

end Line

namespace Exec

/-- Every evaluation has an answer that lines from a machine on ask for. -/
def Answers (setup : Setup) : Int → List Text → Machine → Prop
  | _, [], _ => True
  | number, raw :: rest, m =>
      (∀ line, Line.classify raw number = .ok line →
        ¬ line.form.Escapes (m.env setup) m.store) ∧
      ∀ n, line setup raw number m = .ok () n → Answers setup (number + 1) rest n

instance decidableAnswers (setup : Setup) :
    (number : Int) → (raws : List Text) → (m : Machine) → Decidable (Answers setup number raws m)
  | _, [], _ => .isTrue trivial
  | number, raw :: rest, m =>
      let first : Decidable (∀ line, Line.classify raw number = .ok line →
          ¬ line.form.Escapes (m.env setup) m.store) :=
        match classified : Line.classify raw number with
        | .error _ => .isTrue nofun
        | .ok line =>
            decidable_of_iff (¬ line.form.Escapes (m.env setup) m.store)
              ⟨by rintro h other same; cases same; exact h, fun h => h line rfl⟩
      let later : Decidable (∀ n, line setup raw number m = .ok () n →
          Answers setup (number + 1) rest n) :=
        match ran : line setup raw number m with
        | .error _ _ => .isTrue nofun
        | .ok () n =>
            have := decidableAnswers setup (number + 1) rest n
            decidable_of_iff (Answers setup (number + 1) rest n)
              ⟨by rintro h other same; cases same; exact h, fun h => h n rfl⟩
      @instDecidableAnd _ _ first later

/-- The kind and the message that are reported of a line that fails, in a scope. -/
inductive Reports (scope : Scope) : Except Malformed LineForm → Text → Text → Prop
  | malformed (mistake : Malformed) :
      Reports scope (.error mistake) "SyntaxError".toList mistake.message.toList
  | expression (source : Text) :
      Reports scope (.ok (.expression source)) "SyntaxError".toList "invalid syntax".toList
  | undefined (arguments : Text) {name : Text} (identifier : isIdentifier name = true)
      (unbound : scope.find? name = none)
      (no_function : Builtin.find? Builtin.core name = none) :
      Reports scope (.ok (.print arguments)) "NameError".toList
        ("name '".toList ++ name ++ "' is not defined".toList)
  | unevaluated (arguments : Text) :
      Reports scope (.ok (.print arguments)) "RuntimeError".toList "evaluation failed".toList
  | raised (kind arguments : Text) :
      Reports scope (.ok (.raise kind arguments)) "ValueError".toList "manual exception".toList

theorem message_undefinedName (name : Text) :
    (Cause.undefinedName name).message
      = "name '".toList ++ name ++ "' is not defined".toList := by
  have opening : "name '".toList = "name ".toList ++ ['\''] := by decide
  have closing : "' is not defined".toList = '\'' :: " is not defined".toList := by decide
  show "name ".toList ++ ('\'' :: name ++ ['\'']) ++ " is not defined".toList = _
  simp [opening, closing]

section Quiet

variable {setup : Setup} (quiet : setup.Quiet) (core : setup.builtins = Builtin.core)
include quiet core

theorem reports_print {arguments : Text} {m n : Machine} {halt : Halt}
    (answered : ¬ Session.Escapes (Session.evaluateArguments (m.env setup) arguments) m.store)
    (failed : print setup arguments m = .error halt n) :
    ∃ c, halt = .error ⟨c, none⟩ ∧ Reports m.scope (.ok (.print arguments)) c.kind c.message := by
  rw [print, bind_eq] at failed
  cases ran : Print.text arguments (m.env setup) m.store with
  | ok chunk s =>
      simp only [attempt, ran] at failed
      simp only [write, quiet.sink] at failed
      contradiction
  | error stop s =>
      cases stop with
      | escaped b => exact absurd (Print.escapes_text ⟨_, s, ran, b, rfl⟩) answered
      | cause c =>
          simp only [attempt, ran] at failed
          cases failed
          refine ⟨Print.reported c, rfl, ?_⟩
          rw [Print.reported]
          split
          case isTrue named =>
            have misses := (Print.missesOnly_text core arguments).cause ran
            obtain ⟨name, rfl, identifier, unbound, no_function⟩ :=
              misses.undefined (beq_iff_eq.mp named)
            rw [message_undefinedName]
            exact .undefined arguments identifier unbound (core ▸ no_function)
          case isFalse => exact .unevaluated arguments

theorem reports_perform {form : LineForm} {m n : Machine} {halt : Halt}
    (raised : Line.RaisesKnown form)
    (answered : ¬ form.Escapes (m.env setup) m.store)
    (failed : perform setup form m = .error halt n) :
    ∃ c, halt = .error ⟨c, none⟩ ∧ Reports m.scope (.ok form) c.kind c.message := by
  cases form with
  | blank | header keyword | flow keyword => contradiction
  | print arguments => exact reports_print quiet core answered failed
  | raise kind arguments =>
      obtain rfl := raised kind arguments rfl
      cases failed
      exact ⟨_, rfl, .raised _ arguments⟩
  | assignment targets source op =>
      exact absurd ((halts_assign targets source op m).mp ⟨halt, n, failed, trivial⟩) answered
  | itemAssignment target source =>
      exact absurd ((halts_assignItem target source m).mp ⟨halt, n, failed, trivial⟩) answered
  | expression source =>
      simp only [perform, check, bind_eq, attempt] at failed
      cases ran : Session.evaluate (m.env setup) source m.store with
      | ok v s =>
          rw [ran] at failed
          contradiction
      | error stop s =>
          rw [ran] at failed
          cases stop with
          | escaped b => exact absurd ⟨_, s, ran, b, rfl⟩ answered
          | cause c =>
              cases failed
              exact ⟨_, rfl, .expression source⟩

theorem reports_line {raw : Text} {number : Int} {m n : Machine} {halt : Halt}
    (answered : ∀ line, Line.classify raw number = .ok line →
      ¬ line.form.Escapes (m.env setup) m.store)
    (failed : line setup raw number m = .error halt n) :
    Line.bare raw ≠ [] ∧ ∃ c, halt = .error ⟨c, some number⟩ ∧
      Reports m.scope ((Line.classify raw number).map (·.form)) c.kind c.message := by
  have shown : Line.bare raw ≠ [] := by
    intro empty
    simp only [line, Line.classify_of_isEmpty empty] at failed
    contradiction
  refine ⟨shown, ?_⟩
  simp only [line] at failed
  cases classified : Line.classify raw number with
  | error mistake =>
      rw [classified] at failed
      cases failed
      exact ⟨_, rfl, .malformed mistake⟩
  | ok line =>
      have acted : atLine number (step setup line) m = .error halt n := by
        rw [classified] at failed
        cases form : line.form <;> simp only [form] at failed
        case blank => contradiction
        all_goals exact failed
      rw [atLine, step_eq quiet.hooks] at acted
      cases performed : perform setup line.form (m.begin setup line) with
      | ok u k =>
          rw [performed] at acted
          contradiction
      | error inner k =>
          obtain ⟨c, rfl, reported⟩ := reports_perform quiet core (m := m.begin setup line)
            (Line.raisesKnown_of_classify classified) (answered line classified) performed
          rw [performed] at acted
          cases acted
          exact ⟨c, rfl, reported⟩

/-- Lines that fail do so at the first one that fails, with its number. -/
theorem reports_lines {number : Int} {raws : List Text} {m n : Machine} {halt : Halt}
    (answers : Answers setup number raws m) (failed : lines setup number raws m = .error halt n) :
    ∃ before raw after k c, raws = before ++ raw :: after ∧
      lines setup number before m = .ok () k ∧
      line setup raw (number + before.length) k = .error halt n ∧
      halt = .error ⟨c, some (number + before.length)⟩ ∧ Line.bare raw ≠ [] ∧
      Reports k.scope ((Line.classify raw (number + before.length)).map (·.form)) c.kind
        c.message := by
  induction raws generalizing number m with
  | nil => contradiction
  | cons raw rest ih =>
      rw [lines, bind_eq] at failed
      cases first : line setup raw number m with
      | ok u k =>
          rw [first] at failed
          obtain ⟨before, last, after, l, c, rfl, ran, halted, placed, shown, reported⟩ :=
            ih (answers.2 k first) failed
          refine ⟨raw :: before, last, after, l, c, rfl, ?_, ?_⟩
          · rw [lines, bind_eq, first]
            exact ran
          · have next : number + 1 + (before.length : Int)
                = number + ((raw :: before).length : Nat) := by
              rw [List.length_cons]
              omega
            rw [← next]
            exact ⟨halted, placed, shown, reported⟩
      | error inner k =>
          rw [first] at failed
          cases failed
          obtain ⟨shown, c, rfl, reported⟩ := reports_line quiet core answers.1 first
          refine ⟨[], raw, rest, m, c, rfl, rfl, ?_⟩
          simpa using ⟨first, shown, reported⟩

end Quiet

end Exec

namespace Exec.Reports

variable {scope : Scope} {form : Except Malformed LineForm} {kind message : Text}

theorem not_mem_of_isIdentifier {id : Text} (identifier : isIdentifier id = true) :
    '\n' ∉ id := by
  have no_start : isNameStart '\n' = false := by decide
  have no_rest : Token.isNameRest '\n' = false := by decide
  cases id with
  | nil => exact nofun
  | cons c rest =>
      simp only [isIdentifier, Bool.and_eq_true, List.all_eq_true] at identifier
      obtain ⟨⟨⟨-, start⟩, all⟩, -⟩ := identifier
      intro member
      obtain rfl | later := List.mem_cons.mp member
      · rw [no_start] at start
        contradiction
      · have tail := all _ later
        rw [no_rest] at tail
        contradiction

-- A report is one line.
theorem not_mem_newline (h : Reports scope form kind message) :
    '\n' ∉ kind ++ ": ".toList ++ message := by
  cases h with
  | malformed mistake => cases mistake <;> decide
  | undefined arguments identifier =>
      have name := not_mem_of_isIdentifier identifier
      have around : '\n' ∉ "NameError".toList ++ ": ".toList ++ "name '".toList
          ++ "' is not defined".toList := by decide
      simp only [List.mem_append, not_or] at around ⊢
      exact ⟨around.1.1, ⟨around.1.2, name⟩, around.2⟩
  | _ => decide

end Exec.Reports

-- A report whose message is one line has three lines.
theorem lines_report {c : Cause} (count : Nat)
    (message : '\n' ∉ c.kind ++ ": ".toList ++ c.message) :
    Text.lines (report c (1 + (count : Int))) = [
      "Traceback (most recent call last):".toList,
      "  File \"main.py\", line ".toList ++ digitsOf (1 + count) ++ ", in <module>".toList,
      c.kind ++ ": ".toList ++ c.message] := by
  have number : intText (1 + (count : Int)) = digitsOf (1 + count) := by
    rw [intText, if_neg (by omega)]
    congr
  have front : "  File \"".toList ++ usualFilename ++ "\", line ".toList
      = "  File \"main.py\", line ".toList := by decide
  rw [report, number, front]
  apply Text.lines_join _ _ (by simp)
  intro piece member
  simp only [List.mem_cons, List.not_mem_nil, or_false] at member
  obtain rfl | rfl | rfl := member
  · decide
  · have digits : '\n' ∉ digitsOf (1 + count) := fun h =>
      absurd (isDigit_of_mem_digitsOf h) (by decide)
    have around : '\n' ∉ "  File \"main.py\", line ".toList ++ ", in <module>".toList := by decide
    simp only [List.mem_append, not_or] at around ⊢
    exact ⟨⟨around.1, digits⟩, around.2⟩
  · exact message

/-- A line is the first one of a source text that fails, and a report in three lines tells so. It is
not blank, and what it is tells what may be reported of it. -/
structure FailsFirst (source : Text) (before : List Text) (raw : Text) (m : Machine)
    (kind message : Text) : Prop where
  place : ∃ after, sourceLines source = before ++ raw :: after
  passed : Exec.lines plainSetup 1 before Machine.started = .ok () m
  halted : Exec.Halts (Exec.line plainSetup raw (1 + before.length)) m
  shown : Line.bare raw ≠ []
  reported :
    Exec.Reports m.scope ((Line.classify raw (1 + before.length)).map (·.form)) kind message
  stderr : Text.lines (simulate source).stderr = [
    "Traceback (most recent call last):".toList,
    "  File \"main.py\", line ".toList ++ digitsOf (1 + before.length) ++ ", in <module>".toList,
    kind ++ ": ".toList ++ message]

/-- As long as every evaluation has an answer, a snippet shows no error, or one of a few. -/
theorem simulate_reports {source : Text}
    (answers : Exec.Answers plainSetup 1 (sourceLines source) Machine.started) :
    (simulate source).stderr = [] ∨
      ∃ before raw m kind message, FailsFirst source before raw m kind message := by
  cases ran : Exec.lines plainSetup 1 (sourceLines source) Machine.started with
  | ok u m =>
      left
      rw [simulate_eq, Run.ofSource_eq plainSetup_quiet, ran]
      rfl
  | error halt n =>
      right
      obtain ⟨before, raw, after, m, c, whole, passed, failed, rfl, shown, reported⟩ :=
        Exec.reports_lines plainSetup_quiet rfl answers ran
      have ended : (Run.ofSource plainSetup source).error
          = some ⟨c, some (1 + (before.length : Int))⟩ := by
        rw [Run.ofSource_eq plainSetup_quiet, ran]
        simp [Run.conclude_eq plainSetup_quiet, Run.errorOf]
      refine ⟨before, raw, m, c.kind, c.message, ⟨after, whole⟩, passed, ⟨_, n, failed, trivial⟩,
        shown, reported, ?_⟩
      rw [stderr_of_error ended (by omega) rfl]
      exact lines_report _ reported.not_mem_newline

-- An assignment whose value is missing, and a name that is bound nowhere.
theorem simulate_reports_unbound_name :
    Exec.Answers plainSetup 1 (sourceLines "\nx = 1 / 0\nprint(x, y)\nprint(1)".toList)
        Machine.started ∧
      ∃ before raw m kind message,
        FailsFirst "\nx = 1 / 0\nprint(x, y)\nprint(1)".toList before raw m kind message := by
  have answers : Exec.Answers plainSetup 1
      (sourceLines "\nx = 1 / 0\nprint(x, y)\nprint(1)".toList) Machine.started := by
    decide +kernel
  have failed : (simulate "\nx = 1 / 0\nprint(x, y)\nprint(1)".toList).stderr ≠ [] := by
    decide +kernel
  exact ⟨answers, (simulate_reports answers).resolve_left failed⟩

end Snippet
