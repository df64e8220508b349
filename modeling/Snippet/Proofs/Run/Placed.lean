import Snippet.Proofs.Run.Protocol

/-!
The lines that the two reports of an error name. The text names the first line for an error that
has none, or the line 0; the data names what the error has. An error has its line from the move
that failed, from the last step of the log, or from a hook that replaced it.
-/

set_option autoImplicit false

namespace Snippet

-- The value of a member of an object.
def Json.member? (key : String) : Json → Option Json
  | .object members => (members.find? fun m => m.1 == key.toList).map (·.2)
  | _ => none

/-- An error that has a line, and not the line 0. -/
def Error.IsPlaced (e : Error) : Prop :=
  ∃ line, e.line = some line ∧ line ≠ 0

-- An error that brings the line 0 itself.
def Error.NamesZero (e : Error) : Prop :=
  e.line = some 0

/-- Neither hooks nor the sink give the line 0 to an error. -/
structure Setup.NamesNoZero (setup : Setup) : Prop where
  hooks : ∀ occasion w, ¬ Ends (fun e _ => e.NamesZero) (Hook.emit setup.hooks setup.builtins occasion) w
  sink : ∀ received failure e, setup.sink received = some failure → failure.error = some e →
    ¬ e.NamesZero

-- Every step of the log belongs to a line that is not the line 0.
def Machine.StepsPlaced (m : Machine) : Prop :=
  ∀ step ∈ m.steps.toList, step.line ≠ 0

namespace Traceback

/-- The line that the data of a report names. -/
def reportedLine? (report : Json) : Option Json :=
  (report.member? "error").bind (·.member? "line")

theorem reportedLine?_report (setup : Setup) (m : Machine) (e : Error) :
    reportedLine? (report setup m e) = some ((e.line.map Json.int).getD .null) :=
  rfl

theorem lineOf_eq_iff (e : Error) : e.line = some (lineOf e) ↔ e.IsPlaced := by
  unfold lineOf Error.IsPlaced
  split
  · rename_i missing
    simp [missing]
  · rename_i zero
    simp [zero]
  · rename_i line other given
    have not_zero : line ≠ 0 := by
      rintro rfl
      exact other rfl
    simp [given, not_zero]

theorem reportedLine?_eq_iff (setup : Setup) (m : Machine) (e : Error) :
    reportedLine? (report setup m e) = some (.int (lineOf e)) ↔ e.IsPlaced := by
  rw [reportedLine?_report, ← lineOf_eq_iff]
  cases e.line with
  | none => simp
  | some line => simp

-- The second line of a traceback names a line.
theorem text_eq (setup : Setup) (m : Machine) (e : Error) :
    ∃ rest, text setup m e
      = "Traceback (most recent call last):\n".toList ++ location setup e ++ '\n' :: rest := by
  have first : lines setup m e = "Traceback (most recent call last):".toList :: location setup e
      :: (lines setup m e).drop 2 := rfl
  have more : (lines setup m e).drop 2 ≠ [] := by simp [lines]
  refine ⟨Text.join ['\n'] ((lines setup m e).drop 2), ?_⟩
  rw [text, first, Text.join_cons _ _ (List.cons_ne_nil _ _), Text.join_cons _ _ more]
  simp

end Traceback

namespace Run

theorem replacing_isPlaced (old new : Error) :
    (replacing old new).IsPlaced ↔ new.IsPlaced ∨ old.IsPlaced := by
  unfold replacing Error.IsPlaced
  split
  · rename_i missing
    simp [missing]
  · rename_i zero
    simp [zero]
  · rename_i line other given
    have not_zero : line ≠ 0 := by
      rintro rfl
      exact other rfl
    simp [given, not_zero]

-- Hooks that are told of an error may replace it by one that has a line of its own.
theorem conclude_isPlaced {setup : Setup} {first e : Error} {m : Machine}
    (h : (conclude setup first m).error = some e) :
    e.IsPlaced ↔ first.IsPlaced ∨
      Ends (fun halt _ => ∃ new, halt = .error new ∧ new.IsPlaced)
        (Exec.emit setup (.onError first)) m := by
  rw [conclude] at h
  split at h
  · rename_i ran
    cases h
    simp [not_ends_of_ok ran]
  · rename_i new n ran
    cases h
    rw [replacing_isPlaced, ends_of_error ran, or_comm]
    simp
  · rename_i mishap n ran
    cases h
    rw [ends_of_error ran]
    simp

theorem errorOf_isPlaced {m : Machine} (placed : m.StepsPlaced) (halt : Halt) :
    (errorOf m halt).IsPlaced ↔
      ¬ ∃ e, halt = .error e ∧ (e.NamesZero ∨ e.line = none ∧ m.steps = #[]) := by
  have last (line : Int) (found : m.lastStep?.map (·.line) = some line) : line ≠ 0 := by
    obtain ⟨step, last, rfl⟩ := Option.map_eq_some_iff.mp found
    exact placed step (Array.mem_toList_iff.mpr (Array.mem_of_back? last))
  cases halt with
  | mishap f =>
      have given : ((m.lastStep?.map (·.line)).getD 1) ≠ 0 := by
        cases found : m.lastStep?.map (·.line) with
        | none => simp
        | some line => exact last line found
      simp [errorOf, Error.IsPlaced, given]
  | error e =>
      cases given : e.line with
      | some line => simp [errorOf, Error.IsPlaced, Error.NamesZero, given]
      | none =>
          cases found : m.lastStep? with
          | none =>
              have empty : m.steps = #[] := by simpa [Machine.lastStep?] using found
              simp [errorOf, Error.IsPlaced, Error.NamesZero, given, found, empty]
          | some step =>
              have shown : m.steps ≠ #[] := by
                intro empty
                simp [Machine.lastStep?, empty] at found
              have far := last step.line (by rw [found]; rfl)
              simp [errorOf, Error.IsPlaced, Error.NamesZero, given, found, shown, far]

end Run

namespace Exec

variable {setup : Setup}

theorem emit_steps (setup : Setup) (occasion : Occasion) (m : Machine) :
    (machineOf (emit setup occasion m)).steps = m.steps := by
  simp only [emit]
  split <;> rfl

-- Forget the line 0.
def withoutZero : Halt → Halt
  | .error e => .error (if e.line = some 0 then { e with line := none } else e)
  | .mishap f => .mishap f

theorem withoutZero_eq_self {halt : Halt} (h : ∀ e, halt = .error e → ¬ e.NamesZero) :
    withoutZero halt = halt := by
  cases halt with
  | mishap f => rfl
  | error e =>
      have other : ¬ e.line = some 0 := h e rfl
      rw [withoutZero, if_neg other]

theorem not_namesZero_withoutZero {halt : Halt} {e : Error} (h : withoutZero halt = .error e) :
    ¬ e.NamesZero := by
  cases halt with
  | mishap f => contradiction
  | error given =>
      rw [withoutZero] at h
      cases h
      split
      · exact nofun
      · assumption

-- A halt with an error that brings the line 0.
def HaltsAtZero (x : Exec Unit) (m : Machine) : Prop :=
  Ends (fun halt _ => ∃ e, halt = .error e ∧ e.NamesZero) x m

-- Where the sink gives no error the line 0, what a line does gives none either.
theorem not_haltsAtZero_perform (fair : setup.NamesNoZero) (form : LineForm) (m : Machine) :
    ¬ HaltsAtZero (perform setup form) m := by
  have same_machine : Machine.Frame id := by constructor <;> intros <;> rfl
  have forgets : Halt.Frame withoutZero := by constructor <;> intros <;> rfl
  have writes (chunk : Text) : Follows id withoutZero (write setup chunk) (write setup chunk) := by
    intro n
    simp only [write, id]
    split
    · rfl
    · rename_i failure found
      have kept : withoutZero failure.halt = failure.halt := by
        refine withoutZero_eq_self fun e same => ?_
        unfold SinkFailure.halt at same
        split at same
        · rename_i own
          cases same
          exact fair.sink _ failure e found own
        · contradiction
      rw [mapResult, kept]
      rfl
  have same : perform setup form m = mapResult id withoutZero (perform setup form m) :=
    Follows.performWrite same_machine forgets writes form m
  rintro ⟨_, n, failed, e, rfl, zero⟩
  rw [failed, mapResult] at same
  injection same with same
  exact not_namesZero_withoutZero same.symm zero

end Exec

namespace Move

variable (setup : Setup)

-- The number of the line that a move belongs to.
def number? : Move → Option Int
  | emit occasion => occasion.line?.map (·.number)
  | act line => some line.number
  | refuse number .. => some number

theorem number?_of_mem_ofLine {raw : Text} {number : Int} {move : Move}
    (h : move ∈ ofLine raw number) : move.number? = some number := by
  obtain ⟨mistake, classified, moves⟩ | ⟨line, classified, blank, moves⟩ |
    ⟨line, classified, blank, moves⟩ := ofLine_cases raw number
  · rw [moves, List.mem_singleton] at h
    subst h
    rfl
  · rw [moves] at h
    contradiction
  · have placed := Line.classify_number classified
    rw [moves] at h
    simp only [List.mem_cons, List.not_mem_nil, or_false] at h
    obtain rfl | rfl | rfl := h <;> simp [number?, Occasion.line?, placed]

theorem number?_of_mem_ofLines {raws : List Text} {number : Int} {move : Move} (start : 0 < number)
    (h : move ∈ ofLines number raws) : ∀ n ∈ move.number?, n ≠ 0 := by
  induction raws generalizing number with
  | nil => contradiction
  | cons raw rest ih =>
      rw [ofLines, List.mem_append] at h
      obtain here | later := h
      · rw [number?_of_mem_ofLine here]
        rintro _ ⟨⟩
        omega
      · exact ih (by omega) later

-- No move belongs to the line 0.
theorem number?_of_mem_ofSource {source : Text} {move : Move} (h : move ∈ ofSource source) :
    ∀ n ∈ move.number?, n ≠ 0 := by
  rw [ofSource, List.mem_cons, List.mem_append, List.mem_singleton] at h
  obtain rfl | inside | rfl := h
  · simp [number?, Occasion.line?]
  · exact number?_of_mem_ofLines Int.zero_lt_one inside
  · simp [number?, Occasion.line?]

-- What a move logs: the number of its line, the rule and the statement.
def record? : Move → Option (Int × String × Text)
  | emit _ => none
  | act line => some (line.number, line.form.rule, line.text)
  | refuse number raw _ => some (number, Exec.syntaxRule, Text.trim raw)

/-- A move logs its line, even if it fails, and nothing else. -/
theorem run_steps (move : Move) (m : Machine) :
    (Exec.machineOf (move.run setup m)).steps =
      match move.record? with
      | none => m.steps
      | some (number, rule, statement) => (m.log setup number rule statement).steps := by
  cases move with
  | emit occasion =>
      cases found : occasion.line? with
      | none => simp [run, found, record?, Exec.emit_steps]
      | some line => simp [run, found, record?, Exec.machineOf_atLine, Exec.emit_steps]
  | act line =>
      rw [run, Exec.machineOf_atLine]
      exact (Exec.perform_beside setup line.form
        (m.log setup line.number line.form.rule line.text)).1
  | refuse number raw mistake => rfl

theorem log_stepsPlaced {m : Machine} (placed : m.StepsPlaced) {number : Int} (proper : number ≠ 0)
    (rule : String) (statement : Text) : (m.log setup number rule statement).StepsPlaced := by
  intro step member
  simp only [Machine.log, Array.toList_push, List.mem_append, List.mem_singleton] at member
  obtain before | rfl := member
  · exact placed step before
  · exact proper

theorem run_stepsPlaced {move : Move} (proper : ∀ n ∈ move.number?, n ≠ 0) {m : Machine}
    (placed : m.StepsPlaced) : (Exec.machineOf (move.run setup m)).StepsPlaced := by
  rw [Machine.StepsPlaced, run_steps]
  cases move with
  | emit occasion => exact placed
  | act line => exact log_stepsPlaced setup placed (proper _ rfl) line.form.rule line.text
  | refuse number raw mistake => exact log_stepsPlaced setup placed (proper _ rfl) _ _

theorem runAll_stepsPlaced {moves : List Move} (proper : ∀ move ∈ moves, ∀ n ∈ move.number?, n ≠ 0)
    {m : Machine} (placed : m.StepsPlaced) :
    (Exec.machineOf (runAll setup moves m)).StepsPlaced := by
  induction moves generalizing m with
  | nil => exact placed
  | cons move rest ih =>
      rw [List.forall_mem_cons] at proper
      have next := run_stepsPlaced setup proper.1 placed
      rw [runAll_cons, bind_eq]
      cases ran : move.run setup m with
      | error halt n =>
          rw [ran] at next
          exact next
      | ok _ n =>
          rw [ran] at next
          exact ih proper.2 next

end Move

namespace Exec

variable {setup : Setup}

theorem not_haltsAtZero_atLine {number : Int} (proper : number ≠ 0) {x : Exec Unit} {m : Machine}
    (h : ¬ HaltsAtZero x m) : ¬ HaltsAtZero (atLine number x) m := by
  rintro ⟨_, n, failed, e, rfl, zero⟩
  apply h
  simp only [atLine] at failed
  cases ran : x m with
  | ok a k =>
      rw [ran] at failed
      contradiction
  | error halt k =>
      rw [ran] at failed
      cases halt with
      | mishap f => cases failed
      | error own =>
          cases failed
          have given : own.line.getD number = 0 := by simpa [Error.NamesZero, Error.at] using zero
          cases found : own.line with
          | none =>
              rw [found] at given
              exact absurd given proper
          | some line =>
              rw [found] at given
              exact ⟨_, _, ran, own, rfl, by rw [Error.NamesZero, found]; exact congrArg some given⟩

theorem not_haltsAtZero_emit (fair : setup.NamesNoZero) (occasion : Occasion) (m : Machine) :
    ¬ HaltsAtZero (emit setup occasion) m := by
  rintro ⟨_, n, failed, e, rfl, zero⟩
  simp only [emit] at failed
  split at failed
  · contradiction
  · rename_i w ran
    cases failed
    exact fair.hooks _ _ ⟨e, w, ran, zero⟩

theorem not_haltsAtZero_program (fair : setup.NamesNoZero) (source : Text) (m : Machine) :
    ¬ HaltsAtZero (program setup source) m := by
  rw [← Move.runAll_ofSource]
  apply not_ends_forM
  intro move member m
  have proper := Move.number?_of_mem_ofSource member
  cases move with
  | emit occasion =>
      cases found : occasion.line? with
      | none =>
          simp only [Move.run, found]
          exact not_haltsAtZero_emit fair occasion m
      | some line =>
          simp only [Move.run, found]
          have placed : line.number ≠ 0 := proper _ (by simp [Move.number?, found])
          exact not_haltsAtZero_atLine placed (not_haltsAtZero_emit fair occasion m)
  | act line =>
      exact not_haltsAtZero_atLine (proper _ rfl) (not_haltsAtZero_perform fair line.form _)
  | refuse number raw mistake =>
      rintro ⟨_, n, failed, e, rfl, zero⟩
      cases failed
      exact proper number rfl (Option.some.inj zero)

end Exec

namespace Run

variable {setup : Setup} {source : Text}

-- An execution that ends early with an error that brings the line 0, or brings none and leaves no
-- step in the log.
def StopsNowhere (setup : Setup) (source : Text) (halted : Error) (m : Machine) : Prop :=
  Exec.program setup source Machine.initial = .error (.error halted) m
    ∧ (halted.NamesZero ∨ halted.line = none ∧ m.steps = #[])

theorem program_of_error {e : Error} (failed : (ofSource setup source).error = some e) :
    ∃ halt m, Exec.program setup source Machine.initial = .error halt m
      ∧ ofSource setup source = conclude setup (errorOf m halt) m := by
  cases ran : Exec.program setup source Machine.initial with
  | ok a m =>
      rw [ofSource, ran] at failed
      contradiction
  | error halt m => exact ⟨halt, m, rfl, by rw [ofSource, ran]⟩

theorem stepsPlaced_of_halted {halt : Halt} {m : Machine}
    (halted : Exec.program setup source Machine.initial = .error halt m) : m.StepsPlaced := by
  have proper : ∀ move ∈ Move.ofSource source, ∀ n ∈ move.number?, n ≠ 0 := by
    intro move member
    exact Move.number?_of_mem_ofSource member
  have start : Machine.initial.StepsPlaced := nofun
  have placed := Move.runAll_stepsPlaced setup proper start
  rwa [Move.runAll_ofSource, halted] at placed

-- An error has no line if the execution stops nowhere, and no hook that is told of it replaces it
-- by one that has a line.
theorem isPlaced_iff {e : Error} (failed : (ofSource setup source).error = some e) :
    e.IsPlaced ↔ ∀ halted m, StopsNowhere setup source halted m →
      Ends (fun halt _ => ∃ new, halt = .error new ∧ new.IsPlaced)
        (Exec.emit setup (.onError (errorOf m (.error halted)))) m := by
  obtain ⟨halt, m, halted, concluded⟩ := program_of_error failed
  rw [concluded] at failed
  rw [conclude_isPlaced failed, errorOf_isPlaced (stepsPlaced_of_halted halted)]
  constructor
  · rintro (proper | replaced) own n ⟨ran, nowhere⟩
    · rw [halted] at ran
      cases ran
      exact absurd ⟨own, rfl, nowhere⟩ proper
    · rw [halted] at ran
      cases ran
      exact replaced
  · intro replaced
    by_cases nowhere : ∃ own, halt = .error own ∧ (own.NamesZero ∨ own.line = none ∧ m.steps = #[])
    · obtain ⟨own, rfl, without⟩ := nowhere
      exact .inr (replaced own m ⟨halted, without⟩)
    · exact .inl nowhere

theorem conclude_steps (setup : Setup) (e : Error) (m : Machine) :
    (conclude setup e m).machine.steps = m.steps := by
  have kept := Exec.emit_steps setup (.onError e) m
  rw [conclude]
  split <;> rename_i ran <;> rw [ran] at kept <;> exact kept

-- A step in the log tells where an execution stopped.
theorem not_stopsNowhere (fair : setup.NamesNoZero) {halted : Error} {m : Machine}
    (logged : m.steps ≠ #[]) : ¬ StopsNowhere setup source halted m := by
  rintro ⟨ran, zero | ⟨-, empty⟩⟩
  · exact Exec.not_haltsAtZero_program fair source _ ⟨_, m, ran, halted, rfl, zero⟩
  · exact logged empty

-- A hook that fails at the start of a run.
def failingAtStart : Setup :=
  { plainSetup with hooks := [⟨.programStart, 0, [], fun _ _ => throw (.mishap ⟨[], ['x']⟩)⟩] }

end Run

end Snippet
