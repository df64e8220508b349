import Snippet.Proofs.Run.Placed

/-!
The log of a run, whatever hooks and sink do. Every line that is not blank is logged when it starts
to act or is refused, and that is behind the hooks of its first event. So where one of these fails,
the log ends with the line before, and a traceback shows the statement of that.
-/

set_option autoImplicit false

namespace Snippet

/-- Neither hooks nor the sink give a line to an error. -/
structure Setup.NamesNoLine (setup : Setup) : Prop where
  hooks : ∀ occasion w,
    ¬ Ends (fun e _ => e.line ≠ none) (Hook.emit setup.hooks setup.builtins occasion) w
  sink : ∀ received failure e, setup.sink received = some failure → failure.error = some e →
    e.line = none

-- Hooks that name no line one by one name none together.
theorem Hook.not_ends_emit {hooks : List Hook} {builtins : List Builtin} {occasion : Occasion}
    (each : ∀ hook ∈ hooks, ∀ w,
      ¬ Ends (fun halt _ => ∃ e, halt = .error e ∧ e.line ≠ none) (hook.act builtins occasion) w)
    (w : Workspace) : ¬ Ends (fun e _ => e.line ≠ none) (emit hooks builtins occasion) w := by
  rintro ⟨e, k, failed, own⟩
  rw [emit] at failed
  split at failed
  · contradiction
  · rename_i halt _ ran
    cases failed
    cases halt with
    | mishap f => exact own rfl
    | error e =>
        have among : ∀ hook ∈ ofEvent hooks occasion.event, hook ∈ hooks :=
          fun _ member => (List.mem_filter.mp member).1
        exact not_ends_forM (fun hook member => each hook (among hook member)) w
          ⟨_, _, ran, e, rfl, own⟩

/-- What an entry of the log tells of its line: the number, the rule and the statement. -/
def Step.record (step : Step) : Int × String × Text :=
  (step.line, step.rule, step.statement)

/-- What the log tells of lines that are all executed, or refused. -/
def lineRecords : Int → List Text → List (Int × String × Text)
  | _, [] => []
  | number, raw :: rest =>
      let here :=
        match Line.classify raw number with
        | .error _ => [(number, Exec.syntaxRule, Text.trim raw)]
        | .ok line =>
            match line.form with
            | .blank => []
            | _ => [(number, line.form.rule, line.text)]
      here ++ lineRecords (number + 1) rest

def Machine.records (m : Machine) : List (Int × String × Text) :=
  m.steps.toList.map Step.record

theorem Machine.records_log (setup : Setup) (line : Int) (rule : String) (statement : Text)
    (m : Machine) :
    (m.log setup line rule statement).records = m.records ++ [(line, rule, statement)] := by
  simp [records, log, Step.record]

theorem Machine.records_getLast? (m : Machine) :
    m.records.getLast? = m.lastStep?.map Step.record := by
  rw [records, List.getLast?_map, lastStep?, Array.getLast?_toList]

theorem lineRecords_cons (number : Int) (raw : Text) (rest : List Text) :
    lineRecords number (raw :: rest)
      = lineRecords number [raw] ++ lineRecords (number + 1) rest := by
  simp only [lineRecords, List.append_nil]

theorem number_of_mem_lineRecords {number : Int} {raw : Text} {record : Int × String × Text}
    (h : record ∈ lineRecords number [raw]) : record.1 = number := by
  simp only [lineRecords, List.append_nil] at h
  split at h
  · rw [List.mem_singleton.mp h]
  · split at h
    · contradiction
    · rw [List.mem_singleton.mp h]

theorem mem_lineRecords {number : Int} {raws : List Text} {record : Int × String × Text}
    (h : record ∈ lineRecords number raws) : record.1 < number + raws.length := by
  induction raws generalizing number with
  | nil => contradiction
  | cons raw rest ih =>
      rw [lineRecords_cons] at h
      simp only [List.length_cons]
      obtain here | later := List.mem_append.mp h
      · have := number_of_mem_lineRecords here
        omega
      · have := ih later
        omega

namespace Move

variable (setup : Setup)

def records (moves : List Move) : List (Int × String × Text) :=
  moves.filterMap record?

/-- Whether a move tells hooks of a line before it acts. -/
def isBefore : Move → Bool
  | emit (.beforeLine _) => true
  | _ => false

@[simp]
theorem records_append (first second : List Move) :
    records (first ++ second) = records first ++ records second :=
  List.filterMap_append

theorem records_ofLine (raw : Text) (number : Int) :
    records (ofLine raw number) = lineRecords number [raw] := by
  rw [lineRecords, lineRecords]
  obtain ⟨mistake, classified, moves⟩ | ⟨line, classified, blank, moves⟩ |
    ⟨line, classified, blank, moves⟩ := ofLine_cases raw number
  · simp [moves, classified, records, record?]
  · simp [moves, classified, blank, records]
  · have numbered := Line.classify_number classified
    simp [moves, classified, records, record?, List.filterMap_cons, numbered]

theorem records_ofLines (number : Int) (raws : List Text) :
    records (ofLines number raws) = lineRecords number raws := by
  induction raws generalizing number with
  | nil => rfl
  | cons raw rest ih =>
      rw [ofLines, records_append, ih, records_ofLine, lineRecords, lineRecords, lineRecords,
        List.append_nil]

/-- A move adds what it logs, even if it fails. -/
theorem run_records (move : Move) (m : Machine) :
    (Exec.machineOf (move.run setup m)).records = m.records ++ records [move] := by
  rw [Machine.records, run_steps]
  cases move with
  | emit occasion => exact (List.append_nil _).symm
  | act line => exact Machine.records_log setup line.number line.form.rule line.text m
  | refuse number raw mistake => exact Machine.records_log setup number _ _ m

/-- Moves that are made add what they log. -/
theorem runAll_records {moves : List Move} {m n : Machine} (ran : runAll setup moves m = .ok () n) :
    n.records = m.records ++ records moves := by
  induction moves generalizing m with
  | nil =>
      cases ran
      exact (List.append_nil _).symm
  | cons move rest ih =>
      have first := run_records setup move m
      rw [runAll_cons, bind_eq] at ran
      cases made : move.run setup m with
      | error halt k =>
          rw [made] at ran
          contradiction
      | ok _ k =>
          rw [made] at ran first
          rw [ih ran, show k.records = _ from first, List.append_assoc, ← records_append]
          rfl

variable {setup}

theorem StopsAt.records {moves made : List Move} {failing : Move} {halt : Halt} {m n : Machine}
    (h : StopsAt setup moves m made failing halt n) :
    n.records = m.records ++ Move.records (made ++ [failing]) := by
  obtain ⟨-, k, ran, halted⟩ := h
  have last := run_records setup failing k
  rw [halted] at last
  rw [show n.records = _ from last, runAll_records setup ran, List.append_assoc, records_append]

theorem StopsAt.runAll {moves made : List Move} {failing : Move} {halt : Halt} {m n : Machine}
    (h : StopsAt setup moves m made failing halt n) :
    Move.runAll setup moves m = .error halt n := by
  obtain ⟨⟨rest, rfl⟩, k, ran, halted⟩ := h
  rw [List.append_assoc, List.singleton_append, runAll_append, bind_eq, ran]
  dsimp only
  rw [runAll_cons, bind_eq, halted]

-- What a line has logged with each of its moves.
theorem ofLine_record {raw : Text} {number : Int} {here : List Move} {move : Move}
    (h : here ++ [move] <+: ofLine raw number) :
    ∃ rule statement, lineRecords number [raw] = [(number, rule, statement)] ∧
      Move.records (here ++ [move]) = if move.isBefore then [] else [(number, rule, statement)] := by
  rw [← records_ofLine]
  obtain ⟨mistake, classified, moves⟩ | ⟨line, classified, -, moves⟩ |
    ⟨line, classified, -, moves⟩ := ofLine_cases raw number
  · rw [moves] at h ⊢
    rcases here with _ | ⟨first, here⟩
    · obtain rfl : move = refuse number raw mistake := by simpa using h
      exact ⟨_, _, rfl, rfl⟩
    · simp at h
  · rw [moves] at h
    simp at h
  · have numbered := Line.classify_number classified
    rw [moves] at h ⊢
    refine ⟨line.form.rule, line.text, by rw [← numbered]; rfl, ?_⟩
    rw [← numbered]
    rcases here with _ | ⟨first, _ | ⟨second, _ | ⟨third, here⟩⟩⟩
    · obtain rfl : move = emit (.beforeLine line) := by simpa using h
      rfl
    · obtain ⟨rfl, rfl⟩ : first = emit (.beforeLine line) ∧ move = act line := by simpa using h
      rfl
    · obtain ⟨rfl, rfl, rfl⟩ : first = emit (.beforeLine line) ∧ second = act line ∧
          move = emit (.afterLine line) := by simpa using h
      rfl
    · simp at h

-- What a source text has logged with each move of its lines.
theorem ofSource_records {source : Text} {made : List Move} {move : Move} {n : Int}
    (h : made ++ [move] <+: ofSource source) (belongs : move.number? = some n) :
    ∃ before raw after rule statement, sourceLines source = before ++ raw :: after ∧
      n = 1 + before.length ∧ lineRecords n [raw] = [(n, rule, statement)] ∧
      Move.records (made ++ [move])
        = lineRecords 1 before ++ if move.isBefore then [] else [(n, rule, statement)] := by
  have inside : move ≠ emit .programStart ∧ move ≠ emit .programEnd := by
    constructor <;> (rintro rfl; contradiction)
  obtain ⟨before, raw, after, here, lines, rfl, place⟩ := ofSource_split h inside.1 inside.2
  have own := number?_of_mem_ofLine (place.mem (List.mem_append_right here List.mem_cons_self))
  obtain rfl : 1 + (before.length : Int) = n := by
    rw [belongs] at own
    exact (Option.some.inj own).symm
  obtain ⟨rule, statement, record, logged⟩ := ofLine_record place
  refine ⟨before, raw, after, rule, statement, lines, rfl, record, ?_⟩
  rw [← records_ofLines, ← logged, ← records_append, ← List.append_assoc]
  rfl

end Move

namespace Exec

variable {setup : Setup}

-- What a line fails with is an error without a line, or it has logged the line.
theorem errorOf_atLine {number : Int} {x : Exec Unit} {m n : Machine} {halt : Halt}
    (unplaced : ∀ e k, x m = .error (.error e) k → e.line = none)
    (logged : ∀ f k, x m = .error (.mishap f) k → k.lastStep?.map (·.line) = some number)
    (halted : atLine number x m = .error halt n) : (Run.errorOf n halt).line = some number := by
  rw [atLine] at halted
  cases ran : x m with
  | ok a k =>
      rw [ran] at halted
      contradiction
  | error inner k =>
      rw [ran] at halted
      cases inner with
      | error e =>
          cases halted
          simp [Run.errorOf, Error.at, unplaced e _ ran]
      | mishap f =>
          cases halted
          simp [Run.errorOf, logged f _ ran]

variable (lineless : setup.NamesNoLine)
include lineless

theorem emit_error {occasion : Occasion} {m n : Machine} {halt : Halt}
    (h : emit setup occasion m = .error halt n) : ∃ e, halt = .error e ∧ e.line = none := by
  simp only [emit] at h
  split at h
  · contradiction
  · rename_i e w ran
    cases h
    refine ⟨e, rfl, ?_⟩
    have unplaced := lineless.hooks occasion m.toWorkspace
    rw [ends_of_error ran] at unplaced
    exact Decidable.of_not_not unplaced

end Exec

namespace Move

variable {setup : Setup} (lineless : setup.NamesNoLine)
include lineless

/-- A move of a line that fails is reported at that line. -/
theorem errorOf_run_line {move : Move} {number : Int} (belongs : move.number? = some number)
    {halt : Halt} {m n : Machine} (halted : move.run setup m = .error halt n) :
    (Run.errorOf n halt).line = some number := by
  cases move with
  | emit occasion =>
      obtain ⟨line, found, rfl⟩ := Option.map_eq_some_iff.mp belongs
      rw [run, found] at halted
      refine Exec.errorOf_atLine (fun e k failed => ?_) (fun f k failed => ?_) halted
      · obtain ⟨_, ⟨⟩, unplaced⟩ := Exec.emit_error lineless failed
        exact unplaced
      · obtain ⟨_, ⟨⟩, -⟩ := Exec.emit_error lineless failed
  | act line =>
      cases belongs
      refine Exec.errorOf_atLine (fun e k failed => ?_) (fun f k failed => ?_) halted
      · exact Exec.perform_error_line lineless.sink failed
      · have steps := (Exec.perform_beside setup line.form
          (m.log setup line.number line.form.rule line.text)).1
        rw [show Exec.perform setup line.form _ = _ from failed] at steps
        simp [Machine.lastStep?, show k.steps = _ from steps, Machine.log]
  | refuse own raw mistake =>
      cases halted
      exact belongs

end Move

namespace Traceback

-- A verbose traceback shows the statement of the last step below the line of the error.
theorem text_verbose {setup : Setup} (verbose : setup.verbose = true) {m : Machine} {step : Step}
    (last : m.lastStep? = some step) (e : Error) :
    ∃ rest, text setup m e = "Traceback (most recent call last):\n".toList ++ location setup e
      ++ "\n    ".toList ++ step.statement ++ '\n' :: rest := by
  have first : lines setup m e = "Traceback (most recent call last):".toList :: location setup e
      :: ("    ".toList ++ step.statement) :: (lines setup m e).drop 3 := by
    cases snapshot : step.snapshot <;> simp [lines, verbose, last, stepLines, snapshot]
  have more : (lines setup m e).drop 3 ≠ [] := by
    cases snapshot : step.snapshot <;> simp [lines, verbose, last, stepLines, snapshot]
  refine ⟨Text.join ['\n'] ((lines setup m e).drop 3), ?_⟩
  rw [text, first, Text.join_cons _ _ (List.cons_ne_nil _ _),
    Text.join_cons _ _ (List.cons_ne_nil _ _), Text.join_cons _ _ more]
  simp

end Traceback

namespace Run

variable {setup : Setup}

theorem conclude_records (setup : Setup) (e : Error) (m : Machine) :
    (conclude setup e m).machine.records = m.records := by
  rw [Machine.records, conclude_steps, Machine.records]

-- Hooks that name no line leave an error at its line, also where they replace it.
theorem conclude_line (lineless : setup.NamesNoLine) {first e : Error} {m : Machine}
    (h : (conclude setup first m).error = some e) : e.line = first.line := by
  rw [conclude] at h
  split at h
  · cases h
    rfl
  · rename_i new n ran
    cases h
    obtain ⟨_, ⟨⟩, unplaced⟩ := Exec.emit_error lineless ran
    rw [replacing, unplaced]
  · cases h
    rfl

-- Fail before the second line.
def refuseSecond (occasion : Occasion) : Action Unit :=
  match occasion with
  | .beforeLine line => if line.number = 2 then throw (.mishap ⟨[], ['x']⟩) else pure ()
  | _ => pure ()

def failingBeforeSecond : Setup :=
  { plainSetup with verbose := true, hooks := [⟨.beforeLine, 0, [], fun _ => refuseSecond⟩] }

theorem failingBeforeSecond_namesNoLine : failingBeforeSecond.NamesNoLine where
  hooks := by
    refine fun occasion => Hook.not_ends_emit fun hook member w => ?_
    obtain rfl : hook = ⟨.beforeLine, 0, [], fun _ => refuseSecond⟩ := List.mem_singleton.mp member
    rintro ⟨_, k, failed, e, rfl, -⟩
    simp only [refuseSecond] at failed
    split at failed
    · split at failed <;> cases failed
    · cases failed
  sink := fun received _ _ failed => by
    rw [show failingBeforeSecond.sink received = none from plainSetup_quiet.sink received] at failed
    contradiction

end Run

end Snippet
