import Snippet.Proofs.Run.Append
import Snippet.Proofs.Run.Logged
import Snippet.Proofs.Run.Terse

/-!
The log as a record of a run without hooks. It has one entry for each line that the run gets to and
that is not blank, in order and numbered from zero. Taking snapshots changes nothing else.
-/

set_option autoImplicit false

namespace Snippet

-- The entries of a log are numbered from zero.
def Machine.Numbered (m : Machine) : Prop :=
  m.steps.toList.map (·.index) = List.range m.steps.size

theorem Machine.Numbered.log {m : Machine} (numbered : m.Numbered) (setup : Setup) (line : Int)
    (rule : String) (statement : Text) : (m.log setup line rule statement).Numbered := by
  rw [Numbered] at numbered ⊢
  simp [Machine.log, numbered, List.range_succ]

theorem Machine.Numbered.congr {m n : Machine} (numbered : m.Numbered) (same : n.steps = m.steps) :
    n.Numbered := by
  rwa [Numbered, same]

theorem Machine.started_numbered : Machine.started.Numbered :=
  rfl

theorem lineRecords_append (number : Int) (first second : List Text) :
    lineRecords number (first ++ second)
      = lineRecords number first ++ lineRecords (number + first.length) second := by
  induction first generalizing number with
  | nil => simp [lineRecords]
  | cons raw rest ih =>
      have later : number + 1 + (rest.length : Int) = number + ((raw :: rest).length : Nat) := by
        simp only [List.length_cons]
        omega
      rw [List.cons_append, lineRecords_cons, ih, later, lineRecords_cons number raw rest,
        List.append_assoc]

theorem le_of_mem_lineRecords {number : Int} {raws : List Text} {record : Int × String × Text}
    (h : record ∈ lineRecords number raws) : number ≤ record.1 := by
  induction raws generalizing number with
  | nil => contradiction
  | cons raw rest ih =>
      rw [lineRecords_cons] at h
      obtain here | later := List.mem_append.mp h
      · exact Int.le_of_eq (number_of_mem_lineRecords here).symm
      · have := ih later
        omega

/-- Records of lines have rising numbers. -/
theorem pairwise_lineRecords (number : Int) (raws : List Text) :
    (lineRecords number raws).Pairwise (·.1 < ·.1) := by
  induction raws generalizing number with
  | nil => exact .nil
  | cons raw rest ih =>
      have single : (lineRecords number [raw]).Pairwise (·.1 < ·.1) := by
        simp only [lineRecords]
        split
        · simp
        · split <;> simp
      rw [lineRecords_cons, List.pairwise_append]
      refine ⟨single, ih _, fun a here b later => ?_⟩
      have same := number_of_mem_lineRecords here
      have above := le_of_mem_lineRecords later
      omega

theorem Setup.Quiet.namesNoLine {setup : Setup} (quiet : setup.Quiet) : setup.NamesNoLine where
  hooks occasion := by
    rw [quiet.hooks]
    exact Hook.not_ends_emit fun hook member => by contradiction
  sink received failure e failed := by
    rw [quiet.sink] at failed
    contradiction

namespace Exec

variable {setup : Setup}

-- A line that is executed without failing is one.
theorem classify_of_line_ok {raw : Text} {number : Int} {m n : Machine}
    (ran : line setup raw number m = .ok () n) : ∃ l, Line.classify raw number = .ok l := by
  cases classified : Line.classify raw number with
  | ok l => exact ⟨l, rfl⟩
  | error mistake =>
      rw [line, classified] at ran
      contradiction

theorem classify_of_lines_ok {number : Int} {raws : List Text} {m n : Machine}
    (ran : lines setup number raws m = .ok () n) {i : Nat} {raw : Text}
    (at_ : raws[i]? = some raw) : ∃ l, Line.classify raw (number + i) = .ok l := by
  induction raws generalizing number i m with
  | nil => contradiction
  | cons first rest ih =>
      rw [lines, run_bind_eq_ok] at ran
      obtain ⟨⟨⟩, k, here, later⟩ := ran
      cases i with
      | zero =>
          obtain rfl : first = raw := by simpa using at_
          simpa using classify_of_line_ok here
      | succ i =>
          have next := ih later (i := i) (by simpa using at_)
          have place : number + 1 + (i : Int) = number + ((i + 1 : Nat) : Int) := by omega
          rwa [place] at next

section Hookless

variable (hookless : setup.hooks = [])
include hookless

theorem emit_ok (occasion : Occasion) (m : Machine) :
    ∃ n, (Move.emit occasion).run setup m = .ok () n ∧ n.steps = m.steps := by
  cases found : occasion.line? with
  | none =>
      refine ⟨{ m with occasions := m.occasions.push occasion }, ?_, rfl⟩
      simp only [Move.run, found, emit_eq hookless]
  | some line =>
      refine ⟨{ m with occasions := m.occasions.push occasion }, ?_, rfl⟩
      simp only [Move.run, found, atLine, emit_eq hookless]

/-- A line is logged, whether it fails or not. -/
theorem line_log (raw : Text) (number : Int) {m : Machine} (numbered : m.Numbered) :
    let n := machineOf (line setup raw number m)
    n.records = m.records ++ lineRecords number [raw] ∧ n.Numbered := by
  rw [← Move.runAll_ofLine, ← Move.records_ofLine]
  obtain ⟨mistake, -, moves⟩ | ⟨line, -, -, moves⟩ | ⟨line, -, -, moves⟩ :=
    Move.ofLine_cases raw number
  · rw [moves]
    exact ⟨Machine.records_log setup number _ _ m, numbered.log setup number _ _⟩
  · rw [moves]
    exact ⟨(List.append_nil _).symm, numbered⟩
  · obtain ⟨k, before, same⟩ := emit_ok hookless (.beforeLine line) m
    have logged := Move.run_records setup (.act line) k
    have steps := Move.run_steps setup (.act line) k
    have records : k.records = m.records := by rw [Machine.records, same, Machine.records]
    rw [moves, Move.runAll_cons, bind_eq, before]
    dsimp only
    rw [Move.runAll_cons, bind_eq]
    have counted : (machineOf ((Move.act line).run setup k)).Numbered :=
      ((numbered.congr same).log setup line.number line.form.rule line.text).congr steps
    rw [records] at logged
    cases acted : (Move.act line).run setup k with
    | error halt n =>
        rw [acted] at logged counted
        exact ⟨logged, counted⟩
    | ok _ n =>
        obtain ⟨last, after, same⟩ := emit_ok hookless (.afterLine line) n
        rw [acted] at logged counted
        dsimp only
        rw [Move.runAll_cons, bind_eq, after]
        refine ⟨?_, counted.congr same⟩
        show last.records = _
        rw [Machine.records, same]
        exact logged

/-- Lines are logged up to the first one that fails, and that one too. -/
theorem lines_log (number : Int) (raws : List Text) {m : Machine} (numbered : m.Numbered) :
    (∃ n, lines setup number raws m = .ok () n ∧
      n.records = m.records ++ lineRecords number raws ∧ n.Numbered) ∨
    ∃ before raw after k halt n, raws = before ++ raw :: after ∧
      lines setup number before m = .ok () k ∧
      line setup raw (number + before.length) k = .error halt n ∧
      lines setup number raws m = .error halt n ∧
      n.records = m.records ++ lineRecords number (before ++ [raw]) ∧ n.Numbered := by
  induction raws generalizing number m with
  | nil => exact .inl ⟨m, rfl, (List.append_nil _).symm, numbered⟩
  | cons first rest ih =>
      have logged := line_log hookless first number numbered
      cases here : line setup first number m with
      | error halt n =>
          rw [here] at logged
          refine .inr ⟨[], first, rest, m, halt, n, rfl, rfl, by simpa using here, ?_, logged⟩
          rw [lines, bind_eq, here]
      | ok _ k =>
          rw [here] at logged
          obtain ⟨records, counted⟩ := logged
          have next : lines setup number (first :: rest) m = lines setup (number + 1) rest k := by
            rw [lines, bind_eq, here]
          have whole (later : List Text) :
              k.records ++ lineRecords (number + 1) later
                = m.records ++ lineRecords number (first :: later) := by
            rw [show k.records = _ from records, List.append_assoc]
            exact congrArg (m.records ++ ·) (lineRecords_cons number first later).symm
          obtain ⟨n, ran, logged, counted⟩ |
            ⟨before, raw, after, j, halt, n, rfl, ran, halted, stopped, logged, counted⟩ :=
            ih (number + 1) counted
          · exact .inl ⟨n, next.trans ran, logged.trans (whole rest), counted⟩
          · have place : number + 1 + (before.length : Int)
                = number + ((first :: before).length : Nat) := by
              simp only [List.length_cons]
              omega
            rw [place] at halted
            refine .inr ⟨first :: before, raw, after, j, halt, n, rfl, ?_, halted,
              next.trans stopped, logged.trans (whole _), counted⟩
            rw [lines, bind_eq, here]
            exact ran

end Hookless

-- A line that fails does so with one of its moves.
theorem line_stops {raw : Text} {number : Int} {m n : Machine} {halt : Halt}
    (halted : line setup raw number m = .error halt n) :
    ∃ made failing, Move.StopsAt setup (Move.ofLine raw number) m made failing halt n := by
  rw [← Move.runAll_ofLine] at halted
  obtain ⟨k, ended, -⟩ | ⟨made, failing, halt, k, stopped, failed, -⟩ :=
    Move.runAll_occasions setup (Move.ofLine raw number) m
  · rw [ended] at halted
    contradiction
  · rw [failed] at halted
    cases halted
    exact ⟨made, failing, stopped⟩

/-- A line that fails is not blank. -/
theorem record_of_line_halted {raw : Text} {number : Int} {m n : Machine} {halt : Halt}
    (halted : line setup raw number m = .error halt n) :
    ∃ rule statement, lineRecords number [raw] = [(number, rule, statement)] := by
  obtain ⟨made, failing, stopped⟩ := line_stops halted
  obtain ⟨rule, statement, record, -⟩ := Move.ofLine_record stopped.place
  exact ⟨rule, statement, record⟩

theorem errorOf_line_halted (lineless : setup.NamesNoLine) {raw : Text} {number : Int}
    {m n : Machine} {halt : Halt} (halted : line setup raw number m = .error halt n) :
    (Run.errorOf n halt).line = some number := by
  obtain ⟨made, failing, stopped⟩ := line_stops halted
  have belongs := Move.number?_of_mem_ofLine
    (stopped.place.mem (List.mem_append_right made List.mem_cons_self))
  obtain ⟨k, -, failed⟩ := stopped.halted
  exact Move.errorOf_run_line lineless belongs failed

end Exec

namespace Run

variable {setup : Setup}

/-- The run of a setup without hooks is that of its lines. -/
theorem ofSource_hookless (hookless : setup.hooks = []) (source : Text) :
    ofSource setup source =
      match Exec.lines setup 1 (sourceLines source) Machine.started with
      | .ok () m => ⟨{ m with occasions := m.occasions.push .programEnd }, none⟩
      | .error halt m => conclude setup (errorOf m halt) m := by
  rw [ofSource, Exec.program, bind_eq, Exec.emit_eq hookless]
  show (match (Exec.lines setup 1 (sourceLines source) >>= fun _ => Exec.emit setup .programEnd)
    Machine.started with | .ok () m => _ | .error halt m => _) = _
  rw [bind_eq]
  cases Exec.lines setup 1 (sourceLines source) Machine.started with
  | ok _ m => simp only [Exec.emit_eq hookless]
  | error halt m => rfl

end Run

end Snippet
