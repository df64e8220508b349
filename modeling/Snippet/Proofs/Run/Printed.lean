import Mathlib.Data.List.Basic
import Snippet.Proofs.Run.Record

/-!
The output of a run, whatever hooks and sink do. Each print line that the run gets to and whose text
can be made writes it, once and to output and sink alike, and nothing else writes.
-/

set_option autoImplicit false

namespace Snippet

-- What is added to the output of a machine, and handed to the sink.
structure Machine.Wrote (m n : Machine) (chunks : List Text) : Prop where
  output : n.output.toList = m.output.toList ++ chunks
  received : n.received.toList = m.received.toList ++ chunks

namespace Machine.Wrote

variable {m n k : Machine} {first second : List Text}

theorem of_eq (output : n.output = m.output) (received : n.received = m.received) :
    m.Wrote n [] := by
  constructor
  · rw [output, List.append_nil]
  · rw [received, List.append_nil]

theorem refl (m : Machine) : m.Wrote m [] :=
  of_eq rfl rfl

theorem trans (h : m.Wrote n first) (next : n.Wrote k second) : m.Wrote k (first ++ second) := by
  constructor
  · rw [next.output, h.output, List.append_assoc]
  · rw [next.received, h.received, List.append_assoc]

end Machine.Wrote

namespace Print

/-- Arguments that say neither what parts the values of a print nor how its text ends. -/
def Usual (arguments : Text) : Prop :=
  ∀ args, Expr.readArguments arguments = .ok args →
    ∀ a ∈ args, a.1 ≠ some "sep".toList ∧ a.1 ≠ some "end".toList

/-- The values of arguments, shown with a blank between two of them. -/
def shown (arguments : Text) (env : Env) : Session Text := do
  let (args, _) ← Session.evaluateArguments env arguments
  return Text.join [' '] (← args.mapM Session.display)

end Print

namespace Evaluate

-- Values are bound to keywords of the arguments only.
theorem keywords_of_argumentsFrom {eval : Evaluator} {Q : Text → Prop} {args : List Value}
    {keywords : Bindings} {rest : List Argument} {s s' : Store} {given : List Value × Bindings}
    (ran : argumentsFrom eval args keywords rest s = .ok given s')
    (bound : ∀ b ∈ keywords, Q b.1) (each : ∀ a ∈ rest, ∀ k, a.1 = some k → Q k) :
    ∀ b ∈ given.2, Q b.1 := by
  induction rest generalizing args keywords s with
  | nil =>
      cases ran
      exact fun b member => bound b (List.mem_reverse.mp member)
  | cons a rest ih =>
      obtain ⟨keyword, e⟩ := a
      have later : ∀ a ∈ rest, ∀ k, a.1 = some k → Q k :=
        fun a member => each a (List.mem_cons_of_mem _ member)
      rw [argumentsFrom, run_bind_eq_ok] at ran
      obtain ⟨v, k, -, ran⟩ := ran
      cases keyword with
      | none => exact ih ran bound later
      | some name =>
          dsimp only at ran
          split at ran
          · cases ran
          · refine ih ran (fun b member => ?_) later
            rcases List.mem_cons.mp member with rfl | member
            · exact each _ List.mem_cons_self name rfl
            · exact bound b member

end Evaluate

namespace Session

theorem keywords_of_evaluateArguments {env : Env} {t : Text} {Q : Text → Prop} {s s' : Store}
    {given : List Value × Bindings} (ran : evaluateArguments env t s = .ok given s')
    (each : ∀ args, Expr.readArguments t = .ok args → ∀ a ∈ args, ∀ k, a.1 = some k → Q k) :
    ∀ b ∈ given.2, Q b.1 := by
  rw [evaluateArguments, guarded_eq_ok, run_bind_eq_ok] at ran
  obtain ⟨args, k, reads, ran⟩ := ran
  have read : Expr.readArguments t = .ok args := by
    cases found : Expr.readArguments t with
    | ok found_args =>
        rw [found] at reads
        cases reads
        rfl
    | error e =>
        rw [found] at reads
        cases e <;> cases reads
  exact Evaluate.keywords_of_argumentsFrom ran (fun b member => nomatch member) (each args read)

end Session

namespace Print

theorem option_usual {given : Bindings} {keyword : String}
    (absent : ∀ b ∈ given, b.1 ≠ keyword.toList) (usual : Text) :
    option given keyword usual = pure usual := by
  have missing : (given.find? fun b => b.1 == keyword.toList) = none := by
    simpa using absent
  rw [option, missing]

/-- The text of a usual print ends with a line break and is else that of its values. -/
theorem text_of_usual {arguments : Text} (usual : Usual arguments) {env : Env} {s s' : Store}
    {chunk : Text} (ran : text arguments env s = .ok chunk s') :
    ∃ t, shown arguments env s = .ok t s' ∧ chunk = t ++ ['\n'] := by
  rw [text, run_bind_eq_ok] at ran
  obtain ⟨⟨args, given⟩, k, evaluated, ran⟩ := ran
  have named := Session.keywords_of_evaluateArguments (Q := fun k =>
      k ≠ "sep".toList ∧ k ≠ "end".toList) evaluated fun args read a member k own => by
    have absent := usual args read a member
    simpa only [own, ne_eq, Option.some.injEq] using absent
  dsimp only at ran
  have valid : (given.find? fun b => !keywords.contains b.1) = none := by
    cases found : given.find? fun b => !keywords.contains b.1 with
    | none => rfl
    | some b =>
        rw [found] at ran
        cases ran
  rw [valid] at ran
  dsimp only at ran
  rw [option_usual (fun b member => (named b member).1),
    option_usual (fun b member => (named b member).2), pure_bind, pure_bind,
    run_bind_eq_ok] at ran
  obtain ⟨pieces, i, displayed, ran⟩ := ran
  cases ran
  refine ⟨Text.join [' '] pieces, ?_, rfl⟩
  rw [shown, bind_eq, evaluated]
  dsimp only
  rw [bind_eq, displayed]
  rfl

end Print

namespace Exec

variable {α β : Type} {setup : Setup}

-- What changes neither the output nor what the sink has received, even if it fails.
def Silent (x : Exec α) : Prop :=
  ∀ m : Machine, m.Wrote (machineOf (x m)) []

theorem wrote_bind {x : Exec α} {f : α → Exec β} {m : Machine} {first second : List Text}
    (wrote : m.Wrote (machineOf (x m)) first)
    (failed : ∀ h n, x m = .error h n → second = [])
    (next : ∀ a n, x m = .ok a n → n.Wrote (machineOf (f a n)) second) :
    m.Wrote (machineOf ((x >>= f) m)) (first ++ second) := by
  rw [bind_eq]
  cases ran : x m with
  | ok a n =>
      rw [ran] at wrote
      exact wrote.trans (next a n ran)
  | error h n =>
      rw [ran] at wrote
      rw [failed h n ran, List.append_nil]
      exact wrote

theorem Silent.pure (a : α) : Silent (pure a) :=
  Machine.Wrote.refl

theorem Silent.bind {x : Exec α} {f : α → Exec β} (first : Silent x) (next : ∀ a, Silent (f a)) :
    Silent (x >>= f) :=
  fun m => wrote_bind (first m) (fun _ _ _ => rfl) fun a n _ => next a n

theorem Silent.forM {f : α → Exec Unit} (each : ∀ a, Silent (f a)) (xs : List α) :
    Silent (xs.forM f) := by
  induction xs with
  | nil => exact .pure ()
  | cons a rest ih => exact (each a).bind fun _ => ih

theorem Silent.fail (c : Cause) : Silent (fail c : Exec α) :=
  Machine.Wrote.refl

theorem Silent.set (name : Text) (v : Value) : Silent (set name v) :=
  fun _ => .of_eq rfl rfl

theorem Silent.attempt (f : Env → Session α) : Silent (attempt setup f) := by
  intro m
  rw [Exec.attempt]
  split <;> exact .of_eq rfl rfl

theorem Silent.emit (occasion : Occasion) : Silent (emit setup occasion) := by
  intro m
  simp only [Exec.emit]
  split <;> exact .of_eq rfl rfl

theorem Silent.assign (targets : List Text) (expression : Text) (op : Option BinaryOp) :
    Silent (assign setup targets expression op) := by
  refine (Silent.attempt _).bind fun first => ?_
  have bound (values : List Value) :
      Silent ((targets.zip values).forM fun (p : Text × Value) => Exec.set p.1 p.2) :=
    .forM (fun p : Text × Value => .set p.1 p.2) _
  cases first with
  | ok values => exact bound values
  | error _ =>
      refine (Silent.attempt _).bind fun second => ?_
      cases second with
      | ok values => exact bound values
      | error c => exact (Silent.fail c).bind bound

/-- A chunk that is written is in the output and has been received, also if the sink fails. -/
theorem write_wrote (chunk : Text) (m : Machine) :
    m.Wrote (machineOf (write setup chunk m)) [chunk] := by
  simp only [write]
  split <;> exact ⟨Array.toList_push, Array.toList_push⟩

-- What a form of a line writes: the text of a print, if it can be made.
def chunk? (setup : Setup) (m : Machine) : LineForm → Option Text
  | .print arguments =>
      match Print.text arguments (m.env setup) m.store with
      | .ok chunk _ => some chunk
      | .error .. => none
  | _ => none

theorem print_wrote (arguments : Text) (m : Machine) :
    m.Wrote (machineOf (print setup arguments m)) (chunk? setup m (.print arguments)).toList := by
  rw [← List.nil_append (Option.toList _)]
  refine wrote_bind (Silent.attempt _ m) (fun h n failed => ?_) fun result n tried => ?_
  · rw [attempt] at failed
    rw [chunk?]
    cases made : Print.text arguments (m.env setup) m.store with
    | ok chunk s =>
        rw [made] at failed
        cases failed
    | error stop s => rfl
  · rw [attempt] at tried
    rw [chunk?]
    cases made : Print.text arguments (m.env setup) m.store with
    | ok chunk s =>
        rw [made] at tried
        cases tried
        exact write_wrote chunk _
    | error stop s =>
        rw [made] at tried
        cases stop <;> cases tried
        exact Silent.fail _ _

/-- Only a print writes. -/
theorem perform_wrote (form : LineForm) (m : Machine) :
    m.Wrote (machineOf (perform setup form m)) (chunk? setup m form).toList := by
  cases form with
  | print arguments => exact print_wrote arguments m
  | blank | header | flow => exact Silent.pure () m
  | raise kind => exact Silent.fail _ m
  | assignment targets expression op => exact Silent.assign targets expression op m
  | itemAssignment target expression =>
      exact (Silent.attempt _).bind (fun _ => .pure ()) m
  | expression source =>
      refine (Silent.attempt _).bind (fun result => ?_) m
      cases result with
      | ok v => exact .pure ()
      | error c => exact .fail _

theorem atLine_eq_ok {number : Int} {x : Exec α} {m n : Machine} {a : α} :
    atLine number x m = .ok a n ↔ x m = .ok a n := by
  rw [atLine]
  cases x m with
  | ok b k => rfl
  | error halt k => cases halt <;> simp

end Exec

namespace Move

variable (setup : Setup)

-- What a move prints, and the line that it belongs to.
def printed (m : Machine) : Move → List (Int × Text)
  | act line => ((Exec.chunk? setup m line.form).map (line.number, ·)).toList
  | emit _ | refuse .. => []

/-- What moves print up to the first that fails. -/
def printedAll : Machine → List Move → List (Int × Text)
  | _, [] => []
  | m, move :: rest =>
      printed setup m move ++
        match move.run setup m with
        | .ok _ k => printedAll k rest
        | .error .. => []

/-- A move writes what it prints, even if it fails. -/
theorem run_wrote (move : Move) (m : Machine) :
    m.Wrote (Exec.machineOf (move.run setup m)) ((printed setup m move).map (·.2)) := by
  cases move with
  | emit occasion =>
      have silent := @Exec.Silent.emit setup occasion m
      cases found : occasion.line? with
      | none => simpa [run, found, printed] using silent
      | some line => simpa [run, found, printed, Exec.machineOf_atLine] using silent
  | act line =>
      have logged : m.Wrote (m.log setup line.number line.form.rule line.text) [] := .of_eq rfl rfl
      have wrote := logged.trans (@Exec.perform_wrote setup line.form _)
      have chunks : (printed setup m (act line)).map (·.2)
          = (Exec.chunk? setup m line.form).toList := by
        rw [printed]
        cases Exec.chunk? setup m line.form <;> rfl
      rw [run, Exec.machineOf_atLine, chunks]
      exact wrote
  | refuse number raw mistake => exact .of_eq rfl rfl

/-- Moves write what they print. -/
theorem runAll_wrote (moves : List Move) (m : Machine) :
    m.Wrote (Exec.machineOf (runAll setup moves m)) ((printedAll setup m moves).map (·.2)) := by
  induction moves generalizing m with
  | nil => exact .refl m
  | cons move rest ih =>
      rw [runAll_cons, printedAll, List.map_append]
      refine Exec.wrote_bind (run_wrote setup move m) (fun h n failed => ?_) fun _ k ran => ?_
      · rw [failed]
        rfl
      · rw [ran]
        exact ih k

/-- What is printed is printed by one of the moves that are made. -/
theorem mem_printedAll {moves : List Move} {m : Machine} {entry : Int × Text} :
    entry ∈ printedAll setup m moves ↔ ∃ made move k, made ++ [move] <+: moves ∧
      runAll setup made m = .ok () k ∧ entry ∈ printed setup k move := by
  induction moves generalizing m with
  | nil => simp [printedAll]
  | cons first rest ih =>
      rw [printedAll, List.mem_append]
      constructor
      · rintro (here | later)
        · exact ⟨[], first, m, ⟨rest, rfl⟩, rfl, here⟩
        · split at later
          · rename_i k ran
            obtain ⟨made, move, j, place, made_all, printed⟩ := ih.mp later
            refine ⟨first :: made, move, j, (List.prefix_cons_inj first).mpr place, ?_, printed⟩
            rw [runAll_cons, bind_eq, ran]
            exact made_all
          · contradiction
      · rintro ⟨_ | ⟨before, made⟩, move, j, place, made_all, printed⟩
        · obtain rfl : move = first := by simpa using place
          cases made_all
          exact .inl printed
        · rw [List.cons_append] at place
          obtain ⟨rfl, later⟩ := List.cons_prefix_cons.mp place
          rw [runAll_cons, run_bind_eq_ok] at made_all
          obtain ⟨_, k, ran, made_all⟩ := made_all
          rw [ran]
          exact .inr (ih.mpr ⟨made, move, j, later, made_all, printed⟩)

theorem printed_sublist (move : Move) (m : Machine) :
    ((printed setup m move).map (·.1)).Sublist ((records [move]).map (·.1)) := by
  cases move with
  | emit occasion => exact List.nil_sublist _
  | refuse number raw mistake => exact List.nil_sublist _
  | act line =>
      rw [printed]
      cases Exec.chunk? setup m line.form with
      | none => exact List.nil_sublist _
      | some chunk => exact .refl [line.number]

-- The lines that print come in the order of the log.
theorem printedAll_sublist (moves : List Move) (m : Machine) :
    ((printedAll setup m moves).map (·.1)).Sublist ((records moves).map (·.1)) := by
  induction moves generalizing m with
  | nil => exact .refl []
  | cons move rest ih =>
      have split : records (move :: rest) = records [move] ++ records rest :=
        records_append [move] rest
      rw [printedAll, split, List.map_append, List.map_append]
      refine (printed_sublist setup move m).append ?_
      split
      · exact ih _
      · exact List.nil_sublist _

theorem records_ofSource (source : Text) :
    records (ofSource source) = lineRecords 1 (sourceLines source) := by
  rw [← records_ofLines]
  exact (records_append (ofLines 1 (sourceLines source)) [emit .programEnd]).trans
    (List.append_nil _)

theorem ofLines_append (number : Int) (first second : List Text) :
    ofLines number (first ++ second)
      = ofLines number first ++ ofLines (number + first.length) second := by
  induction first generalizing number with
  | nil => simp [ofLines]
  | cons raw rest ih =>
      have later : number + 1 + (rest.length : Int) = number + ((raw :: rest).length : Nat) := by
        simp only [List.length_cons]
        omega
      rw [List.cons_append, ofLines, ih, later, ofLines, List.append_assoc]

end Move

/-- A run gets to a print line: the lines before it have been executed, and hooks have been told of
it. -/
def Run.GetsTo (setup : Setup) (source : Text) (number : Int) (arguments : Text) (k : Machine) :
    Prop :=
  ∃ before raw after line, sourceLines source = before ++ raw :: after ∧
    number = 1 + before.length ∧ Line.classify raw number = .ok line ∧
    line.form = .print arguments ∧
    (do Exec.emit setup .programStart
        Exec.lines setup 1 before
        Exec.emit setup (.beforeLine line)) Machine.initial = .ok () k

/-- A print line that the run gets to and whose text can be made. -/
def Run.Prints (setup : Setup) (source : Text) (number : Int) (chunk : Text) : Prop :=
  ∃ arguments k s, GetsTo setup source number arguments k ∧
    Print.text arguments (k.env setup) k.store = .ok chunk s

/-- A print line that the run gets to and whose values can be shown. -/
def Run.Shows (setup : Setup) (source : Text) (number : Int) (t : Text) : Prop :=
  ∃ arguments k s, GetsTo setup source number arguments k ∧
    Print.shown arguments (k.env setup) k.store = .ok t s

namespace Run

variable {setup : Setup} {source : Text}

-- The moves up to the one that prints.
theorem getsTo_iff {number : Int} {arguments : Text} {k : Machine} :
    GetsTo setup source number arguments k ↔ ∃ made line,
      made ++ [.act line] <+: Move.ofSource source ∧
      Move.runAll setup made Machine.initial = .ok () k ∧
      line.number = number ∧ line.form = .print arguments := by
  have announced (before : List Text) (line : Line) :
      Move.runAll setup (.emit .programStart :: (Move.ofLines 1 before
          ++ [.emit (.beforeLine line)])) Machine.initial = .ok () k ↔
        (do Exec.emit setup .programStart
            Exec.lines setup 1 before
            Exec.emit setup (.beforeLine line)) Machine.initial = .ok () k := by
    have single : Move.runAll setup [.emit (.beforeLine line)]
        = Exec.atLine line.number (Exec.emit setup (.beforeLine line)) :=
      bind_pure_unit
    rw [Move.runAll_cons, Move.runAll_append, Move.runAll_ofLines, single]
    simp only [run_bind_eq_ok, Move.run, Occasion.line?, Exec.atLine_eq_ok]
  constructor
  · rintro ⟨before, raw, after, line, lines, rfl, classified, form, ran⟩
    have own : Move.ofLine raw (1 + before.length)
        = [.emit (.beforeLine line), .act line, .emit (.afterLine line)] := by
      simp only [Move.ofLine, classified, form]
    refine ⟨_, line, ?_, (announced before line).mpr ran, Line.classify_number classified, form⟩
    rw [Move.ofSource, lines, Move.ofLines_append, Move.ofLines, own]
    exact ⟨.emit (.afterLine line) :: Move.ofLines (1 + before.length + 1) after
      ++ [.emit .programEnd], by simp⟩
  · rintro ⟨made, line, place, ran, rfl, form⟩
    obtain ⟨before, raw, after, here, lines, rfl, inside⟩ := Move.ofSource_split place (by simp) (by simp)
    obtain ⟨mistake, -, -, other⟩ | ⟨_, classified, rfl, same⟩ := Move.ofLine_split inside rfl
    · cases other
    · cases same
      have own := Line.classify_number classified
      exact ⟨before, raw, after, line, lines, own, own ▸ classified, form,
        (announced before line).mp ran⟩

/-- What the moves of a source text print are the chunks of its print lines. -/
theorem mem_printedAll_ofSource {number : Int} {chunk : Text} :
    (number, chunk) ∈ Move.printedAll setup Machine.initial (Move.ofSource source) ↔
      Prints setup source number chunk := by
  rw [Move.mem_printedAll]
  constructor
  · rintro ⟨made, move, k, place, ran, printed⟩
    cases move with
    | emit occasion => contradiction
    | refuse number raw mistake => contradiction
    | act line =>
        rw [Move.printed, Option.mem_toList, Option.map_eq_some_iff] at printed
        obtain ⟨_, wrote, same⟩ := printed
        cases same
        rw [Exec.chunk?.eq_def] at wrote
        split at wrote
        · rename_i arguments form
          split at wrote
          · rename_i s made_text
            cases wrote
            exact ⟨arguments, k, s, getsTo_iff.mpr ⟨made, line, place, ran, rfl, form⟩, made_text⟩
          · contradiction
        · contradiction
  · rintro ⟨arguments, k, s, reached, made_text⟩
    obtain ⟨made, line, place, ran, rfl, form⟩ := getsTo_iff.mp reached
    refine ⟨made, .act line, k, place, ran, ?_⟩
    simp [Move.printed, Exec.chunk?, form, made_text]

theorem conclude_wrote (setup : Setup) (e : Error) (m : Machine) :
    m.Wrote (conclude setup e m).machine [] := by
  have silent := @Exec.Silent.emit setup (.onError e) m
  rw [conclude]
  split <;> rename_i ran <;> rw [ran] at silent <;> exact silent

theorem ofSource_wrote (setup : Setup) (source : Text) :
    Machine.initial.Wrote (ofSource setup source).machine
      ((Move.printedAll setup Machine.initial (Move.ofSource source)).map (·.2)) := by
  have wrote := Move.runAll_wrote setup (Move.ofSource source) Machine.initial
  cases ran : Move.runAll setup (Move.ofSource source) Machine.initial with
  | ok _ n =>
      rw [ran] at wrote
      rw [ofSource_of_ended ran]
      exact wrote
  | error halt n =>
      rw [ran] at wrote
      rw [ofSource_of_failed ran]
      simpa using wrote.trans (conclude_wrote setup (errorOf n halt) n)

end Run

theorem Machine.stdout_cases (m : Machine) :
    m.output.toList.flatten = m.stdout ++ ['\n'] ∨
      m.output.toList.flatten = m.stdout ∧ m.stdout.getLast? ≠ some '\n' := by
  simp only [stdout]
  split
  · rename_i last
    exact .inl (List.dropLast_append_getLast? _ (by simpa using last)).symm
  · rename_i last
    exact .inr ⟨rfl, by simpa using last⟩

theorem Text.flatten_map_append (sep : Text) {pieces : List Text} (h : pieces ≠ []) :
    (pieces.map (· ++ sep)).flatten = Text.join sep pieces ++ sep := by
  induction pieces with
  | nil => contradiction
  | cons piece rest ih =>
      cases rest with
      | nil => simp [Text.join]
      | cons next rest =>
          rw [List.map_cons, List.flatten_cons, ih (List.cons_ne_nil _ _),
            Text.join_cons _ _ (List.cons_ne_nil _ _), List.append_assoc _ _ sep]

-- Chunks that all end with a line break show as texts on lines of their own.
theorem Machine.stdout_of_lines {m : Machine} {texts : List Text}
    (output : m.output.toList = texts.map (· ++ ['\n'])) : m.stdout = Text.join ['\n'] texts := by
  cases texts with
  | nil => simp [stdout, output, Text.join]
  | cons first rest =>
      have whole := Text.flatten_map_append ['\n'] (List.cons_ne_nil first rest)
      simp only [stdout, output, whole, List.getLast?_concat, List.dropLast_concat, beq_self_eq_true,
        if_true]

namespace Run

end Run

end Snippet
