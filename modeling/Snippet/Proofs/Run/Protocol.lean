import Snippet.Proofs.Run.Frame
import Snippet.Run.Traceback

/-!
The events of a run, whatever hooks and sink do. A run is a sequence of moves: events that are
emitted, lines that act, and lines that cannot be read. It goes on as long as its moves succeed;
hooks are told of the first one that fails, and of nothing behind that.
-/

set_option autoImplicit false

namespace Snippet

/-- One move of a run. -/
inductive Move where
  | emit (occasion : Occasion)
  | act (line : Line)
  | refuse (number : Int) (raw : Text) (mistake : Malformed)

namespace Move

def run (setup : Setup) : Move → Exec Unit
  | emit occasion =>
      match occasion.line? with
      | some line => Exec.atLine line.number (Exec.emit setup occasion)
      | none => Exec.emit setup occasion
  | act line =>
      Exec.atLine line.number do
        Exec.log setup line.number line.form.rule line.text
        Exec.perform setup line.form
  | refuse number raw mistake => do
      Exec.log setup number Exec.syntaxRule (Text.trim raw)
      throw (.error ⟨.malformed mistake, some number⟩)

def runAll (setup : Setup) (moves : List Move) : Exec Unit :=
  moves.forM (run setup)

def emission? : Move → Option Occasion
  | emit occasion => some occasion
  | act _ | refuse .. => none

def emissions (moves : List Move) : List Occasion :=
  moves.filterMap emission?

def ofLine (raw : Text) (number : Int) : List Move :=
  match Line.classify raw number with
  | .error mistake => [refuse number raw mistake]
  | .ok line =>
      match line.form with
      | .blank => []
      | _ => [emit (.beforeLine line), act line, emit (.afterLine line)]

def ofLines : Int → List Text → List Move
  | _, [] => []
  | number, raw :: rest => ofLine raw number ++ ofLines (number + 1) rest

def ofSource (source : Text) : List Move :=
  emit .programStart :: (ofLines 1 (sourceLines source) ++ [emit .programEnd])

/-- Some moves are made, and the next one fails. -/
structure StopsAt (setup : Setup) (moves : List Move) (m : Machine) (made : List Move)
    (failing : Move) (halt : Halt) (n : Machine) : Prop where
  place : made ++ [failing] <+: moves
  halted : ∃ k, runAll setup made m = .ok () k ∧ failing.run setup k = .error halt n

end Move

/-- The events of lines: one before and one after each line that is not blank. -/
def lineOccasions : Int → List Text → List Occasion
  | _, [] => []
  | number, raw :: rest =>
      let here :=
        match Line.classify raw number with
        | .error _ => []
        | .ok line =>
            match line.form with
            | .blank => []
            | _ => [.beforeLine line, .afterLine line]
      here ++ lineOccasions (number + 1) rest

/-- All events of a source text that runs to its end. -/
def protocol (source : Text) : List Occasion :=
  .programStart :: (lineOccasions 1 (sourceLines source) ++ [.programEnd])

theorem protocol_ne_onError {source : Text} {occasion : Occasion} (h : occasion ∈ protocol source) :
    occasion.event ≠ .onError := by
  have ofLines (number : Int) (raws : List Text) :
      ∀ o ∈ lineOccasions number raws, o.event ≠ .onError := by
    induction raws generalizing number with
    | nil => exact nofun
    | cons raw rest ih =>
        intro o member
        rw [lineOccasions] at member
        rcases List.mem_append.mp member with here | later
        · split at here
          · cases here
          · split at here
            · cases here
            · rcases here with _ | ⟨_, _ | ⟨_, ⟨⟩⟩⟩ <;> exact nofun
        · exact ih _ o later
  rcases List.mem_cons.mp h with rfl | h
  · exact nofun
  · rcases List.mem_append.mp h with inside | last
    · exact ofLines _ _ occasion inside
    · rw [List.mem_singleton.mp last]
      exact nofun

namespace Move

@[simp]
theorem emissions_nil : emissions [] = [] :=
  rfl

@[simp]
theorem emissions_emit (occasion : Occasion) (moves : List Move) :
    emissions (emit occasion :: moves) = occasion :: emissions moves :=
  rfl

@[simp]
theorem emissions_act (line : Line) (moves : List Move) :
    emissions (act line :: moves) = emissions moves :=
  rfl

@[simp]
theorem emissions_refuse (number : Int) (raw : Text) (mistake : Malformed) (moves : List Move) :
    emissions (refuse number raw mistake :: moves) = emissions moves :=
  rfl

@[simp]
theorem emissions_append (first second : List Move) :
    emissions (first ++ second) = emissions first ++ emissions second :=
  List.filterMap_append

-- A line is refused, skipped, or acts between its two events.
theorem ofLine_cases (raw : Text) (number : Int) :
    (∃ mistake, Line.classify raw number = .error mistake ∧
      ofLine raw number = [refuse number raw mistake]) ∨
    (∃ line, Line.classify raw number = .ok line ∧ line.form = .blank ∧ ofLine raw number = []) ∨
    ∃ line, Line.classify raw number = .ok line ∧ line.form ≠ .blank ∧
      ofLine raw number = [emit (.beforeLine line), act line, emit (.afterLine line)] := by
  unfold ofLine
  cases Line.classify raw number with
  | error mistake => exact .inl ⟨mistake, rfl, rfl⟩
  | ok line =>
      by_cases blank : line.form = .blank
      · exact .inr (.inl ⟨line, rfl, blank, by simp [blank]⟩)
      · exact .inr (.inr ⟨line, rfl, blank, by simp⟩)

theorem emissions_ofLines (number : Int) (raws : List Text) :
    emissions (ofLines number raws) = lineOccasions number raws := by
  induction raws generalizing number with
  | nil => rfl
  | cons raw rest ih =>
      rw [ofLines, lineOccasions, emissions_append, ih]
      obtain ⟨mistake, classified, moves⟩ | ⟨line, classified, blank, moves⟩ |
        ⟨line, classified, blank, moves⟩ := ofLine_cases raw number
      · simp [moves, classified]
      · simp [moves, classified, blank]
      · simp [moves, classified]

theorem emissions_ofSource (source : Text) : emissions (ofSource source) = protocol source := by
  rw [protocol, ← emissions_ofLines]
  simp [ofSource]

-- A move of some lines is a move of one of them; those before it have made all of theirs.
theorem ofLines_split {number : Int} {raws : List Text} {made : List Move} {move : Move}
    (h : made ++ [move] <+: ofLines number raws) :
    ∃ before raw after here, raws = before ++ raw :: after ∧
      made = ofLines number before ++ here ∧
      here ++ [move] <+: ofLine raw (number + before.length) := by
  induction raws generalizing number made with
  | nil => simp [ofLines] at h
  | cons raw rest ih =>
      have first (here : made ++ [move] <+: ofLine raw number) :
          ∃ before raw' after here, raw :: rest = before ++ raw' :: after ∧
            made = ofLines number before ++ here ∧
            here ++ [move] <+: ofLine raw' (number + before.length) :=
        ⟨[], raw, rest, made, rfl, rfl, by simpa using here⟩
      obtain ⟨later, whole⟩ := h
      rw [ofLines] at whole
      rcases List.append_eq_append_iff.mp whole with ⟨remaining, here, -⟩ | ⟨beyond, passed, behind⟩
      · exact first ⟨remaining, here.symm⟩
      · rcases List.eq_nil_or_concat beyond with rfl | ⟨inner, last, rfl⟩
        · exact first ⟨[], by simpa using passed⟩
        · rw [List.concat_eq_append] at passed behind
          rw [← List.append_assoc] at passed
          obtain ⟨rfl, same⟩ := List.append_inj' passed rfl
          cases same
          obtain ⟨before, raw', after, here, rfl, rfl, inside⟩ := ih ⟨later, behind.symm⟩
          refine ⟨raw :: before, raw', after, here, rfl, by simp [ofLines], ?_⟩
          have numbered : number + ((raw :: before).length : Int)
              = number + 1 + (before.length : Int) := by
            simp only [List.length_cons]
            omega
          rw [numbered]
          exact inside

-- The same for a whole source text and the moves that belong to its lines.
theorem ofSource_split {source : Text} {made : List Move} {move : Move}
    (h : made ++ [move] <+: ofSource source) (start : move ≠ emit .programStart)
    (end_ : move ≠ emit .programEnd) :
    ∃ before raw after here, sourceLines source = before ++ raw :: after ∧
      made = emit .programStart :: (ofLines 1 before ++ here) ∧
      here ++ [move] <+: ofLine raw (1 + before.length) := by
  cases made with
  | nil => exact absurd (by simpa [ofSource] using h) start
  | cons first made =>
      obtain ⟨rfl, inside⟩ := List.cons_prefix_cons.mp h
      rcases List.prefix_concat_iff.mp inside with whole | within
      · obtain ⟨-, same⟩ := List.append_inj' whole rfl
        exact absurd (List.cons.inj same).1 end_
      · obtain ⟨before, raw, after, here, lines, rfl, place⟩ := ofLines_split within
        exact ⟨before, raw, after, here, lines, rfl, place⟩

-- What has been done for a line when its act comes, or its refusal.
theorem ofLine_split {raw : Text} {number : Int} {here : List Move} {move : Move}
    (h : here ++ [move] <+: ofLine raw number) (silent : move.emission? = none) :
    (∃ mistake, Line.classify raw number = .error mistake ∧ here = [] ∧
      move = refuse number raw mistake) ∨
    ∃ line, Line.classify raw number = .ok line ∧ here = [emit (.beforeLine line)] ∧
      move = act line := by
  obtain ⟨mistake, classified, moves⟩ | ⟨line, classified, -, moves⟩ |
    ⟨line, classified, -, moves⟩ := ofLine_cases raw number
  · left
    rw [moves] at h
    rcases here with _ | ⟨first, here⟩
    · exact ⟨mistake, classified, rfl, by simpa using h⟩
    · simp at h
  · rw [moves] at h
    simp at h
  · right
    rw [moves] at h
    rcases here with _ | ⟨first, _ | ⟨second, _ | ⟨third, here⟩⟩⟩
    · obtain rfl : move = emit (.beforeLine line) := by simpa using h
      cases silent
    · obtain ⟨rfl, rfl⟩ : first = emit (.beforeLine line) ∧ move = act line := by simpa using h
      exact ⟨line, classified, rfl, rfl⟩
    · obtain ⟨-, -, rfl⟩ : first = emit (.beforeLine line) ∧ second = act line ∧
          move = emit (.afterLine line) := by simpa using h
      cases silent
    · simp at h

-- A line that is refused has no event.
theorem refuse_place {source : Text} {made : List Move} {number : Int} {raw : Text}
    {mistake : Malformed} (h : made ++ [refuse number raw mistake] <+: ofSource source) :
    ∃ before after, sourceLines source = before ++ raw :: after ∧
      number = 1 + before.length ∧ Line.classify raw number = .error mistake ∧
      emissions made = .programStart :: lineOccasions 1 before := by
  obtain ⟨before, raw', after, here, lines, rfl, inside⟩ := ofSource_split h nofun nofun
  obtain ⟨mistake', classified, rfl, same⟩ | ⟨line, -, -, other⟩ := ofLine_split inside rfl
  · cases same
    exact ⟨before, after, lines, rfl, classified, by simp [emissions_ofLines]⟩
  · cases other

-- A line that acts has had its first event, and not its second.
theorem act_place {source : Text} {made : List Move} {line : Line}
    (h : made ++ [act line] <+: ofSource source) :
    ∃ before raw after, sourceLines source = before ++ raw :: after ∧
      Line.classify raw (1 + before.length) = .ok line ∧
      emissions made = .programStart :: (lineOccasions 1 before ++ [.beforeLine line]) := by
  obtain ⟨before, raw, after, here, lines, rfl, inside⟩ := ofSource_split h nofun nofun
  obtain ⟨mistake, -, -, other⟩ | ⟨line', classified, rfl, same⟩ := ofLine_split inside rfl
  · cases other
  · cases same
    exact ⟨before, raw, after, lines, classified, by simp [emissions_ofLines]⟩

end Move

namespace Exec

theorem atLine_bind {α β : Type} (number : Int) (x : Exec α) (k : α → Exec β) :
    atLine number (x >>= k) = atLine number x >>= fun a => atLine number (k a) := by
  funext m
  simp only [atLine, bind_eq]
  cases x m with
  | ok a n => rfl
  | error halt n => cases halt <;> rfl

theorem machineOf_atLine {α : Type} (number : Int) (x : Exec α) (m : Machine) :
    machineOf (atLine number x m) = machineOf (x m) := by
  rw [atLine]
  cases x m with
  | ok a n => rfl
  | error halt n => cases halt <;> rfl

theorem emit_occasions (setup : Setup) (occasion : Occasion) (m : Machine) :
    (machineOf (emit setup occasion m)).occasions = m.occasions.push occasion := by
  simp only [emit]
  split <;> rfl

end Exec

namespace Move

variable (setup : Setup)

theorem runAll_cons (move : Move) (moves : List Move) :
    runAll setup (move :: moves) = (do move.run setup; runAll setup moves) :=
  rfl

theorem runAll_append (first second : List Move) :
    runAll setup (first ++ second) = (do runAll setup first; runAll setup second) := by
  simp [runAll, List.forM_append]

theorem runAll_ofLine (raw : Text) (number : Int) :
    runAll setup (ofLine raw number) = Exec.line setup raw number := by
  rw [Exec.line]
  obtain ⟨mistake, classified, moves⟩ | ⟨line, classified, blank, moves⟩ |
    ⟨line, classified, blank, moves⟩ := ofLine_cases raw number
  · simp [moves, classified, runAll, run]
  · simp [moves, classified, blank, runAll]
  · have placed := Line.classify_number classified
    simp [moves, classified, runAll, run, Exec.step, Exec.atLine_bind, placed, Occasion.line?]

theorem runAll_ofLines (number : Int) (raws : List Text) :
    runAll setup (ofLines number raws) = Exec.lines setup number raws := by
  induction raws generalizing number with
  | nil => rfl
  | cons raw rest ih => rw [ofLines, runAll_append, runAll_ofLine, ih, Exec.lines]

/-- A run makes the moves of its source text. -/
theorem runAll_ofSource (source : Text) :
    runAll setup (ofSource source) = Exec.program setup source := by
  rw [ofSource, runAll_cons, runAll_append, runAll_ofLines, Exec.program]
  simp [runAll, run, Occasion.line?]

/-- A move adds the event that it emits, even if it fails. -/
theorem run_occasions (move : Move) (m : Machine) :
    (Exec.machineOf (move.run setup m)).occasions.toList
      = m.occasions.toList ++ emissions [move] := by
  cases move with
  | emit occasion =>
      cases placed : occasion.line? with
      | none => simp [run, placed, Exec.emit_occasions]
      | some line => simp [run, placed, Exec.machineOf_atLine, Exec.emit_occasions]
  | act line =>
      rw [run, Exec.machineOf_atLine]
      show (Exec.machineOf (Exec.perform setup line.form
        (m.log setup line.number line.form.rule line.text))).occasions.toList = _
      simp [(Exec.perform_beside setup line.form _).2, Machine.log]
  | refuse number raw mistake =>
      show m.occasions.toList = _
      simp

/-- Moves are made up to the first that fails, and so are their events. -/
theorem runAll_occasions (moves : List Move) (m : Machine) :
    (∃ n, runAll setup moves m = .ok () n ∧
      n.occasions.toList = m.occasions.toList ++ emissions moves) ∨
    ∃ made failing halt n, StopsAt setup moves m made failing halt n ∧
      runAll setup moves m = .error halt n ∧
      n.occasions.toList = m.occasions.toList ++ emissions (made ++ [failing]) := by
  induction moves generalizing m with
  | nil => exact .inl ⟨m, rfl, by simp⟩
  | cons move rest ih =>
      have told := run_occasions setup move m
      rw [runAll_cons, bind_eq]
      cases ran : move.run setup m with
      | error halt n =>
          rw [ran] at told
          have stopped : StopsAt setup (move :: rest) m [] move halt n :=
            ⟨⟨rest, rfl⟩, m, rfl, ran⟩
          exact .inr ⟨[], move, halt, n, stopped, rfl, told⟩
      | ok _ k =>
          rw [ran] at told
          have next (later : List Move) : k.occasions.toList ++ emissions later
              = m.occasions.toList ++ emissions (move :: later) := by
            rw [Exec.machineOf] at told
            rw [told, List.append_assoc, ← emissions_append]
            rfl
          rcases ih k with ⟨n, ended, occasions⟩ |
            ⟨made, failing, halt, n, stopped, failed, occasions⟩
          · exact .inl ⟨n, ended, by rw [occasions, next]⟩
          · obtain ⟨place, j, before, halted⟩ := stopped
            have made_all : runAll setup (move :: made) m = .ok () j := by
              rw [runAll_cons, bind_eq, ran]
              exact before
            have stopped : StopsAt setup (move :: rest) m (move :: made) failing halt n :=
              ⟨(List.prefix_cons_inj move).mpr place, j, made_all, halted⟩
            have told : n.occasions.toList
                = m.occasions.toList ++ emissions (move :: made ++ [failing]) := by
              rw [occasions, next]
              rfl
            exact .inr ⟨move :: made, failing, halt, n, stopped, failed, told⟩

end Move

namespace Run

variable {setup : Setup} {source : Text}

/-- A run that ends with a move that fails: what its hooks have been told. -/
structure Breaks (setup : Setup) (source : Text) (made : List Move) (failing : Move)
    (e : Error) : Prop where
  stopped : ∃ halt n, e = errorOf n halt ∧
    Move.StopsAt setup (Move.ofSource source) Machine.initial made failing halt n
  told : (ofSource setup source).machine.occasions.toList
    = Move.emissions (made ++ [failing]) ++ [.onError e]
  course : Move.emissions (made ++ [failing]) <+: protocol source
  refused : ∀ number raw mistake, failing = .refuse number raw mistake →
    ∃ before after, sourceLines source = before ++ raw :: after ∧
      number = 1 + before.length ∧ Line.classify raw number = .error mistake ∧
      Move.emissions made = .programStart :: lineOccasions 1 before
  acted : ∀ line, failing = .act line →
    ∃ before raw after, sourceLines source = before ++ raw :: after ∧
      Line.classify raw (1 + before.length) = .ok line ∧
      Move.emissions made = .programStart :: (lineOccasions 1 before ++ [.beforeLine line])

theorem conclude_occasions (setup : Setup) (e : Error) (m : Machine) :
    (conclude setup e m).machine.occasions = m.occasions.push (.onError e) := by
  have told := Exec.emit_occasions setup (.onError e) m
  rw [conclude]
  split <;> rename_i ran <;> rw [ran] at told <;> exact told

theorem conclude_error (setup : Setup) (e : Error) (m : Machine) :
    (conclude setup e m).error ≠ none := by
  rw [conclude]
  split <;> exact nofun

theorem shown_isClean (run : Run) : (run.shown setup).isClean = true ↔ run.error = none := by
  cases failed : run.error with
  | none => simp [shown, failed, Shown.isClean]
  | some e =>
      simp [shown, failed, Shown.isClean, Traceback.text, Traceback.lines, Text.join]

theorem ofSource_of_ended {n : Machine}
    (ended : Move.runAll setup (Move.ofSource source) Machine.initial = .ok () n) :
    ofSource setup source = ⟨n, none⟩ := by
  rw [ofSource, ← Move.runAll_ofSource, ended]

theorem ofSource_of_failed {halt : Halt} {n : Machine}
    (failed : Move.runAll setup (Move.ofSource source) Machine.initial = .error halt n) :
    ofSource setup source = conclude setup (errorOf n halt) n := by
  rw [ofSource, ← Move.runAll_ofSource, failed]

theorem breaks_of_stopsAt {made : List Move} {failing : Move} {halt : Halt} {n : Machine}
    (stopped : Move.StopsAt setup (Move.ofSource source) Machine.initial made failing halt n)
    (failed : Move.runAll setup (Move.ofSource source) Machine.initial = .error halt n)
    (occasions : n.occasions.toList = Move.emissions (made ++ [failing])) :
    Breaks setup source made failing (errorOf n halt) where
  stopped := ⟨halt, n, rfl, stopped⟩
  told := by rw [ofSource_of_failed failed, conclude_occasions, Array.toList_push, occasions]
  course := by
    rw [← Move.emissions_ofSource]
    exact stopped.place.filterMap _
  refused := by
    rintro number raw mistake rfl
    exact Move.refuse_place stopped.place
  acted := by
    rintro line rfl
    exact Move.act_place stopped.place

end Run

end Snippet
