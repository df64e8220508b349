import Snippet.Proofs.Run.Shift
import Snippet.Proofs.Text.NormalForm

/-!
Running the normal form of a snippet. Blank lines leave no trace and blanks around a line change
nothing, so the normal form runs like the snippet itself, under line numbers that are lower by the
blank lines at the start.
-/

set_option autoImplicit false

namespace Snippet

namespace Exec

theorem line_trim (setup : Setup) (raw : Text) (number : Int) :
    line setup (Text.trim raw) number = line setup raw number := by
  simp [line, Line.classify]

theorem lines_map_trim (setup : Setup) (number : Int) (raws : List Text) :
    lines setup number (raws.map Text.trim) = lines setup number raws := by
  induction raws generalizing number with
  | nil => rfl
  | cons raw rest ih => simp only [List.map_cons, lines, line_trim, ih]

theorem line_nil (setup : Setup) (number : Int) : line setup [] number = pure () := rfl

theorem lines_blank (setup : Setup) (number : Int) (count : Nat) :
    lines setup number (List.replicate count []) = pure () := by
  induction count generalizing number with
  | zero => rfl
  | succ count ih => simp [List.replicate_succ, lines, line_nil, ih]

theorem lines_between_blank (setup : Setup) (number : Int) (raws : List Text)
    (before behind : Nat) :
    lines setup number (List.replicate before [] ++ (raws ++ List.replicate behind []))
      = lines setup (number + before) raws := by
  simp [lines_append, lines_blank]

section Quiet

variable {setup : Setup} (quiet : setup.Quiet)
include quiet

-- Lines that halt do so at one of them, which is the last one in the log.
theorem lines_halt {number : Int} {raws : List Text} {m n : Machine} {halt : Halt}
    (h : lines setup number raws m = .error halt n) :
    ∃ k, number ≤ k ∧ n.lastStep?.map (·.line) = some k ∧ (Run.errorOf n halt).line = some k := by
  induction raws generalizing number m with
  | nil => cases h
  | cons raw rest ih =>
      rw [lines, bind_eq] at h
      cases first : line setup raw number m with
      | ok _ k =>
          rw [first] at h
          obtain ⟨k, after, logged, placed⟩ := ih h
          exact ⟨k, by omega, logged, placed⟩
      | error inner k =>
          rw [first] at h
          cases h
          exact ⟨number, by omega, line_halts quiet first⟩

end Quiet

end Exec

-- A machine when its first line starts.
def Machine.started : Machine :=
  { Machine.initial with occasions := #[.programStart] }

theorem Machine.shift_started (offset : Int) : Machine.started.shift offset = Machine.started := by
  simp [Machine.started, Machine.shift, Machine.initial, Occasion.shift]

namespace Run

theorem errorOf_shift {m : Machine} {halt : Halt} {k : Int} (offset : Int)
    (logged : m.lastStep?.map (·.line) = some k) :
    errorOf (m.shift offset) (halt.shift offset) = (errorOf m halt).shift offset := by
  have last : (m.shift offset).lastStep?.map (·.line) = some (k + offset) := by
    obtain ⟨step, back, rfl⟩ := Option.map_eq_some_iff.mp logged
    simp only [Machine.lastStep?] at back
    simp [Machine.lastStep?, Machine.shift, back, Step.shift]
  cases halt with
  | mishap f => simp [Halt.shift, errorOf, Error.shift, last, logged]
  | error e =>
      obtain ⟨cause, line⟩ := e
      cases line <;> simp [Halt.shift, errorOf, Error.shift, last, logged]

section Quiet

variable {setup : Setup} (quiet : setup.Quiet)
include quiet

theorem conclude_eq (e : Error) (m : Machine) :
    conclude setup e m = ⟨{ m with occasions := m.occasions.push (.onError e) }, some e⟩ := by
  rw [conclude, Exec.emit_eq quiet.hooks]

theorem ofSource_eq (source : Text) :
    ofSource setup source =
      match Exec.lines setup 1 (sourceLines source) Machine.started with
      | .ok () m => ⟨{ m with occasions := m.occasions.push .programEnd }, none⟩
      | .error halt m => conclude setup (errorOf m halt) m := by
  have program : Exec.program setup source Machine.initial =
      match Exec.lines setup 1 (sourceLines source) Machine.started with
      | .ok () m => Exec.emit setup .programEnd m
      | .error halt m => .error halt m := by
    rw [Exec.program, bind_eq, Exec.emit_eq quiet.hooks]
    show (Exec.lines setup 1 (sourceLines source) >>= fun _ => Exec.emit setup .programEnd)
      Machine.started = _
    rw [bind_eq]
    cases Exec.lines setup 1 (sourceLines source) Machine.started <;> rfl
  rw [ofSource, program]
  cases Exec.lines setup 1 (sourceLines source) Machine.started with
  | ok _ m => simp [Exec.emit_eq quiet.hooks]
  | error halt m => rfl

-- Sources whose lines do the same under moved numbers have the same run, with moved numbers.
theorem ofSource_shift {source other : Text} (offset : Int)
    (same : Exec.lines setup 1 (sourceLines source)
      = Exec.lines setup (1 + offset) (sourceLines other)) :
    ofSource setup source = (ofSource setup other).shift offset := by
  have follows := Exec.Shifts.lines quiet offset 1 (sourceLines other) Machine.started
  rw [Machine.shift_started] at follows
  rw [ofSource_eq quiet, ofSource_eq quiet, same, follows]
  cases ended : Exec.lines setup 1 (sourceLines other) Machine.started with
  | ok _ m => simp [Exec.mapResult, Run.shift, Machine.shift, Occasion.shift]
  | error halt m =>
      obtain ⟨k, -, logged, -⟩ := Exec.lines_halt quiet ended
      simp only [Exec.mapResult, errorOf_shift offset logged, conclude_eq quiet]
      simp [Run.shift, Machine.shift, Occasion.shift]

theorem error_line {source : Text} {e : Error} (failed : (ofSource setup source).error = some e) :
    ∃ k, 1 ≤ k ∧ e.line = some k := by
  rw [ofSource_eq quiet] at failed
  cases ended : Exec.lines setup 1 (sourceLines source) Machine.started with
  | ok _ m => simp [ended] at failed
  | error halt m =>
      obtain ⟨k, within, -, placed⟩ := Exec.lines_halt quiet ended
      simp only [ended, conclude_eq quiet, Option.some.injEq] at failed
      exact ⟨k, within, failed ▸ placed⟩

theorem ofSource_normalForm {source : Text} (paired : Text.BreaksPaired source)
    (shown : Text.trim source ≠ []) :
    ofSource setup source
      = (ofSource setup (Text.normalForm source)).shift (Text.leadingBlankLines source) := by
  obtain ⟨behind, trimmed⟩ := Text.map_trim_sourceLines paired shown
  apply ofSource_shift quiet
  rw [← Exec.lines_map_trim, trimmed, Exec.lines_between_blank, Text.sourceLines_normalForm]

-- Blanks around a whole text only move its line numbers.
theorem ofSource_trim (source : Text) :
    ∃ offset, ofSource setup source = (ofSource setup (Text.trim source)).shift offset := by
  obtain ⟨before, behind, trimmed⟩ := Text.map_trim_sourceLines_trim source
  refine ⟨before, ofSource_shift quiet _ ?_⟩
  rw [← Exec.lines_map_trim, trimmed, Exec.lines_between_blank, Exec.lines_map_trim]

theorem ofSource_blank {source : Text} (paired : Text.BreaksPaired source)
    (blank : Text.trim source = []) :
    ofSource setup source = ⟨{ Machine.started with occasions := #[.programStart, .programEnd] },
      none⟩ := by
  have none_shown : (sourceLines source).map Text.trim
      = List.replicate (sourceLines source).length [] := by
    rw [List.map_eq_replicate_iff]
    exact fun line member => Text.trim_of_mem_sourceLines paired blank member
  rw [ofSource_eq quiet, ← Exec.lines_map_trim, none_shown, Exec.lines_blank]
  rfl

end Quiet

end Run

theorem simulate_eq (source : Text) :
    simulate source = (Run.ofSource plainSetup source).shown plainSetup := rfl

theorem Traceback.lineOf_eq {e : Error} {line : Int} (positive : 1 ≤ line)
    (placed : e.line = some line) : lineOf e = line := by
  rw [lineOf, placed]
  split
  · contradiction
  · rename_i same
    cases same
    contradiction
  · rename_i same
    cases same
    rfl

-- The traceback of a snippet, in full.
def report (cause : Cause) (line : Int) : Text :=
  Text.join ['\n'] [
    "Traceback (most recent call last):".toList,
    "  File \"".toList ++ usualFilename ++ "\", line ".toList ++ intText line
      ++ ", in <module>".toList,
    cause.kind ++ ": ".toList ++ cause.message]

theorem Traceback.lines_terse {setup : Setup} (terse : setup.verbose = false) (m : Machine)
    (e : Error) :
    lines setup m e
      = ["Traceback (most recent call last):".toList, location setup e, message e] := by
  simp only [lines, terse, List.append_nil, List.cons_append, List.nil_append]

theorem text_eq_report (m : Machine) {e : Error} {line : Int} (positive : 1 ≤ line)
    (placed : e.line = some line) : Traceback.text plainSetup m e = report e.cause line := by
  have terse : plainSetup.verbose = false := rfl
  have filename : plainSetup.filename = usualFilename := rfl
  rw [Traceback.text, Traceback.lines_terse terse]
  unfold Traceback.location
  rw [Traceback.lineOf_eq positive placed, filename, Traceback.message, report]

theorem stderr_of_error {source : Text} {e : Error} {line : Int}
    (failed : (Run.ofSource plainSetup source).error = some e) (positive : 1 ≤ line)
    (placed : e.line = some line) : (simulate source).stderr = report e.cause line := by
  rw [simulate_eq]
  simp only [Run.shown, failed]
  exact text_eq_report _ positive placed

end Snippet
