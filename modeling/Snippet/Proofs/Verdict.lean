import Snippet.Command
import Snippet.Proofs.Run.NormalForm
import Snippet.Proofs.Run.Protocol
import Snippet.Proofs.Run.Terse

/-!
Verdicts on code. A snippet solves a challenge if it and the target run to their ends and print the
same, apart from blanks at the ends, and if it is not silent or its text is the target's but for
the layout. What this depends on is the same for layouts of one snippet, and the command line
compares the same.
-/

set_option autoImplicit false

namespace Snippet

open Text (trim normalForm)

def Challenge.solvedBy (challenge : Challenge) (submitted : Text) : Prop :=
  (challenge.grade submitted).solved = true

/-- What a verdict depends on is the same. -/
structure Alike (s u : Text) : Prop where
  clean : (simulate s).isClean = (simulate u).isClean
  prints : trim (simulate s).stdout = trim (simulate u).stdout
  normal : normalForm s = normalForm u

theorem solvedBy_iff {kind : ChallengeKind} (judged : kind.isTextual = false) {target s : Text} :
    (Challenge.mk kind target).solvedBy s ↔
      (simulate s).isClean = true ∧ (simulate target).isClean = true
        ∧ trim (simulate s).stdout = trim (simulate target).stdout
        ∧ (trim (simulate s).stdout ≠ [] ∨ normalForm s = normalForm target) := by
  simp [Challenge.solvedBy, Challenge.grade, judged, Shown.isEquivalent, and_assoc]

theorem solvedBy_congr {kind : ChallengeKind} (judged : kind.isTextual = false)
    {target other s u : Text} (targets : Alike target other) (submitted : Alike s u) :
    (Challenge.mk kind target).solvedBy s ↔ (Challenge.mk kind other).solvedBy u := by
  rw [solvedBy_iff judged, solvedBy_iff judged, submitted.clean, submitted.prints,
    submitted.normal, targets.clean, targets.prints, targets.normal]

theorem Alike.refl (s : Text) : Alike s s :=
  ⟨rfl, rfl, rfl⟩

theorem isClean_simulate (s : Text) :
    (simulate s).isClean = true ↔ (Run.ofSource plainSetup s).error = none :=
  Run.shown_isClean _

-- Runs that differ in their line numbers show the same output and end alike.
theorem simulate_of_shift {s u : Text} {offset : Int}
    (moved : Run.ofSource plainSetup s = (Run.ofSource plainSetup u).shift offset) :
    (simulate s).isClean = (simulate u).isClean ∧ (simulate s).stdout = (simulate u).stdout := by
  constructor
  · rw [Bool.eq_iff_iff, isClean_simulate, isClean_simulate, moved, Run.shift]
    simp
  · rw [simulate_eq, simulate_eq, moved]
    rfl

theorem alike_trim (s : Text) : Alike (trim s) s := by
  obtain ⟨offset, moved⟩ := Run.ofSource_trim plainSetup_quiet s
  obtain ⟨clean, stdout⟩ := simulate_of_shift moved
  exact ⟨clean.symm, by rw [stdout], Text.normalForm_trim s⟩

theorem alike_normalForm {s : Text} (paired : Text.BreaksPaired s) : Alike (normalForm s) s := by
  by_cases blank : trim s = []
  · have normal : normalForm s = trim s := by rw [normalForm, blank]; rfl
    rw [normal]
    exact alike_trim s
  · obtain ⟨clean, stdout⟩ :=
      simulate_of_shift (Run.ofSource_normalForm plainSetup_quiet paired blank)
    exact ⟨clean.symm, by rw [stdout], Text.normalForm_normalForm s⟩

namespace Command

variable {world : World} {options : Options} {program : Text}

-- A program is given as literal source, without extensions.
structure Literal (options : Options) (program : Text) : Prop where
  source : options.source = true
  program : options.program = some program
  extensions : options.extensions = []

-- A verbose run of a literal program is its simulation, with snapshots in the log.
theorem simulate_of_literal (verbose : Bool) (program : Text) :
    let setup := Services.empty.setup usualFilename verbose fun _ => none
    let run := Run.ofSource setup program
    ((run.shown setup).isClean = (simulate program).isClean)
      ∧ (run.shown setup).stdout = (simulate program).stdout := by
  intro setup run
  have terse : Run.ofSource plainSetup program = run.terse := Run.ofSource_terse setup program
  constructor
  · rw [Bool.eq_iff_iff, Run.shown_isClean, isClean_simulate, terse]
    rfl
  · rw [simulate_eq, terse]
    rfl

theorem run_literal (literal : Literal options program) (input : Text) :
    run world options input
      = if options.normalize then .ok (.success (line (normalForm program)))
        else runSource world options Services.empty usualFilename program := by
  have loaded : Extension.loadAll world.shelf options.extensions = .ok Services.empty := by
    rw [literal.extensions]
    rfl
  have text : programText world options program = .ok program := by
    rw [programText, if_pos literal.source]
  rw [run, plan, loaded, literal.program]
  simp only [runProgram, text, literal.source, if_true]
  split
  · rfl
  · cases runSource world options Services.empty usualFilename program <;> rfl

-- A comparison succeeds if the solution runs to its end and both print the same.
theorem compare_literal (literal : options.source = true) (stdout target : Text) :
    ∃ outcome, compare world options Services.empty usualFilename ⟨stdout, []⟩ target = .ok outcome
      ∧ (outcome.exit = 0 ↔ (simulate target).isClean = true
          ∧ trim stdout = trim (simulate target).stdout) := by
  have text : programText world options target = .ok target := by
    rw [programText, if_pos literal]
  simp only [compare, text, ← plainSetup.eq_1, ← simulate_eq]
  cases clean : (simulate target).isClean with
  | false => exact ⟨_, rfl, by simp [Outcome.failure]⟩
  | true =>
      by_cases same : trim stdout = trim (simulate target).stdout
      · have equivalent : Shown.isEquivalent ⟨stdout, []⟩ (simulate target) = true := by
          simp [Shown.isEquivalent, Shown.isClean, same] at clean ⊢
          exact clean
        exact ⟨_, by rw [equivalent]; rfl, by simp [Outcome.success, same]⟩
      · have differs : Shown.isEquivalent ⟨stdout, []⟩ (simulate target) = false := by
          simp [Shown.isEquivalent, same]
        exact ⟨_, by rw [differs]; rfl, by simp [Outcome.failure, same]⟩

theorem runSource_literal (world : World) (program : Text) (literal : options.source = true) {target : Text}
    (compared : options.compare = some target) :
    ∃ outcome, runSource world options Services.empty usualFilename program = .ok outcome
      ∧ (outcome.exit = 0 ↔ (simulate program).isClean = true ∧ (simulate target).isClean = true
          ∧ trim (simulate program).stdout = trim (simulate target).stdout) := by
  obtain ⟨clean, stdout⟩ := simulate_of_literal options.verbose program
  let setup := Services.empty.setup usualFilename options.verbose fun _ => none
  have setup_eq : Services.empty.setup usualFilename options.verbose (fun _ => none) = setup := rfl
  rw [setup_eq] at clean stdout
  simp only [runSource, setup_eq]
  cases failed : (Run.ofSource setup program).error with
  | some e =>
      have unclean : (simulate program).isClean = false := by
        rw [← clean, Bool.eq_false_iff, Ne, Run.shown_isClean, failed]
        exact nofun
      exact ⟨_, rfl, by simp [Outcome.failure, unclean]⟩
  | none =>
      have ran : (simulate program).isClean = true := by
        rw [← clean, Run.shown_isClean, failed]
      have shown : (Run.ofSource setup program).shown setup = ⟨(simulate program).stdout, []⟩ := by
        rw [← stdout]
        simp [Run.shown, failed]
      obtain ⟨outcome, settled, exit⟩ := compare_literal literal (simulate program).stdout target
      rw [compared, shown]
      exact ⟨outcome, settled, by rw [exit, ran]; simp⟩

end Command

end Snippet
