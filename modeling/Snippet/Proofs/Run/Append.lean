import Snippet.Proofs.Run.NormalForm

/-!
Running one source text behind another. The first line that fails ends the run, so nothing behind
it matters; behind a text that runs to its end, the lines of the other one go on from the machine
that it left.
-/

set_option autoImplicit false

namespace Snippet

-- A machine at the end of its source text, before that end was an occasion.
def Machine.reopened (m : Machine) : Machine :=
  { m with occasions := m.occasions.pop }

namespace Run

/-- Run lines, numbered from a first number, from a machine on. -/
def ofLines (setup : Setup) (number : Int) (raws : List Text) (m : Machine) : Run :=
  match (do Exec.lines setup number raws; Exec.emit setup .programEnd : Exec Unit) m with
  | .ok () m => ⟨m, none⟩
  | .error halt m => conclude setup (errorOf m halt) m

section Quiet

variable {setup : Setup} (quiet : setup.Quiet)
include quiet

theorem ofLines_of_ok {number : Int} {raws : List Text} {m n : Machine}
    (h : Exec.lines setup number raws m = .ok () n) :
    ofLines setup number raws m = ⟨{ n with occasions := n.occasions.push .programEnd }, none⟩ := by
  rw [ofLines, bind_eq, h]
  simp only [Exec.emit_eq quiet.hooks]

omit quiet in
theorem ofLines_of_error {number : Int} {raws : List Text} {m n : Machine} {halt : Halt}
    (h : Exec.lines setup number raws m = .error halt n) :
    ofLines setup number raws m = conclude setup (errorOf n halt) n := by
  rw [ofLines, bind_eq, h]

theorem ofSource_eq_ofLines (source : Text) :
    ofSource setup source = ofLines setup 1 (sourceLines source) Machine.started := by
  rw [ofSource_eq quiet]
  cases ran : Exec.lines setup 1 (sourceLines source) Machine.started with
  | ok _ m => exact (ofLines_of_ok quiet ran).symm
  | error halt m => exact (ofLines_of_error ran).symm

theorem ofLines_append_of_ok {number : Int} {first second : List Text} {m n : Machine}
    (h : Exec.lines setup number first m = .ok () n) :
    ofLines setup number (first ++ second) m
      = ofLines setup (number + first.length) second n := by
  have goes_on : Exec.lines setup number (first ++ second) m
      = Exec.lines setup (number + first.length) second n := by
    rw [Exec.lines_append, bind_eq, h]
  cases ran : Exec.lines setup (number + first.length) second n with
  | ok _ k => rw [ofLines_of_ok quiet ran, ofLines_of_ok quiet (goes_on.trans ran)]
  | error halt k => rw [ofLines_of_error ran, ofLines_of_error (goes_on.trans ran)]

omit quiet in
theorem ofLines_append_of_error {number : Int} {first : List Text} (second : List Text)
    {m n : Machine} {halt : Halt} (h : Exec.lines setup number first m = .error halt n) :
    ofLines setup number (first ++ second) m = ofLines setup number first m := by
  have stops : Exec.lines setup number (first ++ second) m = .error halt n := by
    rw [Exec.lines_append, bind_eq, h]
  rw [ofLines_of_error h, ofLines_of_error stops]

omit quiet in
theorem ofLines_map_trim (number : Int) (raws : List Text) (m : Machine) :
    ofLines setup number (raws.map Text.trim) m = ofLines setup number raws m := by
  rw [ofLines, ofLines, Exec.lines_map_trim]

end Quiet

end Run

end Snippet
