import Snippet.Proofs.Datum.Evaluated
import Snippet.Proofs.Datum.Read
import Snippet.Proofs.Eval.Columns

/-!
Writing and evaluating data. The text of a value that is a datum with a written form evaluates to
the datum, wherever and whenever it is evaluated.
-/

set_option autoImplicit false

namespace Snippet.Datum

variable {s : Store} {d : Datum} {v : Value}

/-- What is written for data of legible texts and integers that are not too long can be evaluated
among any names and in any store. It gives a new value that is the same datum, and changes nothing
else. -/
theorem evaluate_written (is : d.Is s [] v) (literal : d.Literal) (shallow : d.nesting ≤ 60)
    (light : Value.weight s maxLength v ≤ maxLength) :
    ∃ t, Value.written s v = .ok t ∧ ∀ (env : Env) (s' : Store),
      ∃ w s'', Session.evaluate env t s' = .ok w s'' ∧ d.Is s'' [] w ∧ s'.Leads s'' := by
  obtain ⟨t, written, spelled⟩ := is.rendered literal (n := 949) (shallow.trans (by decide))
  refine ⟨t, written, fun env s' => ?_⟩
  have weighed : d.weight ≤ maxLength := is.weight_eq light ▸ light
  obtain ⟨w, s'', evaluated, given⟩ :=
    literal.gives env (k := 958) (shallow.trans (by decide)) weighed s'
  refine ⟨w, s'', ?_, given.is s'' [] (.refl s'') nofun, given.leads⟩
  rw [Evaluate.evaluate_of_read (literal.read shallow spelled), Session.guarded_eq_ok]
  exact evaluated

-- Quotes of both kinds, a sign, a tuple of one item, an empty one, and a key that is a tuple.
theorem evaluate_written_mixed :
    let s : Store :=
      { lists := #[[.int 1 (-12), .text 2 "it's \"\n\\".toList]]
        dicts := #[[(.tuple 3 [.bool true], .list 0), (.none, .tuple 0 [])]]
        nextTag := 5 }
    let d : Datum := .tuple [.dict [
      (.tuple [.bool true], .list [.int (-12), .text "it's \"\n\\".toList]), (.none, .tuple [])]]
    let v : Value := .tuple 4 [.dict 0]
    d.Is s [] v ∧ d.Literal ∧ d.nesting ≤ 60 ∧ Value.weight s maxLength v ≤ maxLength ∧
      ∃ t, Value.written s v = .ok t ∧ ∀ (env : Env) (s' : Store),
        ∃ w s'', Session.evaluate env t s' = .ok w s'' ∧ d.Is s'' [] w ∧ s'.Leads s'' := by
  intro s d v
  have key : Is s [.dict 0, v] (.tuple [.bool true]) (.tuple 3 [.bool true]) :=
    .tuple rfl rfl (by rintro _ _ (_ | ⟨_, ⟨⟩⟩); exact .bool _ true)
  have items : Is s [.dict 0, v] (.list [.int (-12), .text "it's \"\n\\".toList]) (.list 0) := by
    refine .list rfl rfl ?_
    rintro _ _ (_ | ⟨_, _ | ⟨_, ⟨⟩⟩⟩)
    · exact .int _ 1 (-12)
    · exact .text _ 2 _
  have empty : Is s [.dict 0, v] (.tuple []) (.tuple 0 []) := .tuple rfl rfl nofun
  have is : d.Is s [] v := by
    refine .tuple rfl rfl ?_
    rintro _ _ (_ | ⟨_, ⟨⟩⟩)
    refine .dict rfl rfl ?_ ?_
    · rintro _ _ (_ | ⟨_, _ | ⟨_, ⟨⟩⟩⟩)
      · exact key
      · exact .none _
    · rintro _ _ (_ | ⟨_, _ | ⟨_, ⟨⟩⟩⟩)
      · exact items
      · exact empty
  have literal : d.Literal := by
    have key : Literal (.tuple [.bool true]) := .tuple (List.forall_mem_singleton.mpr (.bool true))
    have items : Literal (.list [.int (-12), .text "it's \"\n\\".toList]) := by
      refine .list (List.forall_mem_cons.mpr ⟨.int ?_, List.forall_mem_singleton.mpr (.text ?_)⟩)
      · decide +kernel
      · decide
    refine .tuple (List.forall_mem_singleton.mpr (.dict ?_ ?_ ?_ ?_))
    · exact List.forall_mem_cons.mpr ⟨key, List.forall_mem_singleton.mpr .none⟩
    · exact List.forall_mem_cons.mpr ⟨items, List.forall_mem_singleton.mpr (.tuple nofun)⟩
    · exact List.forall_mem_cons.mpr
        ⟨.tuple (List.forall_mem_singleton.mpr (.bool true)), List.forall_mem_singleton.mpr .none⟩
    · refine List.pairwise_pair.mpr ?_
      rintro (_ | worth)
      cases worth
  have shallow : d.nesting ≤ 60 := by decide
  have light : Value.weight s maxLength v ≤ maxLength := by decide
  exact ⟨is, literal, shallow, light, evaluate_written is literal shallow light⟩

end Snippet.Datum
