import Snippet.Proofs.Eval.Accepted
import Snippet.Proofs.Eval.Plain

/-!
Values that can always be given: integers, texts, tuples, and containers that pass the check of
their weight.
-/

set_option autoImplicit false

namespace Snippet

variable {s : Store} {v : Value}

/-- A later store with the same lists and dicts. -/
structure Store.Ages (s s' : Store) : Prop where
  data : s.SameData s'
  tags : s.nextTag ≤ s'.nextTag

theorem Store.Ages.refl (s : Store) : s.Ages s :=
  ⟨.refl s, Nat.le_refl _⟩

theorem Store.Ages.trans {s' s'' : Store} (first : s.Ages s') (second : s'.Ages s'') : s.Ages s'' :=
  ⟨first.data.trans second.data, Nat.le_trans first.tags second.tags⟩

namespace Value

theorem exists_ofInt (n : Int) (s : Store) :
    ∃ tag s', ofInt n s = .ok (.int tag n) s' ∧ s.Ages s' := by
  rw [ofInt]
  split
  · exact ⟨_, _, rfl, .refl s⟩
  · exact ⟨_, _, rfl, ⟨rfl, rfl⟩, Nat.le_succ _⟩

theorem exists_ofText (t : Text) (s : Store) :
    ∃ tag s', ofText t s = .ok (.text tag t) s' ∧ s.Ages s' := by
  rw [ofText]
  split
  · exact ⟨_, _, rfl, .refl s⟩
  · exact ⟨_, _, rfl, ⟨rfl, rfl⟩, Nat.le_succ _⟩

-- A tuple that is not empty takes a new tag.
theorem exists_ofTuple (items : List Value) (s : Store) :
    ∃ tag s', ofTuple items s = .ok (.tuple tag items) s' ∧ s.Ages s' ∧
      (items ≠ [] → tag = s.nextTag ∧ s.nextTag < s'.nextTag) := by
  rw [ofTuple]
  cases items with
  | nil => exact ⟨_, _, rfl, .refl s, fun some_ => absurd rfl some_⟩
  | cons v rest =>
      exact ⟨_, _, rfl, ⟨⟨rfl, rfl⟩, Nat.le_succ _⟩, fun _ => ⟨rfl, Nat.lt_succ_self _⟩⟩

theorem checked_of_light (container : v.isContainer = true)
    (light : weight s maxLength v ≤ maxLength) : checked v s = .ok v s := by
  have passed : checkWeight v s = .ok () s := checkWeight_eq_ok.mpr ⟨rfl, fun _ => light⟩
  cases v with
  | text | raw | tuple | list | dict =>
      show (checkWeight _ >>= fun _ => pure _) s = _
      rw [bind_eq, passed]
      rfl
  | _ => cases container

end Value

end Snippet
