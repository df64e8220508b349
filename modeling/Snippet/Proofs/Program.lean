import Snippet.Text.Ranges

/-!
Programs over a state. `Ends P` says that a program ends with a failure of which `P` holds.
-/

set_option autoImplicit false

namespace Snippet

variable {ε σ α β : Type}

theorem exists_of_isOk {r : Except ε α} (h : r.isOk = true) : ∃ a, r = .ok a := by
  cases r with
  | error e => contradiction
  | ok a => exact ⟨a, rfl⟩

theorem ok_of_toOption {r : Except ε α} {a : α} (h : r.toOption = some a) : r = .ok a := by
  cases r with
  | ok b => exact congrArg Except.ok (Option.some.inj h)
  | error e => cases h

theorem bind_eq_ok {x : Except ε α} {k : α → Except ε β} {b : β} :
    x >>= k = .ok b ↔ ∃ a, x = .ok a ∧ k a = .ok b := by
  cases x with
  | error e => exact ⟨nofun, by rintro ⟨a, same, -⟩; cases same⟩
  | ok a => exact ⟨fun h => ⟨a, rfl, h⟩, by rintro ⟨c, same, h⟩; cases same; exact h⟩

theorem bind_eq (x : EStateM ε σ α) (k : α → EStateM ε σ β) (s : σ) :
    (x >>= k) s =
      match x s with
      | .ok a s' => k a s'
      | .error e s' => .error e s' := by
  show EStateM.bind x k s = _
  simp only [EStateM.bind]
  cases x s <;> rfl

theorem bind_same {x x' : EStateM ε σ α} {k : α → EStateM ε σ β} {s : σ} (first : x' s = x s) :
    (x' >>= k) s = (x >>= k) s := by
  rw [bind_eq, bind_eq, first]

theorem bind_same_of_ok {x : EStateM ε σ α} {k k' : α → EStateM ε σ β} {s : σ}
    (then_ : ∀ a s', x s = .ok a s' → k' a s' = k a s') : (x >>= k') s = (x >>= k) s := by
  rw [bind_eq, bind_eq]
  cases ran : x s with
  | ok a s' => exact then_ a s' ran
  | error e s' => rfl

theorem run_bind_eq_ok {x : EStateM ε σ α} {k : α → EStateM ε σ β} {s s' : σ} {b : β} :
    (x >>= k) s = .ok b s' ↔ ∃ a after, x s = .ok a after ∧ k a after = .ok b s' := by
  rw [bind_eq]
  cases x s with
  | ok a after =>
      refine ⟨fun h => ⟨a, after, rfl, h⟩, ?_⟩
      rintro ⟨c, other, same, h⟩
      cases same
      exact h
  | error e after => exact ⟨nofun, by rintro ⟨a, other, same, -⟩; cases same⟩

/-- What a program answers and leaves, unless it fails. -/
def answer? (x : EStateM ε σ α) (s : σ) : Option (α × σ) :=
  match x s with
  | .ok a s' => some (a, s')
  | .error .. => none

theorem answer?_eq_some {x : EStateM ε σ α} {s s' : σ} {a : α} :
    answer? x s = some (a, s') ↔ x s = .ok a s' := by
  rw [answer?]
  cases x s <;> simp

def Ends (P : ε → σ → Prop) (x : EStateM ε σ α) (s : σ) : Prop :=
  ∃ e s', x s = .error e s' ∧ P e s'

variable {P : ε → σ → Prop} {x : EStateM ε σ α} {s s' : σ}

theorem ends_of_error {e : ε} (h : x s = .error e s') : Ends P x s ↔ P e s' := by
  constructor
  · rintro ⟨other, after, same, holds⟩
    rw [h] at same
    cases same
    exact holds
  · exact fun holds => ⟨e, s', h, holds⟩

theorem not_ends_of_ok {a : α} (h : x s = .ok a s') : ¬ Ends P x s := by
  rintro ⟨e, after, same, -⟩
  rw [h] at same
  contradiction

theorem not_ends_pure (a : α) : ¬ Ends P (pure a : EStateM ε σ α) s :=
  not_ends_of_ok rfl

theorem ends_bind_of_ok {a : α} (h : x s = .ok a s') (k : α → EStateM ε σ β) :
    Ends P (x >>= k) s ↔ Ends P (k a) s' := by
  have next : (x >>= k) s = k a s' := by rw [bind_eq, h]
  simp only [Ends, next]

theorem ends_bind (k : α → EStateM ε σ β) :
    Ends P (x >>= k) s ↔ Ends P x s ∨ ∃ a s', x s = .ok a s' ∧ Ends P (k a) s' := by
  cases ran : x s with
  | ok a after =>
      rw [ends_bind_of_ok ran]
      constructor
      · exact fun ended => .inr ⟨a, after, rfl, ended⟩
      · rintro (failed | ⟨b, other, same, ended⟩)
        · exact absurd failed (not_ends_of_ok ran)
        · cases same
          exact ended
  | error e after =>
      have stopped : (x >>= k) s = .error e after := by rw [bind_eq, ran]
      rw [ends_of_error stopped, ends_of_error ran]
      simp

theorem not_ends_bind {k : α → EStateM ε σ β} (first : ¬ Ends P x s)
    (next : ∀ a s', ¬ Ends P (k a) s') : ¬ Ends P (x >>= k) s := by
  rw [ends_bind]
  rintro (failed | ⟨a, s', -, failed⟩)
  · exact first failed
  · exact next a s' failed

theorem not_ends_mapM {f : α → EStateM ε σ β} {xs : List α}
    (each : ∀ a ∈ xs, ∀ s, ¬ Ends P (f a) s) (s : σ) : ¬ Ends P (xs.mapM f) s := by
  induction xs generalizing s with
  | nil => exact not_ends_pure _
  | cons a rest ih =>
      have later := ih fun b member => each b (List.mem_cons_of_mem a member)
      rw [List.mapM_cons]
      refine not_ends_bind (each a List.mem_cons_self s) fun b s' => ?_
      exact not_ends_bind (later s') fun bs _ => not_ends_pure _

theorem not_ends_forM {f : α → EStateM ε σ PUnit} {xs : List α}
    (each : ∀ a ∈ xs, ∀ s, ¬ Ends P (f a) s) (s : σ) : ¬ Ends P (xs.forM f) s := by
  induction xs generalizing s with
  | nil => exact not_ends_pure _
  | cons a rest ih =>
      exact not_ends_bind (each a List.mem_cons_self s) fun _ =>
        ih fun b member => each b (List.mem_cons_of_mem a member)

end Snippet
