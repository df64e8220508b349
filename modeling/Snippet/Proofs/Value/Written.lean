import Snippet.Value.Render

/-!
Values that cannot be written: an integer with too many digits, a nesting that exceeds the budget,
or a container that shows such a value.
-/

set_option autoImplicit false

namespace Snippet

section Fails

variable {ε α β : Type}

def Fails (r : Except ε α) : Prop :=
  ∃ e, r = .error e

theorem fails_error (e : ε) : Fails (Except.error e : Except ε α) :=
  ⟨e, rfl⟩

@[simp] theorem not_fails_ok (a : α) : ¬ Fails (Except.ok a : Except ε α) := by
  rintro ⟨e, failed⟩
  contradiction

theorem fails_map (f : α → β) (r : Except ε α) : Fails (f <$> r) ↔ Fails r := by
  cases r with
  | ok a => exact ⟨fun h => absurd h (not_fails_ok _), fun h => absurd h (not_fails_ok _)⟩
  | error e => exact ⟨fun _ => fails_error e, fun _ => fails_error e⟩

theorem fails_bind (r : Except ε α) (f : α → Except ε β) :
    Fails (r >>= f) ↔ Fails r ∨ ∃ a, r = .ok a ∧ Fails (f a) := by
  cases r with
  | ok a =>
      refine ⟨fun h => .inr ⟨a, rfl, h⟩, ?_⟩
      rintro (failed | ⟨b, same, failed⟩)
      · exact absurd failed (not_fails_ok _)
      · cases same
        exact failed
  | error e => exact ⟨fun _ => .inl (fails_error e), fun _ => fails_error e⟩

@[simp] theorem not_fails_pure (a : α) : ¬ Fails (pure a : Except ε α) :=
  not_fails_ok a

theorem fails_bind_pure (r : Except ε α) (f : α → β) :
    Fails (r >>= fun a => pure (f a)) ↔ Fails r := by
  simp only [fails_bind, not_fails_pure, and_false, exists_false, or_false]

theorem fails_mapM (f : α → Except ε β) (xs : List α) :
    Fails (xs.mapM f) ↔ ∃ x ∈ xs, Fails (f x) := by
  induction xs with
  | nil => simp
  | cons x rest ih =>
      rw [List.mapM_cons, fails_bind]
      constructor
      · rintro (failed | ⟨y, -, failed⟩)
        · exact ⟨x, by simp, failed⟩
        · rw [fails_bind, ih] at failed
          obtain ⟨z, member, failed⟩ | ⟨ys, -, failed⟩ := failed
          · exact ⟨z, by simp [member], failed⟩
          · exact absurd failed (not_fails_ok _)
      · rintro ⟨z, member, failed⟩
        cases first : f x with
        | error e => exact .inl (fails_error e)
        | ok y =>
            refine .inr ⟨y, rfl, ?_⟩
            rw [fails_bind, ih]
            obtain rfl | later := List.mem_cons.mp member
            · rw [first] at failed
              exact absurd failed (not_fails_ok _)
            · exact .inl ⟨z, later, failed⟩

theorem mapM_error {f : α → Except ε β} {xs : List α} {e : ε} (h : xs.mapM f = .error e) :
    ∃ x ∈ xs, f x = .error e := by
  induction xs with
  | nil => cases h
  | cons x rest ih =>
      rw [List.mapM_cons] at h
      cases first : f x with
      | error inner =>
          rw [first] at h
          cases h
          exact ⟨x, by simp, first⟩
      | ok y =>
          cases later : rest.mapM f with
          | error inner =>
              rw [first, later] at h
              cases h
              obtain ⟨z, member, failed⟩ := ih later
              exact ⟨z, by simp [member], failed⟩
          | ok ys =>
              rw [first, later] at h
              cases h

theorem bind_pure_error {r : Except ε α} {f : α → β} {e : ε}
    (h : (r >>= fun a => pure (f a)) = .error e) : r = .error e := by
  cases r with
  | ok a => cases h
  | error inner =>
      cases h
      rfl

end Fails

namespace Value

-- What a container shows of itself below a path, part by part.
def parts (s : Store) (path : Path) : Value → List Value
  | tuple _ items => items
  | list r => s.items r
  | dict r => (s.entries r).flatMap fun e => [e.1, e.2]
  | view _ kind r => shownItems s path kind r
  | _ => []

-- An integer with too many digits.
def IsLong : Value → Prop
  | int _ n => decimalCap ≤ n.natAbs
  | _ => False

/-- A value that cannot be written below the containers of a path. A container on the path is cut
short, so that its parts do not matter. -/
inductive UnwritableAt (s : Store) : Nat → Path → Value → Prop
  | deep {path : Path} {v : Value} : UnwritableAt s 0 path v
  | long {budget : Nat} {path : Path} {v : Value} : v.IsLong → UnwritableAt s (budget + 1) path v
  | inside {budget : Nat} {path : Path} {v part : Value} :
      path.any (same v) = false → part ∈ v.parts s path → UnwritableAt s budget (v :: path) part →
      UnwritableAt s (budget + 1) path v

theorem fails_renderItems (render : Renderer) (items : List Value) :
    Fails (renderItems render items) ↔ ∃ v ∈ items, Fails (render v) := by
  rw [renderItems, fails_map, fails_mapM]

theorem fails_renderEntry (render : Renderer) (e : Value × Value) :
    Fails (renderEntry render e) ↔ Fails (render e.1) ∨ Fails (render e.2) := by
  rw [renderEntry, fails_bind]
  simp only [fails_bind_pure]
  cases first : render e.1 with
  | error b => simp [fails_error]
  | ok t => simp

theorem fails_renderScalar (v : Value) : Fails (renderScalar v) ↔ v.IsLong := by
  cases v with
  | int tag n =>
      rw [renderScalar, intText?]
      split
      · rename_i long
        exact ⟨fun _ => long, fun _ => fails_error _⟩
      · rename_i short
        exact ⟨fun h => absurd h (not_fails_ok _), fun long => absurd long short⟩
  | _ => exact ⟨fun h => absurd h (not_fails_ok _), False.elim⟩

-- An open container is written; any other one if all of its parts are.
theorem fails_renderStep (render : Path → Renderer) (s : Store) (path : Path) (v : Value) :
    Fails (renderStep render s path v) ↔
      v.IsLong ∨ path.any (same v) = false ∧ ∃ part ∈ v.parts s path, Fails (render (v :: path) part) := by
  have container {r : Except Breach Text} {t : Text} (no_int : ¬ v.IsLong)
      (inside : Fails r ↔ ∃ part ∈ v.parts s path, Fails (render (v :: path) part)) :
      Fails (if path.any (same v) = true then .ok t else r) ↔ v.IsLong ∨
        path.any (same v) = false ∧ ∃ part ∈ v.parts s path, Fails (render (v :: path) part) := by
    split
    · rename_i is_open
      simp [is_open, no_int]
    · rename_i is_open
      simp only [Bool.not_eq_true] at is_open
      simp only [is_open, no_int, false_or, true_and, inside]
  cases v with
  | tuple tag items =>
      apply container id
      split
      · simp only [fails_bind_pure, parts, List.mem_singleton, exists_eq_left]
      · rw [fails_bind_pure, fails_renderItems]
        rfl
  | list r =>
      apply container id
      rw [fails_bind_pure, fails_renderItems]
      rfl
  | dict r =>
      apply container id
      rw [fails_bind_pure, fails_mapM]
      simp only [fails_renderEntry, parts, List.mem_flatMap, List.mem_cons, List.not_mem_nil,
        or_false]
      constructor
      · rintro ⟨e, member, failed | failed⟩
        · exact ⟨e.1, ⟨e, member, .inl rfl⟩, failed⟩
        · exact ⟨e.2, ⟨e, member, .inr rfl⟩, failed⟩
      · rintro ⟨v, ⟨e, member, rfl | rfl⟩, failed⟩
        · exact ⟨e, member, .inl failed⟩
        · exact ⟨e, member, .inr failed⟩
  | view tag kind r =>
      apply container id
      rw [fails_bind_pure, fails_renderItems]
      rfl
  | _ => simpa [renderStep, parts] using fails_renderScalar _

-- What cannot be written, as deep as a budget allows.
theorem fails_renderAt (s : Store) (budget : Nat) (path : Path) (v : Value) :
    Fails (renderAt s budget path v) ↔ UnwritableAt s budget path v := by
  induction budget generalizing path v with
  | zero => exact ⟨fun _ => .deep, fun _ => fails_error _⟩
  | succ budget ih =>
      rw [renderAt, fails_renderStep]
      simp only [ih]
      constructor
      · rintro (long | ⟨closed, part, member, blocked⟩)
        · exact .long long
        · exact .inside closed member blocked
      · intro h
        cases h with
        | long long => exact .inl long
        | inside closed member blocked => exact .inr ⟨closed, _, member, blocked⟩

def Unwritable (s : Store) (v : Value) : Prop :=
  UnwritableAt s depthBudget [] v

theorem fails_written (s : Store) (v : Value) : Fails (written s v) ↔ Unwritable s v :=
  fails_renderAt s depthBudget [] v

theorem renderItems_error {render : Renderer} {items : List Value} {b : Breach}
    (h : renderItems render items = .error b) : ∃ v, render v = .error b := by
  obtain ⟨v, -, failed⟩ := mapM_error (bind_pure_error h)
  exact ⟨v, failed⟩

theorem renderEntry_error {render : Renderer} {e : Value × Value} {b : Breach}
    (h : renderEntry render e = .error b) : ∃ v, render v = .error b := by
  cases first : render e.1 with
  | error inner =>
      rw [renderEntry, first] at h
      cases h
      exact ⟨_, first⟩
  | ok t =>
      rw [renderEntry, first] at h
      exact ⟨_, bind_pure_error h⟩

-- Writing fails with a broken rule of the value itself.
theorem renderAt_error {s : Store} {budget : Nat} {path : Path} {v : Value} {b : Breach}
    (h : renderAt s budget path v = .error b) : b = .depth ∨ b = .value := by
  induction budget generalizing path v with
  | zero =>
      cases h
      exact .inl rfl
  | succ budget ih =>
      have ended : (∃ v', renderAt s budget (v :: path) v' = .error b) → b = .depth ∨ b = .value :=
        fun ⟨_, failed⟩ => ih failed
      rw [renderAt] at h
      cases v with
      | tuple tag items =>
          simp only [renderStep] at h
          split at h
          · cases h
          · split at h
            · exact ended ⟨_, bind_pure_error h⟩
            · exact ended (renderItems_error (bind_pure_error h))
      | list r =>
          simp only [renderStep] at h
          split at h
          · cases h
          · exact ended (renderItems_error (bind_pure_error h))
      | dict r =>
          simp only [renderStep] at h
          split at h
          · cases h
          · obtain ⟨e, -, failed⟩ := mapM_error (bind_pure_error h)
            exact ended (renderEntry_error failed)
      | view tag kind r =>
          simp only [renderStep] at h
          split at h
          · cases h
          · exact ended (renderItems_error (bind_pure_error h))
      | int tag n =>
          simp only [renderStep, renderScalar, intText?] at h
          split at h <;> cases h
          exact .inr rfl
      | _ => cases h

theorem shown_error {s : Store} {v : Value} {b : Breach} (h : shown s v = .error b) :
    b = .depth ∨ b = .value := by
  cases v with
  | text tag t | raw tag t => cases h
  | _ => exact renderAt_error h

end Value

end Snippet
