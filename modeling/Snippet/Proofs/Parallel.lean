import Snippet.ReadError

/-!
Two readings of the same, side by side: both fail, or their results are related.
-/

set_option autoImplicit false

namespace Snippet

variable {α β γ δ : Type}

/-- The same up to what a function leaves out, such as columns. -/
def Same (f : α → β) (a a' : α) : Prop :=
  f a = f a'

theorem Same.cons {f : α → β} {a a' : α} {l l' : List α} (first : Same f a a')
    (rest : Same (List.map f) l l') : Same (List.map f) (a :: l) (a' :: l') := by
  have heads : f a = f a' := first
  have tails : l.map f = l'.map f := rest
  rw [Same, List.map_cons, List.map_cons, heads, tails]

/-- Both readings fail, or both give related results. The second one may also run out of nesting. -/
inductive Parallel (Q : α → β → Prop) : Except ReadError α → Except ReadError β → Prop where
  | deep {x : Except ReadError α} : Parallel Q x (.error .tooDeep)
  | failed {e e' : ReadError} : Parallel Q (.error e) (.error e')
  | read {a : α} {b : β} (result : Q a b) : Parallel Q (.ok a) (.ok b)

namespace Parallel

variable {Q Q' : α → β → Prop} {R : γ → δ → Prop} {x : Except ReadError α} {y : Except ReadError β}

theorem mono (h : Parallel Q x y) (weaker : ∀ a b, Q a b → Q' a b) : Parallel Q' x y := by
  cases h with
  | deep => exact .deep
  | failed => exact .failed
  | read result => exact .read (weaker _ _ result)

-- What is related was read by the first of both.
theorem of_read (h : Parallel Q x y) : Parallel (fun a b => x = .ok a ∧ Q a b) x y := by
  cases h with
  | deep => exact .deep
  | failed => exact .failed
  | read result => exact .read ⟨rfl, result⟩

theorem bind {k : α → Except ReadError γ} {l : β → Except ReadError δ} (h : Parallel Q x y)
    (next : ∀ a b, Q a b → Parallel R (k a) (l b)) : Parallel R (x >>= k) (y >>= l) := by
  cases h with
  | deep => exact .deep
  | failed => exact .failed
  | read result => exact next _ _ result

theorem map {f : α → γ} {g : β → δ} (h : Parallel Q x y) (related : ∀ a b, Q a b → R (f a) (g b)) :
    Parallel R (x.map f) (y.map g) := by
  cases h with
  | deep => exact .deep
  | failed => exact .failed
  | read result => exact .read (related _ _ result)

theorem mapM {f f' : γ → Except ReadError α} {g : α → β}
    (each : ∀ c, Parallel (Same g) (f c) (f' c)) (cs : List γ) :
    Parallel (Same (List.map g)) (cs.mapM f) (cs.mapM f') := by
  induction cs with
  | nil => exact .read rfl
  | cons c cs ih =>
      rw [List.mapM_cons, List.mapM_cons]
      refine (each c).bind fun a a' first => ih.bind fun rest rest' others => ?_
      exact .read (first.cons others)

end Parallel

end Snippet
