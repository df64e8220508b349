import Snippet.Proofs.Eval.Evaluated

/-!
Putting a value into a list or a dict. Both are weighed before the position is evaluated; until then
a list can gain one item at most, and a dict none.
-/

set_option autoImplicit false

namespace Snippet

open Value (solids solidEntries weight)
open Eval (Keeps KeepsAt Pends Safe SafeAt)
open Subscript (IsShort Weighed)

variable {w : Limits} {k : Nat} {s s' : Store} {a v : Value}

namespace Value

theorem solids_le_of_light {r : Ref} (light : weight s maxLength (.list r) ≤ maxLength) :
    solids (s.items r) ≤ maxLength :=
  (solids_le_weight (v := .list r) rfl light).trans light

theorem solidEntries_le_of_light {r : Ref} (light : weight s maxLength (.dict r) ≤ maxLength) :
    solidEntries (s.entries r) ≤ maxLength :=
  (solidEntries_le_weight light).trans light

end Value

-- The lists and dicts among the two are known to be light until the next statement.
theorem Store.Within.weighed (within : s.Within w) (of_a : a.Within w) (of_v : v.Within w)
    (light_a : weight s maxLength a ≤ maxLength) (light_v : weight s maxLength v ≤ maxLength) :
    ∃ w', w.Grows 0 w' ∧ s.Within w' ∧ Weighed w' a v := by
  have lists : {r | a = .list r ∨ v = .list r} ⊆ w.lists := by
    rintro r (rfl | rfl)
    · cases of_a with | list known => exact known
    · cases of_v with | list known => exact known
  have dicts : {r | a = .dict r} ⊆ w.dicts := by
    rintro r rfl
    cases of_a with | dict known => exact known
  refine ⟨w.weighing _ _ lists dicts, w.grows_weighing lists dicts,
    within.weighing lists dicts ?_ ?_, ⟨fun r same => ⟨.inr (.inl same), ?_⟩, fun r same => .inr same⟩⟩
  · rintro r (rfl | rfl)
    · exact Value.solids_le_of_light light_a
    · exact Value.solids_le_of_light light_v
  · rintro r rfl
    exact Value.solidEntries_le_of_light light_a
  · cases v with
    | text tag t | raw tag t =>
        rwa [weight, Value.weighAt_leaf rfl, Nat.zero_add] at light_v
    | list q => exact .inr (.inr rfl)
    | _ => trivial

namespace Evaluate

variable {P : Text → Prop} {env : Env} {chars : Nat}

/-- The expressions of a subscript. -/
def subscriptParts : Snippet.Subscript → List Expr
  | .item e => [e]
  | .slice _ lower upper step => lower.toList ++ upper.toList ++ step.toList

/-- What follows the check: the position is evaluated, and then the container changed. -/
def place (env : Env) (container : Value) (sub : Snippet.Subscript) (value : Value) : Eval Unit := do
  match sub with
  | .item e => Subscript.setItem container (← eval env e) value
  | .slice _ lower upper step =>
      Subscript.setSlice container (← slice (eval env) lower upper step) value

theorem safeAt_place {sub : Snippet.Subscript} (within : env.Within w chars)
    (fits : ∀ e ∈ subscriptParts sub, e.Fits P chars) (held : s.Within w) (of_a : a.Within w)
    (of_v : v.Within w) (weighed : Weighed w a v) :
    SafeAt w.settled ((subscriptParts sub).map Expr.subtractions).sum s (place env a sub v)
      fun _ _ => True := by
  have safe {e : Expr} (member : e ∈ subscriptParts sub) : IsSafe env chars (eval env) e :=
    isSafe_evalAt evalBudget (fits e member)
  cases sub with
  | item e =>
      have position := safe (e := e) (by simp [subscriptParts]) w within s held
      refine position.bind_settled fun after i s' grows held' of_i => ?_
      exact (Subscript.keepsAt_setItem held' (of_a.grow grows) of_i (of_v.grow grows)
        (weighed.grow grows)).safeAt
  | slice column lower upper step =>
      have of_lower : ∀ i ∈ lower, IsSafe env chars (eval env) i := fun i same =>
        safe (by simp [subscriptParts, Option.mem_def.mp same])
      have of_upper : ∀ i ∈ upper, IsSafe env chars (eval env) i := fun i same =>
        safe (by simp [subscriptParts, Option.mem_def.mp same])
      have of_step : ∀ i ∈ step, IsSafe env chars (eval env) i := fun i same =>
        safe (by simp [subscriptParts, Option.mem_def.mp same])
      have positions := safe_slice of_lower of_upper of_step within s held
      refine SafeAt.of_eq (positions.bind_settled fun after i s' grows held' _ => ?_) (Nat.add_zero _)
      exact (Subscript.keepsAt_setSlice held' (of_a.grow grows) i (of_v.grow grows)
        (weighed.grow grows)).safeAt

-- A container that is a list or a dict is refused with a value that is too heavy together with it.
theorem safeAt_checkedPlace {sub : Snippet.Subscript} (within : env.Within w chars)
    (fits : ∀ e ∈ subscriptParts sub, e.Fits P chars) (held : s.Within w) (of_a : a.Within w)
    (of_v : v.Within w) :
    SafeAt w.settled ((subscriptParts sub).map Expr.subtractions).sum s
      (do
        let s ← get
        if weight s maxLength a + weight s maxLength v > maxLength then Eval.fail .resultTooLarge
        place env a sub v)
      fun _ _ => True := by
  show SafeAt _ _ s (if weight s maxLength a + weight s maxLength v > maxLength then _ else _) _
  split
  · exact (Safe.keeps_bind (P := fun _ => False) (Keeps.fail _) nofun) s held.settled
  · rename_i light
    obtain ⟨w', grows, held', weighed⟩ := held.weighed of_a of_v (by omega) (by omega)
    have placed := safeAt_place (within.grow grows) fits held' (of_a.grow grows) (of_v.grow grows)
      weighed
    exact placed.of_grows grows.settled

theorem safe_reading_bind {α β : Type} {r : Except ReadError α} {next : α → Eval β}
    {Q : Limits → β → Prop} (then_ : ∀ a, r = .ok a → Safe w k (next a) Q) :
    Safe w k (reading r >>= next) Q := by
  cases r with
  | ok a => exact then_ a rfl
  | error e => cases e <;> exact Safe.throw _

theorem parts_index (column : Nat) (base : Expr) (sub : Snippet.Subscript) :
    (Expr.index column base sub).parts = base :: subscriptParts sub := by
  cases sub <;> rfl

theorem fits_index {column : Nat} {base : Expr} {sub : Snippet.Subscript}
    (fits : (Expr.index column base sub).Fits P chars) :
    base.Fits P chars ∧ ∀ e ∈ subscriptParts sub, e.Fits P chars := by
  cases fits with
  | item column base position => exact ⟨base, List.forall_mem_singleton.mpr position⟩
  | slice column start base lower upper step =>
      refine ⟨base, fun e member => ?_⟩
      simp only [subscriptParts, List.mem_append, Option.mem_toList] at member
      obtain (member | member) | member := member
      · exact lower e member
      · exact upper e member
      · exact step e member

/-- An item is put into a container within limits, which lose what was weighed for it. -/
theorem safe_assignItem {target : Text} (within : env.Within w.settled chars)
    (of_v : v.Within w.settled) (short : ∀ e, Expr.read target = .ok e → e.longestText ≤ chars)
    (cost : ∀ e, Expr.read target = .ok e → e.subtractions ≤ k) :
    Safe w.settled k (assignItem env target v) fun _ _ => True := by
  unfold assignItem
  refine safe_reading_bind fun e read => ?_
  have fits := (Expr.identified_of_read read).fits (short e read)
  refine Safe.widen ?_ grows_any (cost e read)
  cases e with
  | index column base sub =>
      obtain ⟨of_base, of_sub⟩ := fits_index fits
      rw [Expr.subtractions_eq, parts_index, List.map_cons, List.sum_cons]
      intro s held
      refine SafeAt.of_eq (j := base.subtractions + _) ?_ (Nat.zero_add _).symm
      refine (isSafe_evalAt evalBudget of_base _ within s held).bind_settled
        fun after a s' grows held' of_a => ?_
      have checked := safeAt_checkedPlace (within.grow grows) of_sub held' of_a (of_v.grow grows)
      cases a with
      | list r => exact checked
      | dict r => exact checked
      | _ =>
          exact safeAt_place (within.grow grows) of_sub held' of_a (of_v.grow grows)
            ⟨by simp, by simp⟩
  | _ => exact Safe.throw _

end Evaluate

end Snippet
