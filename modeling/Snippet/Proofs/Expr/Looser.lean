import Snippet.Proofs.Expr.Twin

/-!
Looser levels up to the end. Where nothing is left behind an expression, every looser level reads
the same, and fails the same.
-/

set_option autoImplicit false

namespace Snippet.Grammar

open Reader

variable {ts : List Token} {result : Except ReadError (Expr × Tokens)}

/-- An expression that is read up to the end. -/
def ToEnd (result : Except ReadError (Expr × Tokens)) : Prop :=
  ∀ e rest, result = .ok (e, rest) → ∃ last, rest = .ofList [last] ∧ last.kind = .finish

theorem toEnd_error (e : ReadError) : ToEnd (.error e) :=
  nofun

theorem toEnd_ok {e : Expr} {last : Token} (end_ : last.kind = .finish) :
    ToEnd (.ok (e, .ofList [last])) := by
  rintro _ _ ⟨⟩
  exact ⟨last, rfl, end_⟩

theorem bind_toEnd {r : Reader Expr} {k : Expr → Reader Expr} (ran : r (.ofList ts) = result)
    (toEnd : ToEnd result)
    (stays : ∀ e last, last.kind = .finish → k e (.ofList [last]) = .ok (e, .ofList [last])) :
    (r >>= k) (.ofList ts) = result := by
  rw [bind_run, ran]
  cases result with
  | error e => rfl
  | ok found =>
      obtain ⟨e, rest⟩ := found
      obtain ⟨last, rfl, end_⟩ := toEnd e rest rfl
      exact stays e last end_

theorem accept_end {kind : TokenKind} {k : Bool → Reader Expr} {last : Token}
    (end_ : last.kind = .finish) (inner : kind ≠ .finish) :
    (accept kind >>= k) (.ofList [last]) = k false (.ofList [last]) := by
  have other : last.kind ≠ kind := by
    rw [end_]
    exact inner.symm
  rw [bind_run, accept_cons fun same => absurd same other, if_neg (by simpa using other)]

-- Behind a token that starts no looser expression, only the end decides that a level has nothing
-- to add.
theorem level_looser {levels : Levels} {l : Level} (inside : l ≠ .atom)
    (starting : starts .atom (nextKind ts) = true) (ran : levels l.tighter (.ofList ts) = result)
    (toEnd : ToEnd result) : level levels l (.ofList ts) = result := by
  have looked : peek (.ofList ts) = .ok (ts.head?.getD (.finishAt 1), .ofList ts) := by
    refine peek_run ?_
    rintro rfl
    contradiction
  cases l with
  | conditional =>
      exact bind_toEnd ran toEnd fun e last end_ => accept_end end_ (by decide)
  | or | and | sum | product =>
      refine bind_toEnd ran toEnd fun e last end_ => chainLoop_ends (List.cons_ne_nil _ _) ?_ _ _
      rw [nextKind_cons, end_]
      rfl
  | not =>
      have other : (nextKind ts == .not) = false := by
        refine beq_false_of_ne fun negated => ?_
        rw [negated] at starting
        contradiction
      rw [nextKind] at other
      simp only [level, bind_run, looked, other]
      exact ran
  | comparison =>
      refine bind_toEnd ran toEnd fun e last end_ => ?_
      have stopped : stops .comparison (nextKind [last]) = true := by
        rw [nextKind_cons, end_]
        rfl
      obtain ⟨_, ⟨_, rfl, rfl⟩, none⟩ :=
        (takes_linksLoop_nil (levels .sum) 1 [last] stopped (List.cons_ne_nil _ _) [] rfl).1 trivial
      show (linksLoop (levels .sum) 1 >>= fun links =>
        if links.isEmpty then pure e else pure (.compare e.column e links)) (.ofList [last]) = _
      rw [bind_run, show linksLoop (levels .sum) 1 (.ofList [last]) = _ from none]
      rfl
  | unary =>
      have unsigned : signOp? (nextKind ts) = none := by
        cases kind : nextKind ts <;> rw [kind] at starting <;> first | rfl | contradiction
      rw [nextKind] at unsigned
      simp only [level, bind_run, looked, unsigned]
      exact ran
  | power => exact bind_toEnd ran toEnd fun e last end_ => accept_end end_ (by decide)
  | trailed =>
      refine bind_toEnd ran toEnd fun e last end_ => trailersLoop_ends (List.cons_ne_nil _ _) ?_ _ _
      rw [nextKind_cons, end_]
      rfl
  | atom => contradiction

theorem readAt_looser {budget steps : Nat} {l tight : Level} (apart : l.rank + steps = tight.rank)
    (starting : starts .atom (nextKind ts) = true) (ran : readAt budget tight (.ofList ts) = result)
    (toEnd : ToEnd result) : readAt (budget + steps) l (.ofList ts) = result := by
  induction steps generalizing l with
  | zero =>
      obtain rfl : l = tight := Level.eq_of_rank_eq apart
      exact ran
  | succ steps ih =>
      have inside : l ≠ .atom := by
        rintro rfl
        have := Level.rank_le_atom tight
        omega
      have next := Level.rank_tighter inside
      exact level_looser inside starting (ih (by omega)) toEnd

-- No comma is left for a tuple.
theorem exprList_looser {budget : Nat} {tight : Level} (starting : starts .atom (nextKind ts) = true)
    (ran : readAt budget tight (.ofList ts) = result) (toEnd : ToEnd result) :
    exprList (readAt (budget + tight.rank)) (.ofList ts) = result := by
  have whole := readAt_looser (l := .conditional) (Nat.zero_add _) starting ran toEnd
  refine bind_toEnd whole toEnd fun e last end_ => ?_
  show (if last.kind == .comma then _ else pure e : Reader Expr) (.ofList [last]) = _
  rw [end_]
  rfl

end Snippet.Grammar
