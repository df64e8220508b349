import Snippet.Proofs.Expr.Pairing

/-!
Loops on pairs of token lists. Each turn takes a token, and both lists have turns enough, so a loop
whose turns are read alike is read alike.
-/

set_option autoImplicit false

namespace Snippet.Grammar

open Reader

namespace Pairing

variable {P : Pairing} {n : Nat} {d : Int} {α β : Type} {f : α → β}

/-- A loop that has read something so far. With turns for all tokens it is read alike, if one turn
is, given the turns after it. -/
theorem agree_loop {ι κ : Type} {I : ι → κ → Prop} {Q : α → β → Prop} {F : Nat → ι → Reader α}
    {G : Nat → κ → Reader β}
    (turn : ∀ {n turns turns' i j}, I i j →
      (∀ {m i j}, m < n → I i j → P.Agree m d d Q (F turns i) (G turns' j)) →
      P.Agree n d d Q (F (turns + 1) i) (G (turns' + 1) j))
    {turns turns' : Nat} (enough : n ≤ turns) (enough' : n + P.extra ≤ turns') {i : ι} {j : κ}
    (related : I i j) : P.Agree n d d Q (F turns i) (G turns' j) := by
  -- The lists of a pair are not empty.
  have nothing {r : Reader α} {r' : Reader β} : P.Agree 0 d d Q r r' := fun ts us pair fits =>
    absurd (List.eq_nil_of_length_eq_zero (Nat.le_zero.mp fits)) (P.ended pair)
  induction turns generalizing n turns' i j with
  | zero =>
      obtain rfl := Nat.le_zero.mp enough
      exact nothing
  | succ turns ih =>
      cases turns' with
      | zero =>
          obtain rfl : n = 0 := by omega
          exact nothing
      | succ turns' => exact turn related fun less related => ih (by omega) (by omega) related

theorem agree_turns {Q : α → β → Prop} {F : Nat → Reader α} {G : Nat → Reader β}
    (turn : ∀ {n turns turns'}, (∀ {m}, m < n → P.Agree m d d Q (F turns) (G turns')) →
      P.Agree n d d Q (F (turns + 1)) (G (turns' + 1)))
    {turns turns' : Nat} (enough : n ≤ turns) (enough' : n + P.extra ≤ turns') :
    P.Agree n d d Q (F turns) (G turns') :=
  agree_loop (I := fun (_ _ : Unit) => True) (F := fun turns _ => F turns)
    (G := fun turns _ => G turns)
    (fun _ later => turn fun less => later (i := ()) (j := ()) less trivial)
    enough enough' (i := ()) (j := ()) trivial

/-! ### Loops -/

/-- Operators that join expressions up to their columns; none of them is a bracket or the end. -/
structure Joins (join? : TokenKind → Option (Expr → Expr → Expr)) : Prop where
  inner : ∀ {k join}, join? k = some join → k ≠ .finish
  level : ∀ {k join}, join? k = some join → ∀ d, depthAfter d k = d
  same : ∀ {k join}, join? k = some join → ∀ {l l' r r'}, Same Expr.bare l l' →
    Same Expr.bare r r' → Same Expr.bare (join l r) (join l' r')

theorem Joins.none {join? : TokenKind → Option (Expr → Expr → Expr)} (joins : Joins join?) :
    join? .finish = none ∧ join? .closeParen = none := by
  constructor
  · cases found : join? .finish with
    | none => rfl
    | some join => exact absurd rfl (joins.inner found)
  · cases found : join? .closeParen with
    | none => rfl
    | some join => exact absurd (joins.level found 0) (by decide)

-- With what follows inside the branches, where it is known which tokens are taken.
theorem comparison?_bind {γ : Type} (k : Option Comparison → Reader γ) :
    comparison? >>= k = peek >>= fun token =>
      match comparisonOf? token.kind with
      | some op => advance >>= fun _ => k (some op)
      | none =>
          if token.kind == .is then
            advance >>= fun _ => accept .not >>= fun again =>
              k (some (if again then .notSame else .same))
          else if token.kind == .not then
            peekSecond >>= fun second =>
              if second.kind == .in then advance >>= fun _ => advance >>= fun _ => k (some .notIn)
              else k none
          else peekSecond >>= fun _ => k none := by
  rw [comparison?, bind_assoc]
  refine congrArg (peek >>= ·) (funext fun token => ?_)
  cases comparisonOf? token.kind with
  | some op => exact bind_assoc ..
  | none =>
      cases token.kind == .is with
      | true =>
          show (advance >>= fun _ => accept .not >>= fun again => pure _) >>= k = _
          rw [bind_assoc]
          refine congrArg (advance >>= ·) (funext fun _ => ?_)
          rw [bind_assoc]
          rfl
      | false =>
          show (peekSecond >>= fun second => _) >>= k = _
          rw [bind_assoc]
          cases token.kind == .not with
          | true =>
              refine congrArg (peekSecond >>= ·) (funext fun second => ?_)
              cases second.kind == .in with
              | true => simp only [Bool.and_self, if_true, bind_assoc, pure_bind]
              | false => rfl
          | false => rfl

theorem comparisonOf?_depth {kind : TokenKind} {op : Comparison}
    (found : comparisonOf? kind = some op) (d : Int) : kind ≠ .finish ∧ depthAfter d kind = d := by
  cases kind <;> first | exact ⟨by decide, rfl⟩ | contradiction

theorem agree_comparison? {γ δ : Type} {R : γ → δ → Prop} {k : Option Comparison → Reader γ}
    {k' : Option Comparison → Reader δ} {d' : Int}
    (none : P.Agree n d d' R (k none) (k' none))
    (some : ∀ op m, m < n → P.Agree m d d' R (k (some op)) (k' (some op))) :
    P.Agree n d d' R (comparison? >>= k) (comparison? >>= k') := by
  rw [comparison?_bind, comparison?_bind]
  refine .peek_at (fun t u equal => ?_) fun t u ended closing => ?_
  · have kind : u.kind = t.kind := (Symbol.mk.inj equal).1.symm
    rw [kind]
    cases found : comparisonOf? t.kind with
    | some op =>
        obtain ⟨inner, level⟩ := comparisonOf?_depth found d
        refine .advance_bind equal rfl inner fun m less => ?_
        rw [level]
        exact some op m less
    | none =>
        by_cases is : t.kind = .is
        · simp only [is, beq_self_eq_true, if_true]
          refine .advance_bind equal is nofun fun m less => ?_
          exact .accept_bind (alike_of_eq rfl) nofun
            (fun l shorter => some _ l (Nat.lt_trans shorter less))
            (some _ m less)
        · by_cases not : t.kind = .not
          · simp only [not, beq_self_eq_true, if_true, show (TokenKind.not == .is) = false from rfl,
              Bool.false_eq_true, if_false]
            refine .peekSecond_bind equal (by rw [not]; nofun) (by rw [not]; rfl) (alike_of_eq rfl)
              nofun (fun m less => some _ m less) none.at_
          · simp only [beq_false_of_ne is, beq_false_of_ne not, Bool.false_eq_true, if_false]
            exact .peekSecond_any none.at_
  · simp only [ended, closing]
    exact AgreeAt.peekSecond_any none.at_

section Loops

variable {operand operand' : Reader Expr} 
  (of_operand : ∀ m, P.Agree m d d (Same Expr.bare) operand operand')
include of_operand

theorem agree_chainLoop {join? : TokenKind → Option (Expr → Expr → Expr)} (joins : Joins join?)
    {turns turns' : Nat} (enough : n ≤ turns) (enough' : n + P.extra ≤ turns') {left left' : Expr}
    (of_left : Same Expr.bare left left') :
    P.Agree n d d (Same Expr.bare) (chainLoop operand join? turns left)
      (chainLoop operand' join? turns' left') := by
  refine agree_loop (fun {n turns turns' left left'} of_left later => ?_) enough enough' of_left
  refine .peek_at (fun t u equal => ?_) fun t u ended closing => ?_
  · have kind : u.kind = t.kind := (Symbol.mk.inj equal).1.symm
    cases found : join? t.kind with
    | none =>
        simp only [found, kind]
        exact Agree.at_ (.pure of_left)
    | some join =>
        simp only [found, kind]
        refine .advance_bind equal rfl (joins.inner found) fun m less => ?_
        rw [joins.level found]
        refine (of_operand m).bind fun right right' of_right => ?_
        exact later less (joins.same found of_left of_right)
  · simp only [ended, closing, joins.none]
    exact Agree.at_ (.pure of_left)

theorem agree_chain {join? : TokenKind → Option (Expr → Expr → Expr)} (joins : Joins join?) :
    P.Agree n d d (Same Expr.bare) (chain operand join?) (chain operand' join?) :=
  (of_operand n).bind fun _ _ of_left => .remaining_bind fun _ _ =>
    agree_chainLoop of_operand joins (Nat.le_refl _) (Nat.le_refl _) of_left

theorem agree_linksLoop {turns turns' : Nat} (enough : n ≤ turns) (enough' : n + P.extra ≤ turns') :
    P.Agree n d d (Same (List.map fun l => (l.1, l.2.bare))) (linksLoop operand turns)
      (linksLoop operand' turns') := by
  refine agree_turns (fun {n turns turns'} later => ?_) enough enough'
  refine agree_comparison? (.pure rfl) fun op m less => ?_
  refine (of_operand m).bind fun right right' of_right => ?_
  refine (later less).bind fun rest rest' of_rest => .pure ?_
  exact .cons (congrArg (op, ·) of_right) of_rest

end Loops

section Items

variable {item item' : Reader α} (of_item : ∀ m, P.Agree m d d (Same f) item item')
include of_item

theorem agree_moreItems {goesOn goesOn' : TokenKind → Bool}
    (alike : ∀ ⦃t ts u us⦄, P.Pair d (t :: ts) (u :: us) → goesOn t.kind = goesOn' u.kind)
    {turns turns' : Nat} (enough : n ≤ turns) (enough' : n + P.extra ≤ turns') :
    P.Agree n d d (Same (List.map f)) (moreItems item goesOn turns)
      (moreItems item' goesOn' turns') := by
  refine agree_turns (fun {n turns turns'} later => ?_) enough enough'
  refine .accept_bind (alike_of_eq rfl) nofun (fun m less => ?_) (.pure rfl)
  refine .peek fun t ts u us pair => ?_
  rw [← alike pair]
  split
  · refine (of_item m).bind fun first first' of_first => ?_
    refine (later less).bind fun rest rest' of_rest => .pure ?_
    exact .cons of_first of_rest
  · exact .pure rfl

theorem agree_itemsUntil {closing : TokenKind} (alike : P.Alike d (· == closing)) :
    P.Agree n d d (Same (List.map f)) (itemsUntil item closing) (itemsUntil item' closing) := by
  refine .peek fun t ts u us pair => ?_
  rw [← show (t.kind == closing) = (u.kind == closing) from alike pair]
  split
  · exact .pure rfl
  · refine (of_item n).bind fun first first' of_first => .remaining_bind fun m _ => ?_
    refine (agree_moreItems of_item ?_ (Nat.le_refl _) (Nat.le_refl _)).bind ?_
    · exact fun t ts u us pair => congrArg (!·) (alike pair)
    · exact fun rest rest' of_rest => .pure (.cons of_first of_rest)

end Items

end Pairing

end Snippet.Grammar
