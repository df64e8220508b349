import Mathlib.Data.List.Infix
import Snippet.Proofs.Expr.Looser
import Snippet.Proofs.Expr.Paired

/-!
A text by itself, and between round brackets. By itself a text is read up to its end, and in a larger
one up to its closing bracket. Read side by side they agree, where no bracket is closed before it is
opened.
-/

set_option autoImplicit false

namespace Snippet

namespace Grammar

open Reader Token

variable {α β γ : Type} {Q : α → β → Prop} {R : α → γ → Prop} {ts us tokens others : List Token}
  {d : Int}

/-- From the left, no more round brackets are closed than are open. -/
def Nested (depth : Int) (tokens : List Token) : Prop :=
  ∀ front, front <+: tokens → 0 ≤ depthOver depth front

instance (depth : Int) (tokens : List Token) : Decidable (Nested depth tokens) :=
  decidable_of_iff (∀ front ∈ tokens.inits, 0 ≤ depthOver depth front) <| by
    simp only [Nested, List.mem_inits]

theorem Nested.positive (h : Nested d ts) : 0 ≤ d :=
  h [] List.nil_prefix

theorem Nested.tail {t : Token} (h : Nested d (t :: ts)) : Nested (depthAfter d t.kind) ts :=
  fun front starts => h (t :: front) (List.cons_prefix_cons.mpr ⟨rfl, starts⟩)

/-- Tokens that close their brackets, next to the same ones with a closing bracket at the end. -/
def shut : Pairing where
  Pair d ts us := Closed ts us ∧ Nested d ts ∧ depthOver d ts = 0
  extra := 1
  longer := by
    rintro d ts us ⟨closed, -, -⟩
    induction closed with
    | last => rfl
    | cons _ _ _ ih => rw [List.length_cons, List.length_cons, ih]
  ended := by
    rintro d ts us ⟨closed, -, -⟩ rfl
    cases closed
  head := by
    rintro d t ts u us ⟨closed, -, -⟩
    cases closed with
    | last end_ closing => exact .inr ⟨end_, closing⟩
    | cons _ same _ => exact .inl same
  inside := by
    rintro d ts us t ts' u us' ⟨-, nested, -⟩ ⟨closed, -, all⟩
    cases closed with
    | last end_ _ _ =>
        -- At the end no bracket is open.
        have level : d + 1 = 0 := by
          rw [← all]
          show _ = depthAfter (d + 1) t.kind
          rw [end_]
          rfl
        have := nested.positive
        omega
    | cons _ same _ => exact (Symbol.mk.inj same).1
  tail := by
    rintro d t ts u us ⟨closed, nested, all⟩ - inner
    cases closed with
    | last end_ => contradiction
    | cons _ _ rest => exact ⟨rest, nested.tail, all⟩

-- Where no bracket is open, a closing one stands only where the other list ends.
theorem shut_together {t u : Token} (pair : shut.Pair 0 (t :: ts) (u :: us)) :
    (t.kind == .finish) = (u.kind == .closeParen) := by
  obtain ⟨closed, nested, -⟩ := pair
  cases closed with
  | last end_ closing _ =>
      rw [end_, closing]
      rfl
  | cons inner same _ =>
      obtain ⟨kind, -⟩ := Symbol.mk.inj same
      have unclosed : t.kind ≠ .closeParen := by
        intro closing
        have := nested.tail.positive
        rw [closing] at this
        contradiction
      rw [← kind, beq_false_of_ne inner, beq_false_of_ne unclosed]

-- Where no bracket is open, either both lists are at their end or none is.
theorem shut_ends (pair : shut.Pair 0 ts us) :
    (∃ t u v, ts = [t] ∧ us = [u, v] ∧ t.kind = .finish ∧ u.kind = .closeParen ∧ v.kind = .finish) ∨
      (nextKind ts == .finish) = false ∧ (nextKind us == .closeParen) = false := by
  obtain ⟨closed, -, -⟩ := id pair
  cases closed with
  | @last t u v end_ closing end_' => exact .inl ⟨t, u, v, rfl, rfl, end_, closing, end_'⟩
  | cons inner _ _ =>
      have unended := beq_false_of_ne inner
      exact .inr ⟨unended, (shut_together pair).symm.trans unended⟩

theorem depthOver_closed (closed : Closed ts us) (d : Int) :
    depthOver (d + 1) us = depthOver d ts := by
  induction closed generalizing d with
  | @last t u v end_ closing end_' =>
      show depthAfter (depthAfter (d + 1) u.kind) v.kind = depthAfter d t.kind
      rw [end_, closing, end_']
      exact Int.add_sub_cancel d 1
  | @cons t u ts us inner same rest ih =>
      have shifted : depthAfter (d + 1) u.kind = depthAfter d t.kind + 1 := by
        rw [(Symbol.mk.inj same).1]
        cases u.kind with
        | closeParen =>
            show d + 1 - 1 = d - 1 + 1
            omega
        | _ => rfl
      show depthOver (depthAfter (d + 1) u.kind) us = depthOver (depthAfter d t.kind) ts
      rw [shifted, ih]

/-! ### Up to the end -/

/-- Related results, and nothing but the end is left behind the second one. -/
def AtEnd (Q : α → β → Prop) (p : α × Tokens) (q : β × Tokens) : Prop :=
  Q p.1 q.1 ∧ ∃ last, q.2 = .ofList [last] ∧ last.kind = .finish

/-- A list of its own is at its end where the other one has its closing bracket. -/
theorem parallel_shut {r : Reader α} {r' : Reader β} {k : β → Reader γ}
    (agree : shut.Agree ts.length 0 0 Q r r') (pair : shut.Pair 0 ts us)
    (stays : ∀ a b last, Q a b → last.kind = .finish →
      ∃ c, k b (.ofList [last]) = .ok (c, .ofList [last]) ∧ R a c) :
    Parallel (AtEnd R) ((r >>= fun a => expectEnd >>= fun _ => pure a) (.ofList ts))
      ((r' >>= fun b => (discard <| expect .closeParen) >>= fun _ => k b) (.ofList us)) := by
  refine (agree ts us pair (Nat.le_refl _)).bind ?_
  rintro _ _ ⟨same, pair, -⟩
  rename_i a b ts us
  dsimp only
  rw [bind_run, bind_run]
  obtain ⟨t, u, v, rfl, rfl, end_, closing, end_'⟩ | ⟨unended, unclosed⟩ := shut_ends pair
  · obtain ⟨c, ran, related⟩ := stays a b v same end_'
    rw [expectEnd_cons, discard_expect_cons fun _ => List.cons_ne_nil v [], closing, end_]
    show Parallel _ (.ok (a, Tokens.ofList [t])) (k b (.ofList [v]))
    rw [ran]
    exact .read ⟨related, v, rfl, end_'⟩
  · obtain ⟨t, ts, u, us, rfl, rfl⟩ := Pairing.exists_cons pair
    rw [nextKind_cons] at unclosed unended
    have open_ : u.kind ≠ .closeParen := by simpa using unclosed
    rw [expectEnd_cons, discard_expect_cons fun same => absurd same open_, unclosed, unended]
    exact .failed

variable {Q : α → Expr → Prop} {x : Except ReadError (α × Tokens)}
  {result : Except ReadError (Expr × Tokens)}

theorem toEnd_of_parallel (h : Parallel (AtEnd Q) x result) : ToEnd result := by
  cases h with
  | deep => exact toEnd_error _
  | failed => exact toEnd_error _
  | @read p q related =>
      obtain ⟨e, rest⟩ := q
      obtain ⟨-, last, rfl, end_⟩ := related
      exact toEnd_ok end_

theorem parallel_exprList {budget : Nat} {tight : Level} (starting : starts .atom (nextKind us) = true)
    (h : Parallel (AtEnd Q) x (readAt budget tight (.ofList us))) :
    Parallel (AtEnd Q) x (exprList (readAt (budget + tight.rank)) (.ofList us)) := by
  rw [exprList_looser starting rfl (toEnd_of_parallel h)]
  exact h

theorem parallel_whole {t whole : Text} {r : Reader α} {r' : Reader Expr}
    (scanned : scan t = .ok tokens) (scanned_whole : scan whole = .ok us)
    (h : Parallel (AtEnd Q) ((r >>= fun a => expectEnd >>= fun _ => pure a) (.ofList tokens))
      (r' (.ofList us))) : Parallel Q (readWhole r t) (readWhole r' whole) := by
  rw [readWhole_of_scan scanned, readWhole_of_scan scanned_whole, bind_run (r := r')]
  generalize (r >>= fun a => expectEnd >>= fun _ => pure a) (.ofList tokens) = alone at h ⊢
  generalize r' (.ofList us) = inside at h ⊢
  cases h with
  | deep => exact .deep
  | failed => exact .failed
  | @read p q related =>
      obtain ⟨a, rest⟩ := p
      obtain ⟨e, rest'⟩ := q
      obtain ⟨related, last, rfl, end_⟩ := related
      have at_end : (last.kind == .finish) = true := beq_iff_eq.mpr end_
      dsimp only
      rw [bind_run, expectEnd_cons, if_pos at_end]
      exact .read related

end Grammar

open Grammar Token

-- An opening bracket stands alone.
theorem Token.reading_opening (after : Text) : Reading ⟨.openParen, ['(']⟩ ['('] after := by
  have bracket : ("(", TokenKind.openParen) ∈ operators := by decide
  have alone (d : Char) : operators.all (fun o => !(['('] ++ [d]).isPrefixOf o.1.toList) = true := by
    have table : operators.all fun o => !(['('].isPrefixOf o.1.toList && o.1.length != 1) := by
      decide
    refine List.all_eq_true.mpr fun o member => ?_
    have single := List.all_eq_true.mp table o member
    rw [Bool.not_eq_true', Bool.eq_false_iff]
    intro front
    obtain ⟨more, longer⟩ := List.isPrefixOf_iff_prefix.mp front
    simp [← String.length_toList, ← longer] at single
  exact reading_operator bracket fun d _ => ⟨alone d, by simp⟩

/-- A text with a closing bracket has tokens if it has some by itself, and the bracket is the last of
them. -/
theorem Grammar.parallel_enclosed {α : Type} {Q : α → Expr → Prop} {t whole : Text} {column : Nat}
    {front : List Token → List Token} {r : Reader α} {r' : Reader Expr}
    (scanned_whole : scan whole = (scanFrom column (t ++ [')'])).map front)
    (both : ∀ tokens others, scan t = .ok tokens → scan whole = .ok (front others) →
      Closed tokens others → Parallel Q (readWhole r t) (readWhole r' whole)) :
    Parallel Q (readWhole r t) (readWhole r' whole) := by
  have scans : Parallel Closed (scan t) (scanFrom column (t ++ [')'])) := scanFrom_closed 1 column t
  cases scanned : scan t with
  | error e =>
      rw [scanned] at scans
      cases scanned' : scanFrom column (t ++ [')']) with
      | ok others =>
          rw [scanned'] at scans
          contradiction
      | error e' =>
          rw [scanned'] at scanned_whole
          rw [readWhole, readWhole, scanned, scanned_whole]
          exact .failed
  | ok tokens =>
      rw [scanned] at scans
      cases scanned' : scanFrom column (t ++ [')']) with
      | error e' =>
          rw [scanned'] at scans scanned_whole
          cases scans
          have unread : readWhole r' whole = .error .tooDeep := by
            rw [readWhole, scanned_whole]
            rfl
          rw [unread]
          exact .deep
      | ok others =>
          rw [scanned'] at scans scanned_whole
          cases scans with
          | read closed => exact both tokens others scanned scanned_whole closed

end Snippet
