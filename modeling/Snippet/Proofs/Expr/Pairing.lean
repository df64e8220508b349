import Snippet.Proofs.Expr.Reading
import Snippet.Proofs.Parallel

/-!
Readings that run side by side. Two lists of tokens are read alike as long as they hold the same
symbols. Where the first one ends, the second one may go on with a closing bracket: only a reader
inside of brackets asks for one, and there neither list is at that place. So a reader decides the
same way on both, and as it leaves no bracket open, it stops at the same place.
-/

set_option autoImplicit false

namespace Snippet.Grammar

open Reader

variable {α β γ δ : Type}

/-- The number of open round brackets behind a token. -/
def depthAfter (depth : Int) : TokenKind → Int
  | .openParen => depth + 1
  | .closeParen => depth - 1
  | _ => depth

/-- Pairs of token lists that are read alike, with the number of round brackets that are open in
front of them. -/
structure Pairing where
  Pair : Int → List Token → List Token → Prop
  /-- How many more tokens the second list has. -/
  extra : Nat
  longer : ∀ {d ts us}, Pair d ts us → us.length = ts.length + extra
  ended : ∀ {d ts us}, Pair d ts us → ts ≠ []
  head : ∀ {d t ts u us}, Pair d (t :: ts) (u :: us) →
    t.symbol = u.symbol ∨ t.kind = .finish ∧ u.kind = .closeParen
  inside : ∀ {d ts us t ts' u us'}, Pair d ts us → Pair (d + 1) (t :: ts') (u :: us') →
    t.kind = u.kind
  tail : ∀ {d t ts u us}, Pair d (t :: ts) (u :: us) → t.symbol = u.symbol → t.kind ≠ .finish →
    Pair (depthAfter d t.kind) ts us

theorem accept_cons {kind : TokenKind} {token : Token} {rest : List Token}
    (more : token.kind = kind → rest ≠ []) :
    accept kind (.ofList (token :: rest)) =
      if token.kind == kind then .ok (true, .ofList rest)
      else .ok (false, .ofList (token :: rest)) := by
  show (if token.kind == kind then advance >>= fun _ => pure true else pure false :
    Reader Bool) (.ofList (token :: rest)) = _
  split
  · rename_i same
    exact advance_bind_cons _ token (more (beq_iff_eq.mp same))
  · rfl

theorem expect_cons {kind : TokenKind} {token : Token} {rest : List Token}
    (more : token.kind = kind → rest ≠ []) :
    expect kind (.ofList (token :: rest)) =
      if token.kind == kind then .ok (token, .ofList rest)
      else .error (.expected kind.label.toList token.value token.column) := by
  show (if token.kind == kind then advance >>= fun _ => pure token
    else fail (.expected kind.label.toList token.value token.column) :
    Reader Token) (.ofList (token :: rest)) = _
  split
  · rename_i same
    exact advance_bind_cons _ token (more (beq_iff_eq.mp same))
  · rfl

theorem discard_expect_cons {kind : TokenKind} {token : Token} {rest : List Token}
    (more : token.kind = kind → rest ≠ []) :
    (discard <| expect kind) (.ofList (token :: rest)) =
      if token.kind == kind then .ok ((), .ofList rest)
      else .error (.expected kind.label.toList token.value token.column) := by
  show Except.bind (expect kind (.ofList (token :: rest))) (fun found => .ok ((), found.2)) = _
  rw [expect_cons more]
  split <;> rfl

namespace Pairing

variable {P : Pairing} {Q : α → β → Prop} {R : γ → δ → Prop} {n m room : Nat} {d d' d'' : Int}
  {t u : Token} {ts us : List Token}

/-- Related results, with what is left of both lists. -/
inductive Behind (P : Pairing) (room : Nat) (d : Int) (Q : α → β → Prop) :
    α × Tokens → β × Tokens → Prop where
  | intro {a : α} {b : β} {ts us : List Token} (result : Q a b) (pair : P.Pair d ts us)
      (fits : ts.length ≤ room) : Behind P room d Q (a, .ofList ts) (b, .ofList us)

/-- Two readers have such outcomes on all pairs of lists, the first of them up to a length. -/
def Agree (P : Pairing) (n : Nat) (d d' : Int) (Q : α → β → Prop) (r : Reader α) (r' : Reader β) :
    Prop :=
  ∀ ts us, P.Pair d ts us → ts.length ≤ n →
    Parallel (P.Behind ts.length d' Q) (r (.ofList ts)) (r' (.ofList us))

/-- The same on lists that start with given tokens. -/
def AgreeAt (P : Pairing) (t u : Token) (n : Nat) (d d' : Int) (Q : α → β → Prop) (r : Reader α)
    (r' : Reader β) : Prop :=
  ∀ ts us, P.Pair d (t :: ts) (u :: us) → ts.length < n →
    Parallel (P.Behind (ts.length + 1) d' Q) (r (.ofList (t :: ts))) (r' (.ofList (u :: us)))

/-- A test of the next kind comes out alike on both lists. -/
def Alike (P : Pairing) (d : Int) (test : TokenKind → Bool) : Prop :=
  ∀ ⦃t ts u us⦄, P.Pair d (t :: ts) (u :: us) → test t.kind = test u.kind

theorem alike_of_eq {test : TokenKind → Bool} (same : test .finish = test .closeParen) :
    P.Alike d test := by
  intro t ts u us pair
  obtain equal | ⟨ended, closing⟩ := P.head pair
  · rw [(Symbol.mk.inj equal).1]
  · rw [ended, closing, same]

theorem alike_inside {ts us : List Token} (outside : P.Pair d ts us) (test : TokenKind → Bool) :
    P.Alike (d + 1) test := by
  intro t ts' u us' pair
  rw [P.inside outside pair]

theorem exists_cons (pair : P.Pair d ts us) :
    ∃ t ts' u us', ts = t :: ts' ∧ us = u :: us' := by
  have ended := P.ended pair
  have longer := P.longer pair
  cases ts with
  | nil => contradiction
  | cons t ts' =>
      cases us with
      | nil =>
          rw [List.length_nil, List.length_cons] at longer
          omega
      | cons u us' => exact ⟨t, ts', u, us', rfl, rfl⟩

-- Where both lists have a kind next, they have the same symbol, and the lists go on behind it.
theorem tail_of_kind {kind : TokenKind} (pair : P.Pair d (t :: ts) (u :: us)) (here : t.kind = kind)
    (alike : P.Alike d (· == kind)) (inner : kind ≠ .finish) :
    t.symbol = u.symbol ∧ u.kind = kind ∧ P.Pair (depthAfter d kind) ts us := by
  subst here
  have there : u.kind = t.kind := beq_iff_eq.mp ((alike pair).symm.trans (beq_self_eq_true _))
  obtain equal | ⟨ended, -⟩ := P.head pair
  · exact ⟨equal, there, P.tail pair equal inner⟩
  · contradiction

-- Behind a kind that both lists have next, neither of them is at its end.
theorem more_of_kind {kind : TokenKind} (pair : P.Pair d (t :: ts) (u :: us))
    (alike : P.Alike d (· == kind)) (inner : kind ≠ .finish) :
    (t.kind = kind → ts ≠ []) ∧ (u.kind = kind → us ≠ []) := by
  have decided : (t.kind == kind) = (u.kind == kind) := alike pair
  have behind (here : t.kind = kind) : ts ≠ [] ∧ us ≠ [] := by
    obtain ⟨v, vs, w, ws, rfl, rfl⟩ := exists_cons (tail_of_kind pair here alike inner).2.2
    exact ⟨List.cons_ne_nil v vs, List.cons_ne_nil w ws⟩
  refine ⟨fun here => (behind here).1, fun there => (behind ?_).2⟩
  rw [there, beq_self_eq_true] at decided
  exact beq_iff_eq.mp decided

theorem more {x : Except ReadError (α × Tokens)} {y : Except ReadError (β × Tokens)}
    (h : Parallel (P.Behind m d Q) x y) (enough : m ≤ n) : Parallel (P.Behind n d Q) x y :=
  h.mono fun _ _ ⟨result, pair, fits⟩ => .intro result pair (Nat.le_trans fits enough)

namespace Agree

variable {r : Reader α} {r' : Reader β} {k : α → Reader γ} {k' : β → Reader δ}

theorem pure {a : α} {b : β} (result : Q a b) :
    P.Agree n d d Q (pure a : Reader α) (pure b : Reader β) :=
  fun _ _ pair _ => .read (.intro result pair (Nat.le_refl _))

theorem fail (e e' : ReadError) :
    P.Agree n d d' Q (Reader.fail e : Reader α) (Reader.fail e' : Reader β) :=
  fun _ _ _ _ => .failed

theorem bind (first : P.Agree n d d' Q r r')
    (next : ∀ a b, Q a b → P.Agree n d' d'' R (k a) (k' b)) :
    P.Agree n d d'' R (r >>= k) (r' >>= k') := by
  intro ts us pair fits
  refine (first ts us pair fits).bind ?_
  rintro _ _ ⟨result, pair', shorter⟩
  exact more (next _ _ result _ _ pair' (Nat.le_trans shorter fits)) shorter

theorem lift {x : Except ReadError α} {y : Except ReadError β} (h : Parallel Q x y) :
    P.Agree n d d Q (liftM x) (liftM y) :=
  fun _ _ pair _ => h.bind fun _ _ result => .read (.intro result pair (Nat.le_refl _))

theorem at_ (h : P.Agree n d d' Q r r') : P.AgreeAt t u n d d' Q r r' :=
  fun ts us pair shorter => h (t :: ts) (u :: us) pair shorter

theorem peek_at {k : Token → Reader γ} {k' : Token → Reader δ}
    (same : ∀ t u, t.symbol = u.symbol → P.AgreeAt t u n d d' R (k t) (k' u))
    (ended : ∀ t u, t.kind = .finish → u.kind = .closeParen → P.AgreeAt t u n d d' R (k t) (k' u)) :
    P.Agree n d d' R (peek >>= k) (peek >>= k') := by
  intro ts us pair fits
  obtain ⟨t, ts, u, us, rfl, rfl⟩ := exists_cons pair
  obtain equal | ⟨finish, closing⟩ := P.head pair
  · exact same t u equal ts us pair fits
  · exact ended t u finish closing ts us pair fits

-- Where the reader does not depend on the symbol.
theorem peek {k : Token → Reader γ} {k' : Token → Reader δ}
    (next : ∀ t ts u us, P.Pair d (t :: ts) (u :: us) → P.Agree n d d' R (k t) (k' u)) :
    P.Agree n d d' R (Reader.peek >>= k) (Reader.peek >>= k') := by
  intro ts us pair fits
  obtain ⟨t, ts', u, us', rfl, rfl⟩ := exists_cons pair
  exact next t ts' u us' pair _ _ pair fits

theorem accept_bind {k : Bool → Reader γ} {k' : Bool → Reader δ} {kind : TokenKind}
    (alike : P.Alike d (· == kind)) (inner : kind ≠ .finish)
    (taken : ∀ m, m < n → P.Agree m (depthAfter d kind) d' R (k true) (k' true))
    (left : P.Agree n d d' R (k false) (k' false)) :
    P.Agree n d d' R (accept kind >>= k) (accept kind >>= k') := by
  intro ts us pair fits
  obtain ⟨t, ts', u, us', rfl, rfl⟩ := exists_cons pair
  have decided : (t.kind == kind) = (u.kind == kind) := alike pair
  obtain ⟨behind, behind'⟩ := more_of_kind pair alike inner
  rw [bind_run, bind_run, accept_cons behind, accept_cons behind', ← decided]
  by_cases here : t.kind = kind
  · rw [if_pos (beq_iff_eq.mpr here), if_pos (beq_iff_eq.mpr here)]
    obtain ⟨-, -, pair'⟩ := tail_of_kind pair here alike inner
    exact more (taken ts'.length fits ts' us' pair' (Nat.le_refl _)) (Nat.le_succ _)
  · rw [if_neg (by simpa using here), if_neg (by simpa using here)]
    exact left _ _ pair fits

theorem expect {kind : TokenKind} (alike : P.Alike d (· == kind)) (inner : kind ≠ .finish) :
    P.Agree n d (depthAfter d kind) (fun t u => t.symbol = u.symbol) (expect kind)
      (expect kind) := by
  intro ts us pair fits
  obtain ⟨t, ts', u, us', rfl, rfl⟩ := exists_cons pair
  have decided : (t.kind == kind) = (u.kind == kind) := alike pair
  obtain ⟨behind, behind'⟩ := more_of_kind pair alike inner
  rw [expect_cons behind, expect_cons behind', ← decided]
  by_cases here : t.kind = kind
  · rw [if_pos (beq_iff_eq.mpr here), if_pos (beq_iff_eq.mpr here)]
    obtain ⟨equal, -, pair'⟩ := tail_of_kind pair here alike inner
    exact .read (.intro equal pair' (Nat.le_succ _))
  · rw [if_neg (by simpa using here), if_neg (by simpa using here)]
    exact .failed

theorem discard_expect {kind : TokenKind} (alike : P.Alike d (· == kind)) (inner : kind ≠ .finish) :
    P.Agree n d (depthAfter d kind) (fun _ _ => True) (discard (Reader.expect kind))
      (discard (Reader.expect kind)) :=
  (expect alike inner).bind fun _ _ _ => .pure trivial

theorem remaining_bind {k : Nat → Reader γ} {k' : Nat → Reader δ}
    (next : ∀ m, m ≤ n → P.Agree m d d' R (k m) (k' (m + P.extra))) :
    P.Agree n d d' R (remaining >>= k) (remaining >>= k') := by
  intro ts us pair fits
  have here := next ts.length fits ts us pair (Nat.le_refl _)
  rw [← P.longer pair] at here
  exact here

end Agree

namespace AgreeAt

theorem advance_bind {k : Unit → Reader γ} {k' : Unit → Reader δ} {kind : TokenKind}
    (same : t.symbol = u.symbol) (here : t.kind = kind) (inner : kind ≠ .finish)
    (next : ∀ m, m < n → P.Agree m (depthAfter d kind) d' R (k ()) (k' ())) :
    P.AgreeAt t u n d d' R (advance >>= k) (advance >>= k') := by
  subst here
  intro ts us pair shorter
  have pair' := P.tail pair same inner
  obtain ⟨v, vs, w, ws, rfl, rfl⟩ := exists_cons pair'
  exact more (next _ shorter _ _ pair' (Nat.le_refl _)) (Nat.le_succ _)

-- Two tokens are taken together if the second one is of a kind.
theorem peekSecond_bind {kind : TokenKind} {r s : Reader γ} {r' s' : Reader δ}
    (same : t.symbol = u.symbol) (inner : t.kind ≠ .finish) (level : depthAfter d t.kind = d)
    (alike : P.Alike d (· == kind)) (inner' : kind ≠ .finish)
    (taken : ∀ m, m < n → P.Agree m (depthAfter d kind) d' R r r')
    (left : P.AgreeAt t u n d d' R s s') :
    P.AgreeAt t u n d d' R
      (peekSecond >>= fun second =>
        if second.kind == kind then advance >>= fun _ => advance >>= fun _ => r else s)
      (peekSecond >>= fun second =>
        if second.kind == kind then advance >>= fun _ => advance >>= fun _ => r' else s') := by
  intro ts us pair shorter
  have pair' := P.tail pair same inner
  rw [level] at pair'
  obtain ⟨v, ts', w, us', rfl, rfl⟩ := exists_cons pair'
  have decided : (v.kind == kind) = (w.kind == kind) := alike pair'
  show Parallel _ ((if v.kind == kind then _ else _ : Reader γ) _)
    ((if w.kind == kind then _ else _ : Reader δ) _)
  rw [← decided]
  by_cases here : v.kind = kind
  · rw [if_pos (beq_iff_eq.mpr here), if_pos (beq_iff_eq.mpr here)]
    obtain ⟨-, -, pair''⟩ := tail_of_kind pair' here alike inner'
    obtain ⟨x, xs, y, ys, rfl, rfl⟩ := exists_cons pair''
    have fits : (x :: xs).length < n := Nat.lt_of_succ_lt shorter
    have kept : (x :: xs).length ≤ (v :: x :: xs).length + 1 := by
      rw [List.length_cons (a := v)]
      omega
    exact more (taken _ fits _ _ pair'' (Nat.le_refl _)) kept
  · rw [if_neg (by simpa using here), if_neg (by simpa using here)]
    exact left _ _ pair shorter

theorem within {r : Reader γ} {r' : Reader δ}
    (h : ∀ ts us, P.Pair d ts us → P.AgreeAt t u n d d' R r r') : P.AgreeAt t u n d d' R r r' :=
  fun ts us pair shorter => h (t :: ts) (u :: us) pair ts us pair shorter

theorem peekSecond_any {r : Reader γ} {r' : Reader δ} (h : P.AgreeAt t u n d d' R r r') :
    P.AgreeAt t u n d d' R (peekSecond >>= fun _ => r) (peekSecond >>= fun _ => r') := by
  intro ts us pair shorter
  have kept {ε : Type} (v : Token) (vs : List Token) (x : Reader ε) :
      (peekSecond >>= fun _ => x) (.ofList (v :: vs)) = x (.ofList (v :: vs)) := by
    cases vs <;> rfl
  rw [kept, kept]
  exact h ts us pair shorter

end AgreeAt

end Pairing

end Snippet.Grammar
