import Snippet.Proofs.Expr.Layout

/-!
Readers and the symbols that they take. `Reaches` follows a reader along given symbols: behind them
it goes on like another reader, unless it runs out of nesting. There is one rule for every
combinator. `Takes` says that a reader ends behind its symbols, and `Leads` that it is in a loop
there.
-/

set_option autoImplicit false

namespace Snippet.Grammar

open Reader

variable {α β : Type}

def nextKind (tokens : List Token) : TokenKind :=
  (tokens.head?.getD (Token.finishAt 1)).kind

-- The kind at the front of symbols that a token of a kind follows.
def leading (symbols : List Symbol) (kind : TokenKind) : TokenKind :=
  (symbols.head?.map Symbol.kind).getD kind

theorem nextKind_append {ts rest : List Token} {symbols : List Symbol}
    (same : ts.map Token.symbol = symbols) :
    nextKind (ts ++ rest) = leading symbols (nextKind rest) := by
  subst same
  cases ts <;> rfl

/-- Behind the symbols, and in front of the rest, a reader goes on like one of some readers. The rest
holds the end mark at least. -/
def Reaches (enough : Prop) (r : Reader α) (symbols : List Symbol) (rest : List Token)
    (K : Reader α → Prop) : Prop :=
  rest ≠ [] → ∀ ts, ts.map Token.symbol = symbols →
    (enough → ∃ r', K r' ∧ r (.ofList (ts ++ rest)) = r' (.ofList rest)) ∧
      (¬ enough → r (.ofList (ts ++ rest)) = .error .tooDeep)

/-- A reader ends behind the symbols if what is next satisfies a condition. -/
def Takes (enough : Prop) (r : Reader α) (symbols : List Symbol) (next : TokenKind → Prop)
    (P : α → Prop) : Prop :=
  ∀ rest, next (nextKind rest) →
    Reaches enough r symbols rest fun r' => ∃ a, r' = pure a ∧ P a

/-- The same for a reader that is in a loop then, with a turn left for every token. -/
def Leads (enough : Prop) (r : Reader α) (symbols : List Symbol) (next : TokenKind → Prop)
    (loop : Nat → α → Reader α) (P : α → Prop) : Prop :=
  ∀ rest, next (nextKind rest) →
    Reaches enough r symbols rest fun r' =>
      ∃ a turns, r' = loop turns a ∧ rest.length ≤ turns ∧ P a

theorem bind_run (r : Reader α) (k : α → Reader β) (tokens : Tokens) :
    (r >>= k) tokens =
      match r tokens with
      | .ok (a, rest) => k a rest
      | .error e => .error e := by
  show Except.bind (r tokens) _ = _
  cases r tokens <;> rfl

theorem bind_run_eq_ok {r : Reader α} {k : α → Reader β} {tokens : Tokens} {found : β × Tokens} :
    (r >>= k) tokens = .ok found ↔ ∃ a rest, r tokens = .ok (a, rest) ∧ k a rest = .ok found := by
  rw [bind_run]
  cases r tokens with
  | error e => exact ⟨nofun, by rintro ⟨_, _, same, -⟩; cases same⟩
  | ok first =>
      refine ⟨fun h => ⟨first.1, first.2, rfl, h⟩, ?_⟩
      rintro ⟨a, rest, same, h⟩
      cases same
      exact h

theorem peek_run {tokens : List Token} (more : tokens ≠ []) :
    peek (.ofList tokens) = .ok (tokens.head?.getD (Token.finishAt 1), .ofList tokens) := by
  cases tokens with
  | nil => contradiction
  | cons token rest => rfl

theorem head?_of_peek {tokens rest : Tokens} {token : Token} (h : peek tokens = .ok (token, rest)) :
    tokens.list.head? = some token ∧ rest = tokens := by
  obtain ⟨list, size, rfl⟩ := tokens
  cases list with
  | nil => contradiction
  | cons first others =>
      cases h
      exact ⟨rfl, rfl⟩

theorem eq_tail_of_advance {tokens rest : Tokens} {done : Unit}
    (h : advance tokens = .ok (done, rest)) : rest = tokens.tail := by
  rw [advance] at h
  split at h
  · cases h
    rfl
  · contradiction

-- What follows a step runs behind the next token.
theorem tail_of_advance_bind {k : Unit → Reader α} {tokens rest : Tokens} {a : α}
    (h : (advance >>= k) tokens = .ok (a, rest)) : k () tokens.tail = .ok (a, rest) := by
  obtain ⟨_, rest, stepped, h⟩ := bind_run_eq_ok.mp h
  rwa [← eq_tail_of_advance stepped]

theorem advance_cons (token : Token) {rest : List Token} (more : rest ≠ []) :
    advance (.ofList (token :: rest)) = .ok ((), .ofList rest) := by
  cases rest with
  | nil => contradiction
  | cons next rest => rfl

theorem advance_bind_cons (k : Unit → Reader α) (token : Token) {rest : List Token}
    (more : rest ≠ []) : (advance >>= k) (.ofList (token :: rest)) = k () (.ofList rest) := by
  rw [bind_run, advance_cons token more]

namespace Reaches

variable {enough enough' : Prop} {symbols front : List Symbol} {rest : List Token}
  {r : Reader α} {K K' : Reader α → Prop} {next : TokenKind → Prop} {P : β → Prop}

theorem congr (h : Reaches enough r symbols rest K) (same : enough ↔ enough') :
    Reaches enough' r symbols rest K := by
  rw [← same]
  exact h

theorem weaken (h : Reaches enough r symbols rest K) (implies : ∀ r', K r' → K' r') :
    Reaches enough r symbols rest K' := by
  intro more ts same
  obtain ⟨reached, deep⟩ := h more ts same
  refine ⟨fun fits => ?_, deep⟩
  obtain ⟨r', holds, ran⟩ := reached fits
  exact ⟨r', implies r' holds, ran⟩

theorem done (holds : K r) : Reaches True r [] rest K := by
  intro more ts same
  obtain rfl := List.map_eq_nil_iff.mp same
  exact ⟨fun _ => ⟨r, holds, rfl⟩, fun absent => absurd trivial absent⟩

theorem tooDeep (deep : ¬ enough) : Reaches enough (fail .tooDeep) symbols rest K :=
  fun _ _ _ => ⟨fun fits => absurd fits deep, fun _ => rfl⟩

theorem bind {first : Reader β} {k : β → Reader α} (taken : Takes enough first front next P)
    (follows : next (leading symbols (nextKind rest)))
    (later : ∀ b, P b → Reaches enough' (k b) symbols rest K) :
    Reaches (enough ∧ enough') (first >>= k) (front ++ symbols) rest K := by
  intro more ts same
  obtain ⟨ts₁, ts₂, rfl, same₁, same₂⟩ := List.map_eq_append_iff.mp same
  obtain ⟨read, deep⟩ := taken (ts₂ ++ rest) (by rwa [nextKind_append same₂])
    (List.append_ne_nil_of_right_ne_nil ts₂ more) ts₁ same₁
  rw [List.append_assoc, bind_run]
  by_cases fits : enough
  · obtain ⟨_, ⟨b, rfl, holds⟩, ran⟩ := read fits
    rw [ran]
    obtain ⟨reached, deep'⟩ := later b holds more ts₂ same₂
    exact ⟨fun both => reached both.2, fun short => deep' fun fits' => short ⟨fits, fits'⟩⟩
  · rw [deep fits]
    exact ⟨fun both => absurd both.1 fits, fun _ => rfl⟩

theorem bind_nil {first : Reader β} {k : β → Reader α} (taken : Takes enough first symbols next P)
    (follows : next (nextKind rest))
    (later : ∀ b, P b → Reaches enough' (k b) [] rest K) :
    Reaches (enough ∧ enough') (first >>= k) symbols rest K := by
  rw [← List.append_nil symbols]
  exact bind taken follows later

theorem peek_bind {k : Token → Reader α} {s : Symbol}
    (later : ∀ token, token.symbol = s → Reaches enough (k token) (s :: symbols) rest K) :
    Reaches enough (peek >>= k) (s :: symbols) rest K := by
  intro more ts same
  obtain ⟨token, ts, rfl, first, -⟩ := List.map_eq_cons_iff.mp same
  exact later token first more (token :: ts) same

theorem peek_bind_kind {k : Token → Reader α}
    (later : ∀ token, token.kind = leading symbols (nextKind rest) →
      Reaches enough (k token) symbols rest K) :
    Reaches enough (peek >>= k) symbols rest K := by
  intro more ts same
  cases whole : ts ++ rest with
  | nil => exact absurd whole (List.append_ne_nil_of_right_ne_nil ts more)
  | cons token others =>
      have looked := later token (by rw [← nextKind_append same, whole]; rfl) more ts same
      rw [whole] at looked
      exact looked

-- Where no symbol is left to take, the next token is what follows.
theorem peek_bind_nil {k : Token → Reader α}
    (later : ∀ token, token.kind = nextKind rest → Reaches enough (k token) [] rest K) :
    Reaches enough (peek >>= k) [] rest K :=
  peek_bind_kind later

-- At the end of the tokens, the last one is its own second.
theorem peekSecond_bind {k : Token → Reader α} {s : Symbol}
    (later : ∀ token, token.kind = leading symbols (nextKind rest)
      ∨ symbols = [] ∧ token.kind = s.kind → Reaches enough (k token) (s :: symbols) rest K) :
    Reaches enough (peekSecond >>= k) (s :: symbols) rest K := by
  intro more ts same
  obtain ⟨token, ts', rfl, here, behind⟩ := List.map_eq_cons_iff.mp same
  have next : nextKind (ts' ++ rest) = _ := nextKind_append behind
  cases at_end : ts' ++ rest with
  | nil =>
      obtain ⟨rfl, rfl⟩ := List.append_eq_nil_iff.mp at_end
      exact later token (.inr ⟨behind.symm, congrArg Symbol.kind here⟩) more [token] same
  | cons second others =>
      rw [at_end] at next
      have looked := later second (.inl next) more (token :: ts') same
      rw [List.cons_append, at_end] at looked ⊢
      exact looked

-- Where the answer does not matter.
theorem peekSecond_bind_any {k : Token → Reader α}
    (later : ∀ token, Reaches enough (k token) symbols rest K) :
    Reaches enough (peekSecond >>= k) symbols rest K := by
  intro more ts same
  have looked : ∃ token, peekSecond (.ofList (ts ++ rest)) = .ok (token, .ofList (ts ++ rest)) := by
    simp only [peekSecond, Tokens.ofList]
    split <;> exact ⟨_, rfl⟩
  obtain ⟨token, looked⟩ := looked
  rw [bind_run, looked]
  exact later token more ts same

theorem advance_bind {k : Unit → Reader α} {s : Symbol}
    (later : Reaches enough (k ()) symbols rest K) :
    Reaches enough (advance >>= k) (s :: symbols) rest K := by
  intro more ts same
  obtain ⟨token, ts, rfl, -, behind⟩ := List.map_eq_cons_iff.mp same
  rw [List.cons_append, advance_bind_cons k token (List.append_ne_nil_of_right_ne_nil ts more)]
  exact later more ts behind

theorem remaining_bind {k : Nat → Reader α}
    (later : ∀ turns, symbols.length + rest.length ≤ turns →
      Reaches enough (k turns) symbols rest K) :
    Reaches enough (remaining >>= k) symbols rest K := by
  intro more ts same
  have counted : symbols.length + rest.length = (ts ++ rest).length := by
    rw [← same, List.length_map, List.length_append]
  exact later (ts ++ rest).length (Nat.le_of_eq counted) more ts same

theorem accept_bind {k : Bool → Reader α} {s : Symbol} {kind : TokenKind} (here : s.kind = kind)
    (later : Reaches enough (k true) symbols rest K) :
    Reaches enough (accept kind >>= k) (s :: symbols) rest K := by
  intro more ts same
  obtain ⟨token, ts, rfl, first, behind⟩ := List.map_eq_cons_iff.mp same
  have matched : token.kind == kind := by
    rw [← here, ← first]
    exact beq_self_eq_true _
  have taken : accept kind (.ofList (token :: (ts ++ rest))) = .ok (true, .ofList (ts ++ rest)) := by
    show (if token.kind == kind then advance >>= fun _ => pure true else pure false :
      Reader Bool) (.ofList (token :: (ts ++ rest))) = _
    rw [if_pos matched, advance_bind_cons _ token (List.append_ne_nil_of_right_ne_nil ts more)]
    rfl
  rw [List.cons_append, bind_run, taken]
  exact later more ts behind

theorem accept_bind_other {k : Bool → Reader α} {kind : TokenKind}
    (other : leading symbols (nextKind rest) ≠ kind)
    (later : Reaches enough (k false) symbols rest K) :
    Reaches enough (accept kind >>= k) symbols rest K := by
  intro more ts same
  have differs : (nextKind (ts ++ rest) == kind) = false := by
    rw [nextKind_append same]
    exact beq_false_of_ne other
  have kept : accept kind (.ofList (ts ++ rest)) = .ok (false, .ofList (ts ++ rest)) := by
    cases whole : ts ++ rest with
    | nil => exact absurd whole (List.append_ne_nil_of_right_ne_nil ts more)
    | cons token others =>
        rw [whole] at differs
        show (if nextKind (token :: others) == kind then advance >>= fun _ => pure true
          else pure false : Reader Bool) (.ofList (token :: others)) = _
        rw [differs]
        rfl
  rw [bind_run, kept]
  exact later more ts same

theorem expect_bind {k : Token → Reader α} {s : Symbol} {kind : TokenKind} (here : s.kind = kind)
    (later : ∀ token, token.symbol = s → Reaches enough (k token) symbols rest K) :
    Reaches enough (expect kind >>= k) (s :: symbols) rest K := by
  intro more ts same
  obtain ⟨token, ts, rfl, first, behind⟩ := List.map_eq_cons_iff.mp same
  have matched : token.kind == kind := by
    rw [← here, ← first]
    exact beq_self_eq_true _
  have taken : expect kind (.ofList (token :: (ts ++ rest))) = .ok (token, .ofList (ts ++ rest)) := by
    show (if token.kind == kind then advance >>= fun _ => pure token
      else fail (.expected kind.label.toList token.value token.column) :
      Reader Token) (.ofList (token :: (ts ++ rest))) = _
    rw [if_pos matched, advance_bind_cons _ token (List.append_ne_nil_of_right_ne_nil ts more)]
    rfl
  rw [List.cons_append, bind_run, taken]
  exact later token first more ts behind

theorem discard_bind {k : Unit → Reader α} {s : Symbol} {kind : TokenKind} (here : s.kind = kind)
    (later : Reaches enough (k ()) symbols rest K) :
    Reaches enough ((discard <| expect kind) >>= k) (s :: symbols) rest K := by
  have same : ((discard <| expect kind) >>= k) = (expect kind >>= fun _ => k ()) := by
    funext tokens
    have dropped : (discard (expect kind)) tokens
        = Except.bind (expect kind tokens) fun found => .ok ((), found.2) := rfl
    rw [bind_run, bind_run, dropped]
    cases expect kind tokens <;> rfl
  rw [same]
  exact expect_bind here fun _ _ => later

end Reaches

namespace Takes

variable {enough : Prop} {r : Reader α} {symbols : List Symbol} {next next' : TokenKind → Prop}
  {P : α → Prop}

theorem mono (h : Takes enough r symbols next P) (stops : ∀ kind, next' kind → next kind) :
    Takes enough r symbols next' P :=
  fun rest follows => h rest (stops _ follows)

-- A look at the first token that changes nothing.
theorem peeked {k : Token → Reader α} {s : Symbol} (h : Takes enough r (s :: symbols) next P)
    (plain : ∀ token, token.kind = s.kind → k token = r) :
    Takes enough (peek >>= k) (s :: symbols) next P := by
  intro rest follows
  refine Reaches.peek_bind fun token first => ?_
  rw [plain token (congrArg Symbol.kind first)]
  exact h rest follows

-- A reader that would go on behind a kind of token, where none is next.
theorem unless_accepted {kind : TokenKind} {more : α → Reader α} (h : Takes enough r symbols next P)
    (stops : ∀ k, next' k → next k ∧ k ≠ kind) :
    Takes enough
      (r >>= fun a => accept kind >>= fun accepted => if accepted then more a else pure a)
      symbols next' P := by
  intro rest follows
  obtain ⟨ends, other⟩ := stops _ follows
  refine (Reaches.bind_nil h ends fun a holds => ?_).congr (and_iff_left trivial)
  exact Reaches.accept_bind_other other (Reaches.done ⟨a, rfl, holds⟩)

end Takes

namespace Leads

variable {enough enough' : Prop} {r : Reader α} {symbols front : List Symbol}
  {next next' : TokenKind → Prop} {loop : Nat → α → Reader α} {P Q : α → Prop}

theorem start (h : Takes enough r symbols next P) :
    Leads enough (r >>= fun a => remaining >>= fun turns => loop turns a) symbols next loop P := by
  intro rest follows
  refine (Reaches.bind_nil h follows fun a holds => ?_).congr (and_iff_left trivial)
  refine Reaches.remaining_bind fun turns counted => ?_
  exact Reaches.done ⟨a, turns, rfl, by simpa using counted, holds⟩

theorem of_takes (h : Takes enough r symbols next P) :
    Leads enough r symbols next (fun _ a => pure a) P := by
  intro rest follows
  apply (h rest follows).weaken
  rintro _ ⟨a, rfl, holds⟩
  exact ⟨a, rest.length, rfl, Nat.le_refl _, holds⟩

-- A turn of a loop takes more symbols.
theorem turn (h : Leads enough r front next loop P) (shown : symbols ≠ [])
    (follows : ∀ kind, next' kind → next (leading symbols kind))
    (later : ∀ a turns rest, P a → next' (nextKind rest) →
      Reaches enough' (loop (turns + 1) a) symbols rest fun r' => ∃ b, r' = loop turns b ∧ Q b) :
    Leads (enough ∧ enough') r (front ++ symbols) next' loop Q := by
  intro rest stops more ts same
  obtain ⟨ts₁, ts₂, rfl, same₁, same₂⟩ := List.map_eq_append_iff.mp same
  have between : next (nextKind (ts₂ ++ rest)) := by
    rw [nextKind_append same₂]
    exact follows _ stops
  obtain ⟨read, deep⟩ := h (ts₂ ++ rest) between
    (List.append_ne_nil_of_right_ne_nil ts₂ more) ts₁ same₁
  rw [List.append_assoc]
  by_cases fits : enough
  · obtain ⟨_, ⟨a, turns, rfl, counted, holds⟩, ran⟩ := read fits
    -- The turn takes at least one token, so there are turns enough for the others.
    have some_left : ts₂ ≠ [] := by
      rintro rfl
      exact shown same₂.symm
    have positive := List.length_pos_iff.mpr some_left
    rw [List.length_append] at counted
    obtain ⟨turns, rfl⟩ := Nat.exists_eq_add_of_le' (show 1 ≤ turns by omega)
    obtain ⟨reached, deep'⟩ := later a turns rest holds stops more ts₂ same₂
    rw [ran]
    refine ⟨fun both => ?_, fun short => deep' fun fits' => short ⟨fits, fits'⟩⟩
    obtain ⟨_, ⟨b, rfl, holds'⟩, ran'⟩ := reached both.2
    exact ⟨_, ⟨b, turns, rfl, by omega, holds'⟩, ran'⟩
  · rw [deep fits]
    exact ⟨fun both => absurd both.1 fits, fun _ => rfl⟩

-- A loop ends where it finds nothing to go on with.
theorem finish (h : Leads enough r symbols next loop P)
    (stops : ∀ kind, next' kind → next kind)
    (ends : ∀ a turns rest, rest ≠ [] → next' (nextKind rest) →
      loop turns a (.ofList rest) = .ok (a, .ofList rest)) :
    Takes enough r symbols next' P := by
  intro rest follows more ts same
  obtain ⟨read, deep⟩ := h rest (stops _ follows) more ts same
  refine ⟨fun fits => ?_, deep⟩
  obtain ⟨_, ⟨a, turns, rfl, -, holds⟩, ran⟩ := read fits
  exact ⟨_, ⟨a, rfl, holds⟩, by rw [ran, ends a turns rest more follows]; rfl⟩

theorem congr (h : Leads enough r symbols next loop P) (same : enough ↔ enough') :
    Leads enough' r symbols next loop P :=
  fun rest follows => (h rest follows).congr same

end Leads

end Snippet.Grammar
