import Snippet.Proofs.Expr.RoundTrip
import Snippet.Proofs.Token.Stream

/-!
Two readings of the same tokens, each with levels of its own. They come to the same result or to the
same mistake, unless the first one is cut short by its budget. What is left of the tokens is part of
the result: there is one rule for every combinator, and it says where the combinator stops. None of
them asks for anything behind the end mark.
-/

set_option autoImplicit false

namespace Snippet.Grammar

open Reader Token

variable {α β : Type}

/-- How two readings may end without a result. -/
structure Endings where
  /-- The mistakes that both may make. -/
  shared : ReadError → Prop
  /-- The first may be cut short by its budget. -/
  cut : Prop
  plain : ∀ {e}, e ≠ .tooDeep → e ≠ .pastEnd → shared e

/-- The same result, of which a condition holds, or the same mistake, unless the first one is cut
short. -/
inductive Matched (E : Endings) (Q : α → Prop) :
    Except ReadError α → Except ReadError α → Prop where
  | read {a : α} (result : Q a) : Matched E Q (.ok a) (.ok a)
  | failed {e : ReadError} (allowed : E.shared e) : Matched E Q (.error e) (.error e)
  | cut {x : Except ReadError α} (allowed : E.cut) : Matched E Q (.error .tooDeep) x

/-- Two readers match on tokens, and a condition holds of what they read and leave. -/
def Matches (E : Endings) (ts : List Token) (Q : α → List Token → Prop) (r r' : Reader α) : Prop :=
  Matched E (fun found => Q found.1 found.2.list) (r (.ofList ts)) (r' (.ofList ts))

namespace Matched

variable {E : Endings} {Q Q' : α → Prop} {R : β → Prop} {x y : Except ReadError α}

theorem mono (h : Matched E Q x y) (weaker : ∀ a, Q a → Q' a) : Matched E Q' x y := by
  cases h with
  | read result => exact .read (weaker _ result)
  | failed allowed => exact .failed allowed
  | cut allowed => exact .cut allowed

theorem mistake {e : ReadError} (deep : e ≠ .tooDeep) (past : e ≠ .pastEnd) :
    Matched E Q (.error e) (.error e) :=
  .failed (E.plain deep past)

theorem bind {k l : α → Except ReadError β} (h : Matched E Q x y)
    (next : ∀ a, Q a → Matched E R (k a) (l a)) : Matched E R (x >>= k) (y >>= l) := by
  cases h with
  | read result => exact next _ result
  | failed allowed => exact .failed allowed
  | cut allowed => exact .cut allowed

theorem map {f : α → β} (h : Matched E Q x y) (holds : ∀ a, Q a → R (f a)) :
    Matched E R (x.map f) (y.map f) := by
  cases h with
  | read result => exact .read (holds _ result)
  | failed allowed => exact .failed allowed
  | cut allowed => exact .cut allowed

theorem mapM {f g : β → Except ReadError α} {xs : List β}
    (each : ∀ b ∈ xs, Matched E (fun _ => True) (f b) (g b)) :
    Matched E (fun _ => True) (xs.mapM f) (xs.mapM g) := by
  induction xs with
  | nil => exact .read trivial
  | cons b rest ih =>
      obtain ⟨first, others⟩ := List.forall_mem_cons.mp each
      rw [List.mapM_cons, List.mapM_cons]
      exact first.bind fun _ _ => (ih others).bind fun _ _ => .read trivial

theorem eq_of_not_cut (h : Matched E Q x y) (whole : ¬ E.cut) : x = y := by
  cases h with
  | read => rfl
  | failed => rfl
  | cut allowed => contradiction

theorem of_ok {a : α} (h : Matched E Q x y) (ended : x = .ok a) : Q a := by
  subst ended
  cases h with
  | read result => exact result

end Matched

namespace Matches

variable {E : Endings} {ts rest : List Token} {token : Token} {Q Q' : α → List Token → Prop}
  {R : β → List Token → Prop} {r r' : Reader α} {k k' : α → Reader β} {kind : TokenKind}

theorem mono (h : Matches E ts Q r r') (weaker : ∀ a rest, Q a rest → Q' a rest) :
    Matches E ts Q' r r' :=
  Matched.mono h fun _ holds => weaker _ _ holds

theorem pure {a : α} (holds : Q a ts) : Matches E ts Q (pure a) (pure a) :=
  .read holds

theorem fail {e : ReadError} (deep : e ≠ .tooDeep) (past : e ≠ .pastEnd) :
    Matches E ts Q (fail e) (fail e) :=
  .mistake deep past

theorem bind (first : Matches E ts Q r r')
    (next : ∀ a rest, Q a rest → Matches E rest R (k a) (k' a)) :
    Matches E ts R (r >>= k) (r' >>= k') := by
  refine Matched.bind first ?_
  rintro ⟨a, list, size, rfl⟩ holds
  exact next a list holds

theorem lift {x y : Except ReadError α} (h : Matched E (fun _ => True) x y) :
    Matches E ts (fun _ rest => rest = ts) (liftM x) (liftM y) :=
  Matched.bind h fun _ _ => .read rfl

theorem remaining_bind {k k' : Nat → Reader β}
    (next : Matches E ts R (k ts.length) (k' ts.length)) :
    Matches E ts R (remaining >>= k) (remaining >>= k') :=
  next

section Stream

variable (stream : IsStream ts)
include stream

theorem peek_bind {k k' : Token → Reader β}
    (next : ∀ token rest, ts = token :: rest → Matches E ts R (k token) (k' token)) :
    Matches E ts R (peek >>= k) (peek >>= k') := by
  obtain ⟨token, rest, rfl⟩ := List.exists_cons_of_ne_nil stream.ne_nil
  exact next token rest rfl

-- In front of the end mark, the second token is the first of the rest.
theorem peekSecond_bind {k k' : Token → Reader β} (here : ts = token :: rest)
    (next : ∀ second, (token.kind ≠ .finish → rest.head? = some second) →
      Matches E ts R (k second) (k' second)) :
    Matches E ts R (peekSecond >>= k) (peekSecond >>= k') := by
  subst here
  cases rest with
  | nil => exact next token fun inner => absurd rfl (stream.tail inner).1.2
  | cons second rest => exact next second fun _ => rfl

theorem advance_bind {k k' : Unit → Reader β} (here : ts = token :: rest)
    (inner : token.kind ≠ .finish) (next : Later ts rest → Matches E rest R (k ()) (k' ())) :
    Matches E ts R (advance >>= k) (advance >>= k') := by
  subst here
  have more := stream.tail inner
  rw [Matches, advance_bind_cons k token more.1.2, advance_bind_cons k' token more.1.2]
  exact next more

-- Two tokens at once, the second of which has been looked at.
theorem advance_twice_bind {k k' : Unit → Reader β} {second : Token} (here : ts = token :: rest)
    (inner : token.kind ≠ .finish) (next : rest.head? = some second)
    (inner' : second.kind ≠ .finish)
    (later : ∀ left, Later ts left → Matches E left R (k ()) (k' ())) :
    Matches E ts R (advance >>= fun _ => advance >>= k) (advance >>= fun _ => advance >>= k') := by
  refine advance_bind stream here inner fun more => ?_
  obtain ⟨left, behind⟩ := List.head?_eq_some_iff.mp next
  refine advance_bind (stream.later more) behind inner' fun further => ?_
  exact later left (more.trans further)

theorem accept_bind {k k' : Bool → Reader β} (inner : kind ≠ .finish)
    (taken : ∀ rest, Later ts rest → Matches E rest R (k true) (k' true))
    (left : Matches E ts R (k false) (k' false)) :
    Matches E ts R (accept kind >>= k) (accept kind >>= k') := by
  rw [accept, bind_assoc, bind_assoc]
  refine peek_bind stream fun token rest here => ?_
  by_cases same : token.kind = kind
  · rw [if_pos (beq_iff_eq.mpr same), bind_assoc, bind_assoc]
    exact advance_bind stream here (same ▸ inner) (taken rest)
  · rw [if_neg (by simpa using same)]
    exact left

theorem expect (inner : kind ≠ .finish) :
    Matches E ts (fun _ => Later ts) (expect kind) (expect kind) := by
  refine peek_bind stream fun token rest here => ?_
  split
  · rename_i same
    exact advance_bind stream here (beq_iff_eq.mp same ▸ inner) fun more => .pure more
  · exact .fail nofun nofun

theorem discard_expect (inner : kind ≠ .finish) :
    Matches E ts (fun _ => Later ts) (discard <| Reader.expect kind)
      (discard <| Reader.expect kind) :=
  bind (R := fun _ => Later ts) (expect stream inner) fun _ _ more => .pure more

theorem expectEnd : Matches E ts (fun _ rest => rest = ts) expectEnd expectEnd := by
  refine peek_bind stream fun token rest here => ?_
  split
  · exact .pure rfl
  · exact .fail nofun nofun

end Stream

end Matches

/-- Two readings of a whole text match, if they do so on its tokens. -/
theorem matched_readWhole {E : Endings} {r r' : Reader α} {t : Text}
    (matched : ∀ tokens, scan t = .ok tokens → Matches E tokens (fun _ => Left tokens) r r') :
    Matched E (fun _ => True) (readWhole r t) (readWhole r' t) := by
  cases scanned : scan t with
  | error e =>
      rw [readWhole, readWhole, scanned]
      have lexical := isLexical_of_scanFrom scanned
      refine .mistake ?_ ?_ <;>
        · rintro rfl
          contradiction
  | ok tokens =>
      have stream := IsStream.of_scan scanned
      have checked : Matches E tokens (fun _ _ => True)
          (r >>= fun a => expectEnd >>= fun _ => pure a)
          (r' >>= fun a => expectEnd >>= fun _ => pure a) :=
        (matched tokens scanned).bind fun a rest left =>
          (Matches.expectEnd (stream.left left)).bind fun _ _ _ => .pure trivial
      rw [readWhole_of_scan scanned, readWhole_of_scan scanned]
      exact Matched.map checked fun _ _ => trivial

end Snippet.Grammar
