import Snippet.Proofs.Expr.Reading

/-!
Levels of precedence. What is read at one level is read in the same way at every looser level,
with one more step for each level between, and in brackets at every level.
-/

set_option autoImplicit false

namespace Snippet.Grammar

open Reader Snippet.Symbol

-- The level at which a token continues an expression.
def continued? : TokenKind → Option Level
  | .if => some .conditional
  | .or => some .or
  | .and => some .and
  | .equal | .notEqual | .less | .greater | .lessEqual | .greaterEqual | .in | .is | .not =>
      some .comparison
  | .plus | .minus => some .sum
  | .star | .slash | .floorDivide | .percent => some .product
  | .power => some .power
  | .openParen | .openBracket | .dot => some .trailed
  | .string | .formatted => some .atom
  | _ => none

-- Behind an expression of a level, a token that belongs to no such expression.
def stops (level : Level) (kind : TokenKind) : Bool :=
  match continued? kind with
  | some l => l.rank < level.rank
  | none => true

-- A token that an expression of a level may start with.
def starts (level : Level) (kind : TokenKind) : Bool :=
  startsExpr kind && (kind != .not || level.rank ≤ Level.not.rank)
    && ((signOp? kind).isNone || level.rank ≤ Level.unary.rank)

namespace Level

-- Operands of a level that groups to the left are read one level tighter, others in one go.
def inner : Level → Level
  | or => and
  | and => not
  | sum => product
  | product => unary
  | trailed => atom
  | level => level

theorem rank_inner (level : Level) : level.rank ≤ level.inner.rank := by
  cases level <;> decide

theorem rank_le_atom (level : Level) : level.rank ≤ atom.rank := by
  cases level <;> decide

theorem rank_inner_le (level : Level) : level.inner.rank ≤ level.tighter.rank := by
  cases level <;> decide

theorem rank_tighter {level : Level} (inside : level ≠ atom) :
    level.tighter.rank = level.rank + 1 := by
  cases level <;> first | rfl | contradiction

theorem eq_of_rank_eq {level other : Level} (same : level.rank = other.rank) : level = other := by
  cases level <;> cases other <;> first | rfl | contradiction

end Level

theorem stops_mono {level tight : Level} {kind : TokenKind} (looser : level.rank ≤ tight.rank)
    (h : stops level kind = true) : stops tight kind = true := by
  rw [stops] at h ⊢
  split
  · rename_i l found
    rw [found] at h
    simp only [decide_eq_true_eq] at h ⊢
    omega
  · rfl

theorem starts_mono {level tight : Level} {kind : TokenKind} (looser : level.rank ≤ tight.rank)
    (h : starts tight kind = true) : starts level kind = true := by
  simp only [starts, Bool.and_eq_true, Bool.or_eq_true, decide_eq_true_eq] at h ⊢
  obtain ⟨⟨starts, negated⟩, signed⟩ := h
  exact ⟨⟨starts, negated.imp id (Nat.le_trans looser)⟩, signed.imp id (Nat.le_trans looser)⟩

-- The loop of a level that groups to the left.
def loopOf (levels : Levels) : Level → Nat → Expr → Reader Expr
  | .or => chainLoop (levels .and) (joinBool .or .or)
  | .and => chainLoop (levels .not) (joinBool .and .and)
  | .sum => chainLoop (levels .product) (joinBinary sumOp?)
  | .product => chainLoop (levels .unary) (joinBinary productOp?)
  | .trailed => trailersLoop levels
  | _ => fun _ e => pure e

theorem chainLoop_ends {operand : Reader Expr}
    {join? : TokenKind → Option (Expr → Expr → Expr)} {rest : List Token}
    (more : rest ≠ []) (other : join? (nextKind rest) = none) (turns : Nat) (left : Expr) :
    chainLoop operand join? turns left (.ofList rest) = .ok (left, .ofList rest) := by
  cases turns with
  | zero => rfl
  | succ turns =>
      rw [nextKind] at other
      rw [chainLoop, bind_run, peek_run more]
      simp only [other]
      rfl

theorem trailersLoop_ends {levels : Levels} {rest : List Token} (more : rest ≠ [])
    (stopped : stops .trailed (nextKind rest) = true) (turns : Nat) (base : Expr) :
    trailersLoop levels turns base (.ofList rest) = .ok (base, .ofList rest) := by
  cases turns with
  | zero => rfl
  | succ turns =>
      rw [trailersLoop, bind_run, peek_run more]
      rw [nextKind] at stopped
      cases kind : (rest.head?.getD (Token.finishAt 1)).kind <;> rw [kind] at stopped <;>
        first
        | contradiction
        | simp only [kind]
          rfl

theorem loopOf_ends {levels : Levels} {level : Level} {rest : List Token} (more : rest ≠ [])
    (stopped : stops level (nextKind rest) = true) (turns : Nat) (e : Expr) :
    loopOf levels level turns e (.ofList rest) = .ok (e, .ofList rest) := by
  cases level with
  | or | and | sum | product =>
      refine chainLoop_ends more ?_ turns e
      cases kind : nextKind rest <;> rw [kind] at stopped <;> first | rfl | contradiction
  | trailed => exact trailersLoop_ends more stopped turns e
  | _ => rfl

/-- Reading follows a layout at its own level, as deep as the budget allows. -/
def Reads (w : Layout) (e : Expr) : Prop :=
  ∀ n, Leads (w.nesting ≤ n) (readAt n w.level) w.symbols (stops w.level.inner · = true)
    (loopOf (readAt (n - 1)) w.level) (·.bare = e.bare)

/-- What an expression of a level starts with: no looser operator, and no name before `=`. -/
def Opens (w : Layout) : Prop :=
  ∃ s rest, w.symbols = s :: rest ∧ starts w.level s.kind = true ∧
    (s.kind = .name → ∀ s' ∈ rest.head?, s'.kind ≠ .assign)

theorem Reads.takes {w : Layout} {e : Expr} (reads : Reads w e) (n : Nat) :
    Takes (w.nesting ≤ n) (readAt n w.level) w.symbols (stops w.level · = true)
      (·.bare = e.bare) :=
  (reads n).finish (fun _ => stops_mono (Level.rank_inner _)) fun a turns _ more stopped =>
    loopOf_ends more stopped turns a

-- Only a budget of at least one step reads anything.
theorem Reads.of_level {w : Layout} {e : Expr} (positive : 1 ≤ w.nesting)
    (h : ∀ n, Leads (w.nesting ≤ n + 1) (level (readAt n) w.level) w.symbols
      (stops w.level.inner · = true) (loopOf (readAt n) w.level) (·.bare = e.bare)) :
    Reads w e := by
  intro n
  cases n with
  | zero => exact fun rest _ => Reaches.tooDeep (by omega)
  | succ n => exact h n

theorem takes_comparison?_none :
    Takes True comparison? [] (stops .comparison · = true) (· = none) := by
  intro rest stopped
  have table (kind : TokenKind) (h : stops .comparison kind = true) :
      comparisonOf? kind = none ∧ (kind == .is) = false ∧ (kind == .not) = false := by
    cases kind <;> first | exact ⟨rfl, rfl, rfl⟩ | contradiction
  obtain ⟨no_op, no_is, no_not⟩ := table _ stopped
  refine Reaches.peek_bind_nil fun token kind => ?_
  simp only [kind, no_op, no_is, no_not]
  exact Reaches.peekSecond_bind_any fun _ => Reaches.done ⟨none, rfl, rfl⟩

theorem takes_linksLoop_nil (operand : Reader Expr) (turns : Nat) :
    Takes True (linksLoop operand turns) [] (stops .comparison · = true) (· = []) := by
  cases turns with
  | zero => exact fun rest _ => Reaches.done ⟨[], rfl, rfl⟩
  | succ turns =>
      intro rest stopped
      refine (Reaches.bind_nil takes_comparison?_none stopped ?_).congr (and_self_iff)
      rintro _ rfl
      exact Reaches.done ⟨[], rfl, rfl⟩

theorem Reads.loosened_once {w : Layout} {e : Expr} {level : Level} (reads : Reads w e)
    (opens : Opens w) (inside : level ≠ .atom) (next : level.tighter = w.level) :
    Reads (w.loosened level) e := by
  have step : (w.loosened level).nesting = w.nesting + 1 := by
    have := Level.rank_tighter inside
    rw [next] at this
    simp only [Layout.loosened]
    omega
  obtain ⟨s, tail, written, starting, -⟩ := opens
  refine Reads.of_level (by omega) fun n => ?_
  have taken := reads.takes n
  have fits : w.nesting ≤ n ↔ (w.loosened level).nesting ≤ n + 1 := by omega
  have follows {kind : TokenKind} : stops level.inner kind = true → stops level.tighter kind = true :=
    stops_mono (Level.rank_inner_le level)
  rw [← next] at taken starting
  show Leads _ _ w.symbols _ _ _
  cases level with
  | atom => contradiction
  | or | and | sum | product | trailed => exact (Leads.start taken).congr fits
  | conditional | power =>
      refine (Leads.of_takes (taken.unless_accepted fun kind stopped => ?_)).congr fits
      refine ⟨follows stopped, ?_⟩
      rintro rfl
      contradiction
  | not =>
      have taken := taken.mono fun kind stopped => follows stopped
      rw [written] at taken ⊢
      refine (Leads.of_takes (taken.peeked fun token kind => ?_)).congr fits
      have other : (token.kind == .not) = false := by
        rw [kind]
        apply beq_false_of_ne
        intro negated
        rw [negated] at starting
        contradiction
      rw [other]
      rfl
  | unary =>
      have taken := taken.mono fun kind stopped => follows stopped
      rw [written] at taken ⊢
      refine (Leads.of_takes (taken.peeked fun token kind => ?_)).congr fits
      have other : signOp? token.kind = none := by
        rw [kind]
        cases same : s.kind <;> rw [same] at starting <;> first | rfl | contradiction
      rw [other]
      rfl
  | comparison =>
      refine (Leads.of_takes fun rest stopped => ?_).congr fits
      refine (Reaches.bind_nil taken (follows stopped) fun first holds => ?_).congr (and_iff_left trivial)
      refine Reaches.remaining_bind fun turns _ => ?_
      refine (Reaches.bind_nil (takes_linksLoop_nil _ turns) stopped ?_).congr and_self_iff
      rintro _ rfl
      exact Reaches.done ⟨first, rfl, holds⟩

theorem Opens.loosened {w : Layout} {level : Level} (opens : Opens w)
    (looser : level.rank ≤ w.level.rank) : Opens (w.loosened level) := by
  obtain ⟨s, tail, written, starting, unassigned⟩ := opens
  exact ⟨s, tail, written, starts_mono looser starting, unassigned⟩

theorem Layout.loosened_self (w : Layout) : w.loosened w.level = w := by
  simp [Layout.loosened]

theorem Layout.loosened_tighter {w : Layout} {level : Level} (looser : level.rank < w.level.rank)
    (inside : level ≠ .atom) : (w.loosened level.tighter).loosened level = w.loosened level := by
  have := Level.rank_tighter inside
  simp only [Layout.loosened, Layout.mk.injEq, true_and]
  omega

theorem Reads.loosened {w : Layout} {e : Expr} {level : Level} (reads : Reads w e)
    (opens : Opens w) (looser : level.rank ≤ w.level.rank) : Reads (w.loosened level) e := by
  obtain ⟨steps, apart⟩ := Nat.exists_eq_add_of_le looser
  induction steps generalizing level with
  | zero =>
      have same : level = w.level := Level.eq_of_rank_eq (by omega)
      rwa [same, Layout.loosened_self]
  | succ steps ih =>
      have inside : level ≠ .atom := by
        rintro rfl
        cases at_level : w.level <;> rw [at_level] at apart <;> simp [Level.rank] at apart <;> omega
      have next := Level.rank_tighter inside
      have reads' := ih (by omega) (by omega : w.level.rank = level.tighter.rank + steps)
      rw [← Layout.loosened_tighter (by omega) inside]
      exact reads'.loosened_once (opens.loosened (by omega)) inside rfl

theorem Reads.whole {w : Layout} {e : Expr} (reads : Reads w e) (opens : Opens w) :
    Reads w.whole e :=
  reads.loosened opens (Nat.zero_le _)

-- At the tightest level there is no loop.
theorem Reads.of_atom {symbols : List Symbol} {nesting : Nat} {e : Expr} (positive : 1 ≤ nesting)
    (h : ∀ n, Takes (nesting ≤ n + 1) (atom (readAt n)) symbols (stops .atom · = true)
      (·.bare = e.bare)) : Reads ⟨.atom, symbols, nesting⟩ e :=
  Reads.of_level positive fun n => Leads.of_takes (h n)

theorem maxOf_le {ns : List Nat} {n : Nat} : maxOf ns ≤ n ↔ ∀ m ∈ ns, m ≤ n := by
  induction ns with
  | nil => simp [maxOf]
  | cons m ns ih =>
      rw [List.forall_mem_cons, ← ih]
      exact Nat.max_le

theorem nesting_enclosed_le {opening closing : TokenKind} {inner : List Symbol}
    {nestings : List Nat} {n : Nat} :
    (Layout.enclosed opening closing inner nestings).nesting ≤ n + 1 ↔ ∀ m ∈ nestings, m ≤ n := by
  rw [← maxOf_le]
  simp only [Layout.enclosed]
  omega

theorem Opens.leading_ne {w : Layout} (opens : Opens w) {kind : TokenKind}
    (closing : startsExpr kind = false) (behind : List Symbol) (next : TokenKind) :
    leading (w.symbols ++ behind) next ≠ kind := by
  obtain ⟨s, tail, written, starting, -⟩ := opens
  rw [written]
  show s.kind ≠ kind
  rintro rfl
  rw [starts, closing] at starting
  contradiction

theorem Reads.bracketed {w : Layout} {e : Expr} (reads : Reads w e) (opens : Opens w) :
    Reads w.bracketed e := by
  apply Reads.of_atom (by simp)
  intro n rest _
  have fits : w.whole.nesting ≤ n ↔ w.bracketed.nesting ≤ n + 1 := by
    rw [Layout.bracketed, nesting_enclosed_le]
    simp
  refine Reaches.congr ?_ fits
  refine Reaches.peek_bind fun token first => ?_
  have kind : token.kind = .openParen := congrArg Symbol.kind first
  simp only [kind]
  refine Reaches.advance_bind (Reaches.accept_bind_other (opens.leading_ne rfl _ _) ?_)
  refine (Reaches.bind ((reads.whole opens).takes n) rfl fun body holds => ?_).congr
    (and_iff_left trivial)
  refine Reaches.peek_bind fun closing here => ?_
  have other : (closing.kind == .comma) = false := by
    rw [show closing.kind = .closeParen from congrArg Symbol.kind here]
    rfl
  rw [other]
  exact Reaches.discard_bind rfl (Reaches.done ⟨body, rfl, holds⟩)

theorem Opens.bracketed (w : Layout) : Opens w.bracketed :=
  ⟨_, _, rfl, rfl, fun named => by contradiction⟩

theorem Reads.operand {w : Layout} {e : Expr} (reads : Reads w e) (opens : Opens w)
    (level : Level) : Reads (w.operand level) e := by
  rw [Layout.operand]
  split
  · exact (reads.bracketed opens).loosened (Opens.bracketed w) (Level.rank_le_atom level)
  · exact reads.loosened opens (by omega)

theorem Opens.operand {w : Layout} (opens : Opens w) (level : Level) :
    Opens (w.operand level) := by
  rw [Layout.operand]
  split
  · exact (Opens.bracketed w).loosened (Level.rank_le_atom level)
  · exact opens.loosened (by omega)

theorem level_operand (w : Layout) (level : Level) : (w.operand level).level = level := by
  rw [Layout.operand]
  split <;> rfl

end Snippet.Grammar
