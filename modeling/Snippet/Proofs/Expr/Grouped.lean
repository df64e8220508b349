import Snippet.Proofs.Expr.Enclosed
import Snippet.Proofs.Expr.Trailer
import Snippet.Run.Execute

/-!
An expression by itself, and in brackets behind an operator. The list of a tuple ends with its text,
or at a closing bracket; where a comma is followed by something else, both readings fail.
-/

set_option autoImplicit false

namespace Snippet

namespace Grammar

open Reader Token

variable {α β : Type} {t : Text} {ts us tokens others : List Token}

/-! ### Lists that end with their text -/

theorem bind_ne_ok {r : Reader α} {k : α → Reader β} {tokens : Tokens}
    (fails : ∀ p, r tokens ≠ .ok p) (p : β × Tokens) : (r >>= k) tokens ≠ .ok p := by
  rw [bind_run]
  cases ran : r tokens with
  | ok found => exact absurd ran (fails found)
  | error e => nofun

theorem peek_bind_ne_ok {k : Token → Reader β} (other : startsExpr (nextKind ts) = false)
    (fails : ∀ token : Token, startsExpr token.kind = false → ∀ p, k token (.ofList ts) ≠ .ok p)
    (p : β × Tokens) : (peek >>= k) (.ofList ts) ≠ .ok p := by
  rw [bind_run]
  cases ts with
  | nil => exact nofun
  | cons token behind =>
      rw [nextKind_cons] at other
      exact fails token other p

/-- No level reads an expression where none starts. -/
theorem readAt_needs_start {budget : Nat} {l : Level} (other : startsExpr (nextKind ts) = false)
    (p : Expr × Tokens) : readAt budget l (.ofList ts) ≠ .ok p := by
  induction budget generalizing l p with
  | zero =>
      intro read
      cases read
  | succ budget ih =>
      cases l with
      | conditional | or | and | comparison | sum | product | power | trailed => exact bind_ne_ok ih p
      | not | unary =>
          refine peek_bind_ne_ok other (fun token other p => ?_) p
          cases kind : token.kind <;> rw [kind] at other <;>
            first
            | contradiction
            | exact ih p
      | atom =>
          refine peek_bind_ne_ok other (fun token other p => ?_) p
          cases kind : token.kind <;> rw [kind] at other <;>
            first
            | contradiction
            | intro read
              cases read

theorem bind_pure_eq_ok {r : Reader α} {f : α → β} {tokens rest : Tokens} {b : β} :
    (r >>= fun a => pure (f a)) tokens = .ok (b, rest) ↔ ∃ a, r tokens = .ok (a, rest) ∧ f a = b := by
  rw [bind_run]
  cases r tokens with
  | error e => exact ⟨nofun, nofun⟩
  | ok found =>
      obtain ⟨a, behind⟩ := found
      constructor
      · rintro ⟨⟩
        exact ⟨a, rfl, rfl⟩
      · rintro ⟨_, ⟨⟩, rfl⟩
        rfl

section Ends

variable {rest : List Token} (ended : nextKind rest = .finish)
include ended

-- Behind a comma, what starts no item is the end of the list, or a mistake.
theorem moreItems_goesOn {item : Reader α} {items : List α} {turns : Nat} {token : Token}
    (needs : ∀ {ts}, startsExpr (nextKind ts) = false → ∀ p, item (.ofList ts) ≠ .ok p)
    (later : ∀ {ts items}, moreItems item startsExpr turns (.ofList ts) = .ok (items, .ofList rest) ↔
      moreItems item (· != .finish) turns (.ofList ts) = .ok (items, .ofList rest)) :
    (if startsExpr token.kind then
        item >>= fun first => moreItems item startsExpr turns >>= fun rest => pure (first :: rest)
      else pure []) (.ofList (token :: ts)) = .ok (items, .ofList rest) ↔
    (if token.kind != .finish then
        item >>= fun first => moreItems item (· != .finish) turns >>= fun rest => pure (first :: rest)
      else pure []) (.ofList (token :: ts)) = .ok (items, .ofList rest) := by
  -- What starts an item ends no list. What starts none ends it, since no item is read there.
  cases starting : startsExpr token.kind with
  | true =>
      have inner : (token.kind != .finish) = true := by
        cases kind : token.kind <;> rw [kind] at starting <;> first | rfl | contradiction
      rw [if_pos rfl, if_pos inner, bind_run, bind_run]
      cases item (.ofList (token :: ts)) with
      | error e => rfl
      | ok found =>
          obtain ⟨first, list, size, rfl⟩ := found
          dsimp only
          rw [bind_pure_eq_ok, bind_pure_eq_ok]
          exact exists_congr fun others => and_congr_left' later
  | false =>
      rw [if_neg Bool.false_ne_true]
      by_cases last : token.kind = .finish
      · rw [last]
        rfl
      · have unread := needs (show startsExpr (nextKind (token :: ts)) = false from starting)
        rw [if_pos (bne_iff_ne.mpr last)]
        refine ⟨?_, fun read => absurd read (bind_ne_ok unread _)⟩
        rintro ⟨⟩
        exact absurd ended last

-- The lists end at the same places.
theorem moreItems_ends_iff {item : Reader α} {items : List α} {turns : Nat}
    (needs : ∀ {ts}, startsExpr (nextKind ts) = false → ∀ p, item (.ofList ts) ≠ .ok p) :
    moreItems item startsExpr turns (.ofList ts) = .ok (items, .ofList rest) ↔
      moreItems item (· != .finish) turns (.ofList ts) = .ok (items, .ofList rest) := by
  induction turns generalizing ts items with
  | zero => rfl
  | succ turns ih =>
      rw [moreItems, moreItems, bind_run, bind_run]
      cases accept .comma (.ofList ts) with
      | error e => rfl
      | ok found =>
          obtain ⟨comma, list, size, rfl⟩ := found
          cases comma with
          | false => rfl
          | true =>
              cases list with
              | nil => rfl
              | cons token behind =>
                  exact moreItems_goesOn ended needs ih

theorem listed_ends_iff {budget : Nat} {column : Expr → Nat} {e : Expr} :
    listed (readAt budget) startsExpr column (.ofList ts) = .ok (e, .ofList rest) ↔
      listed (readAt budget) (· != .finish) column (.ofList ts) = .ok (e, .ofList rest) := by
  rw [listed, listed, bind_run, bind_run]
  cases readAt budget .conditional (.ofList ts) with
  | error e => rfl
  | ok found =>
      obtain ⟨first, list, size, rfl⟩ := found
      cases list with
      | nil => rfl
      | cons token list =>
          show (if token.kind == .comma then _ else pure first : Reader Expr) (.ofList (token :: list))
              = _ ↔
            (if token.kind == .comma then _ else pure first : Reader Expr) (.ofList (token :: list)) = _
          split
          · have counted : remaining (.ofList (token :: list))
                = .ok (list.length + 1, .ofList (token :: list)) := rfl
            rw [bind_run, bind_run, counted]
            dsimp only
            rw [bind_pure_eq_ok, bind_pure_eq_ok]
            exact exists_congr fun others =>
              and_congr_left' (moreItems_ends_iff ended readAt_needs_start)
          · rfl

end Ends

/-- A text is read as a tuple whose list ends with the text. -/
theorem read_iff_listed {e : Expr} :
    Expr.read t = .ok e ↔
      readWhole (listed (readAt readBudget) (· != .finish) Expr.column) t = .ok e := by
  cases scanned : scan t with
  | error e =>
      rw [Expr.read, readWhole, readWhole, scanned]
      constructor <;>
        · intro read
          cases read
  | ok tokens =>
      rw [Expr.read, readWhole_eq_ok scanned, readWhole_eq_ok scanned]
      exact exists_congr fun rest => and_congr_left fun ended => listed_ends_iff ended.2

/-! ### A list in brackets -/

-- With something between the brackets, they hold a list.
theorem grouped_atom {opening : Token} (opens : opening.kind = .openParen) (levels : Levels)
    {u : Token} (unclosed : (u.kind == .closeParen) = false) :
    atom levels (.ofList (opening :: u :: us)) =
      (listed levels (· != .closeParen) (fun _ => opening.column) >>= fun e =>
        (discard <| expect .closeParen) >>= fun _ => pure e) (.ofList (u :: us)) := by
  have opened : atom levels (.ofList (opening :: u :: us)) =
      parenthesized levels opening.column (.ofList (opening :: u :: us)) := by
    obtain ⟨kind, value, column, span⟩ := opening
    cases opens
    rfl
  have behind : advance (.ofList (opening :: u :: us)) = .ok ((), .ofList (u :: us)) := rfl
  rw [opened, parenthesized_eq, bind_run, behind]
  dsimp only
  have other : u.kind ≠ .closeParen := by simpa using unclosed
  rw [bind_run, accept_cons fun same => absurd same other, unclosed]
  rfl

/-- A list is at the end of its text where its brackets end around it. -/
theorem parallel_group {opening : Token} {budget budget' : Nat} (less : budget' ≤ budget)
    (opens : opening.kind = .openParen) (pair : shut.Pair 0 tokens others)
    (shown : nextKind tokens ≠ .finish) :
    Parallel (AtEnd fun side e => e.bare = side.bare)
      ((listed (readAt budget) (· != .finish) Expr.column >>= fun e => expectEnd >>= fun _ => pure e)
        (.ofList tokens))
      (readAt (budget' + 1) .atom (.ofList (opening :: others))) := by
  have agree : shut.Agree tokens.length 0 0 (Same Expr.bare)
      (listed (readAt budget) (· != .finish) Expr.column)
      (listed (readAt budget') (· != .closeParen) fun _ => opening.column) :=
    Pairing.agree_listed (Pairing.agree_readAt less)
      (fun t ts u us pair => congrArg (!·) (shut_together pair)) (Pairing.alike_of_eq rfl) _ _
  obtain ⟨t, ts, u, us, rfl, rfl⟩ := Pairing.exists_cons pair
  have unclosed : (u.kind == .closeParen) = false :=
    (shut_together pair).symm.trans (beq_false_of_ne shown)
  show Parallel _ _ (atom (readAt budget') _)
  rw [grouped_atom opens _ unclosed]
  exact parallel_shut agree pair fun e e' last same end_ => ⟨e', rfl, same.symm⟩

end Grammar

/-! ### Behind a name and an operator -/

namespace BinaryOp

open Grammar (Level)

/-- The kind of token that stands for an operator. -/
def kind : BinaryOp → TokenKind
  | add => .plus
  | sub => .minus
  | mul => .star
  | div => .slash
  | floorDiv => .floorDivide
  | mod => .percent
  | pow => .power

/-- The level that reads an operator. -/
def level : BinaryOp → Level
  | add | sub => .sum
  | mul | div | floorDiv | mod => .product
  | pow => .power

/-- The level that reads what stands behind an operator. -/
def rightLevel : BinaryOp → Level
  | add | sub => .product
  | mul | div | floorDiv | mod | pow => .unary

end BinaryOp

namespace Grammar

open Reader Token

variable {t x : Text} {ts us tokens others : List Token} {name sign : Token}
  {result : Except ReadError (Expr × Tokens)}

theorem readAt_name (more : ts ≠ []) (named : name.symbol = .name x) {l : Level} {n : Nat}
    (enough : Level.atom.rank - l.rank + 1 ≤ n) (stopped : stops l (nextKind ts) = true) :
    ∃ left : Expr, left.bare = .name 0 x ∧
      readAt n l (.ofList (name :: ts)) = .ok (left, .ofList ts) := by
  have written := (@Writes.name x 0).loosened (Level.rank_le_atom l)
  have symbols : [name].map Token.symbol = [.name x] := congrArg ([·]) named
  obtain ⟨_, ⟨left, rfl, same⟩, ran⟩ :=
    (written.reads.takes n ts stopped more [name] symbols).1 enough
  exact ⟨left, same, ran⟩

-- An operator with two operands, and nothing behind them.
theorem chain_once {operand : Reader Expr} {join? : TokenKind → Option (Expr → Expr → Expr)}
    {join : Expr → Expr → Expr} {left : Expr} (more : us ≠ [])
    (taken : operand (.ofList ts) = .ok (left, .ofList (sign :: us)))
    (joins : join? sign.kind = some join) (ends : join? .finish = none)
    (ran : operand (.ofList us) = result) (toEnd : ToEnd result) :
    chain operand join? (.ofList ts) = result.map fun p => (join left p.1, p.2) := by
  have counted : remaining (.ofList (sign :: us)) = .ok (us.length + 1, .ofList (sign :: us)) := rfl
  have looked : peek (.ofList (sign :: us)) = .ok (sign, .ofList (sign :: us)) := rfl
  rw [chain, bind_run, taken]
  dsimp only
  rw [bind_run, counted]
  dsimp only
  rw [chainLoop, bind_run, looked]
  simp only [joins]
  rw [advance_bind_cons _ sign more, bind_run, ran]
  cases result with
  | error e => rfl
  | ok found =>
      obtain ⟨right, rest⟩ := found
      obtain ⟨last, rfl, end_⟩ := toEnd right rest rfl
      have other : join? (nextKind [last]) = none := by
        rw [nextKind_cons, end_]
        exact ends
      exact chainLoop_ends (List.cons_ne_nil _ _) other _ _

theorem readAt_binary {op : BinaryOp} {n : Nat} (enough : 5 ≤ n) (more : us ≠ [])
    (named : name.symbol = .name x) (signed : sign.kind = op.kind)
    (ran : readAt n op.rightLevel (.ofList us) = result) (toEnd : ToEnd result) :
    ∃ left : Expr, left.bare = .name 0 x ∧
      readAt (n + 1) op.level (.ofList (name :: sign :: us))
        = result.map fun p => (.binary left.column op left p.1, p.2) := by
  have here : sign :: us ≠ [] := List.cons_ne_nil sign us
  have stopped {l : Level} (h : stops l op.kind = true) :
      stops l (nextKind (sign :: us)) = true := by
    rw [nextKind_cons, signed]
    exact h
  have joins (op? : TokenKind → Option BinaryOp) (h : op? op.kind = some op) :
      joinBinary op? sign.kind = some fun left right => .binary left.column op left right := by
    rw [joinBinary, signed, h]
    rfl
  -- The left operand is a name. Only the level that the operator is read at differs.
  cases op with
  | add | sub =>
      obtain ⟨left, same, taken⟩ := readAt_name here named (l := .product) enough (stopped rfl)
      have read := chain_once more taken (joins sumOp? rfl) rfl ran toEnd
      exact ⟨left, same, read⟩
  | mul | div | floorDiv | mod =>
      have fits : 4 ≤ n := by omega
      obtain ⟨left, same, taken⟩ := readAt_name here named (l := .unary) fits (stopped rfl)
      have read := chain_once more taken (joins productOp? rfl) rfl ran toEnd
      exact ⟨left, same, read⟩
  | pow =>
      have fits : 2 ≤ n := by omega
      obtain ⟨left, same, taken⟩ := readAt_name here named (l := .trailed) fits (stopped rfl)
      refine ⟨left, same, ?_⟩
      show (readAt n .trailed >>= fun base => accept .power >>= fun accepted =>
        if accepted then readAt n .unary >>= fun exponent => pure (.binary base.column .pow base exponent)
        else pure base) _ = _
      rw [bind_run, taken]
      dsimp only
      rw [bind_run, accept_cons fun _ => more, signed]
      show (readAt n .unary >>= fun exponent => pure _) (.ofList us) = _
      rw [bind_run, show readAt n .unary (.ofList us) = result from ran]
      cases result <;> rfl

/-- A list in brackets behind a name and an operator, in a whole text. -/
theorem parallel_behind {op : BinaryOp} {opening : Token} {budget budget' : Nat}
    {x' : Except ReadError (Expr × Tokens)} (named : name.symbol = .name x)
    (signed : sign.kind = op.kind) (opens : opening.kind = .openParen)
    (group : Parallel (AtEnd fun side e => e.bare = side.bare) x'
      (readAt (budget' + 1) .atom (.ofList (opening :: others))))
    (steps : budget = budget' + 1 + (Level.atom.rank - op.rightLevel.rank) + 1 + op.level.rank)
    (enough : 4 ≤ budget') :
    Parallel (AtEnd fun side e => e.bare = .binary 0 op (.name 0 x) side.bare) x'
      (exprList (readAt budget) (.ofList (name :: sign :: opening :: others))) := by
  have starting : starts .atom (nextKind (opening :: others)) = true := by
    rw [nextKind_cons, opens]
    rfl
  have starting_name : starts .atom (nextKind (name :: sign :: opening :: others)) = true := by
    rw [nextKind_cons, (Symbol.mk.inj named).1]
    rfl
  have toEnd := toEnd_of_parallel group
  have apart : op.rightLevel.rank + (Level.atom.rank - op.rightLevel.rank) = Level.atom.rank :=
    Nat.add_sub_of_le (Level.rank_le_atom _)
  -- A bracket starts no looser expression, so the right operand is the list and no more.
  have operand := readAt_looser apart starting rfl toEnd
  have more : opening :: others ≠ [] := List.cons_ne_nil opening others
  obtain ⟨left, same, read⟩ := readAt_binary (by omega) more named signed operand toEnd
  subst steps
  refine parallel_exprList starting_name ?_
  rw [read]
  generalize readAt (budget' + 1) .atom (.ofList (opening :: others)) = inside at group
  cases group with
  | deep => exact .deep
  | failed => exact .failed
  | read related =>
      obtain ⟨same_side, last⟩ := related
      refine .read ⟨?_, last⟩
      show Expr.bare (.binary _ op left _) = _
      rw [Expr.bare, same, same_side]

end Grammar

/-! ### The whole text -/

open Grammar Token Exec

variable {x t : Text}

theorem BinaryOp.reading (op : BinaryOp) (after : Text) :
    Reading ⟨op.kind, op.symbol.toList⟩ op.symbol.toList (' ' :: after) := by
  have listed : (op.symbol, op.kind) ∈ operators := by
    cases op <;> decide
  have alone : operators.all (fun o => !(op.symbol.toList ++ [' ']).isPrefixOf o.1.toList) = true := by
    cases op <;> decide
  have no_dot : op.kind ≠ .dot := by
    cases op <;> decide
  refine reading_operator listed ?_
  rintro _ ⟨⟩
  exact ⟨alone, fun dot => absurd dot no_dot⟩

theorem Token.scan_assignedExpression (identifier : isIdentifier x = true) (op : BinaryOp)
    (t : Text) :
    ∃ (name sign opening : Token) (column : Nat), name.symbol = .name x ∧ sign.kind = op.kind ∧
      opening.kind = .openParen ∧ scan (assignedExpression [x] t (some op))
        = (scanFrom column (t ++ [')'])).map fun tokens => name :: sign :: opening :: tokens := by
  have whole : assignedExpression [x] t (some op) =
      x ++ ([' '] ++ (op.symbol.toList ++ (' ' :: (['('] ++ (t ++ [')']))))) := by
    simp [assignedExpression]
  have of_name : Reading (.name x) x
      ([' '] ++ (op.symbol.toList ++ (' ' :: (['('] ++ (t ++ [')']))))) := by
    refine reading_name identifier ?_
    rintro _ ⟨⟩
    decide
  obtain ⟨name, named, first⟩ := scanFrom_reading of_name 1
  obtain ⟨sign, signed, second⟩ := scanFrom_reading (op.reading (['('] ++ (t ++ [')'])))
    (1 + x.length + 1)
  obtain ⟨opening, opens, third⟩ := scanFrom_reading (reading_opening (t ++ [')']))
    (1 + x.length + 1 + op.symbol.toList.length + 1)
  refine ⟨name, sign, opening, 1 + x.length + 1 + op.symbol.toList.length + 1 + ['('].length, named,
    congrArg Symbol.kind signed, congrArg Symbol.kind opens, ?_⟩
  have behind : scanFrom (1 + x.length + 1 + op.symbol.toList.length) (' ' :: (['('] ++ (t ++ [')'])))
      = scanFrom (1 + x.length + 1 + op.symbol.toList.length + 1) (['('] ++ (t ++ [')'])) :=
    scanFrom_layout (by decide) _
  rw [scan, whole, first, scanFrom_gap rfl, List.length_singleton, second, behind, third]
  cases scanFrom (1 + x.length + 1 + op.symbol.toList.length + 1 + ['('].length) (t ++ [')']) <;> rfl

/-- A text next to the text that combines it with a name, where all its brackets are closed behind
where they are opened. -/
theorem parallel_read {op : BinaryOp} (identifier : isIdentifier x = true)
    (nested : ∀ tokens, scan t = .ok tokens →
      Nested 0 tokens ∧ depthOver 0 tokens = 0 ∧ nextKind tokens ≠ .finish) :
    Parallel (fun side e => e.bare = .binary 0 op (.name 0 x) side.bare)
      (readWhole (listed (readAt readBudget) (· != .finish) Expr.column) t)
      (Expr.read (assignedExpression [x] t (some op))) := by
  obtain ⟨name, sign, opening, column, named, signed, opens, scanned_whole⟩ :=
    scan_assignedExpression identifier op t
  have budgets : ∃ budget', budget' ≤ readBudget ∧ 4 ≤ budget' ∧ readBudget =
      budget' + 1 + (Level.atom.rank - op.rightLevel.rank) + 1 + op.level.rank := by
    cases op with
    | add | sub | mul | div | floorDiv | mod => exact ⟨969, by decide⟩
    | pow => exact ⟨967, by decide⟩
  obtain ⟨budget', less, enough, steps⟩ := budgets
  refine parallel_enclosed scanned_whole fun tokens others scanned scanned_whole closed => ?_
  obtain ⟨inside, balanced, shown⟩ := nested tokens scanned
  have group := parallel_group less opens ⟨closed, inside, balanced⟩ shown
  exact parallel_whole scanned scanned_whole
    (parallel_behind named signed opens group steps enough)

/-- A text in brackets, combined with a name, is read just if the text is read by itself, and then
it is the operation of the name and what the text is, up to columns. -/
theorem read_assignedExpression {op : BinaryOp} (identifier : isIdentifier x = true)
    (nested : ∀ tokens, scan t = .ok tokens →
      Nested 0 tokens ∧ depthOver 0 tokens = 0 ∧ nextKind tokens ≠ .finish)
    (shallow : Expr.read (assignedExpression [x] t (some op)) ≠ .error .tooDeep) :
    ((∃ e, Expr.read (assignedExpression [x] t (some op)) = .ok e) ↔ ∃ side, Expr.read t = .ok side) ∧
      ∀ e side, Expr.read (assignedExpression [x] t (some op)) = .ok e → Expr.read t = .ok side →
        e.bare = .binary 0 op (.name 0 x) side.bare := by
  have both := @parallel_read x t op identifier nested
  simp only [read_iff_listed (t := t)]
  generalize readWhole (listed (readAt readBudget) (· != .finish) Expr.column) t = alone at both ⊢
  generalize Expr.read (assignedExpression [x] t (some op)) = inside at both shallow ⊢
  cases both with
  | deep => contradiction
  | failed => exact ⟨⟨nofun, nofun⟩, nofun⟩
  | read related =>
      refine ⟨⟨fun _ => ⟨_, rfl⟩, fun _ => ⟨_, rfl⟩⟩, ?_⟩
      rintro _ _ ⟨⟩ ⟨⟩
      exact related

end Snippet
