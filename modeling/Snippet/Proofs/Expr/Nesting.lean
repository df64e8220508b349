import Snippet.Proofs.Expr.Paired

/-!
Brackets of an expression. A reader closes the brackets that it opens and no others, whatever their
shape, and takes a colon only inside of brackets.
-/

set_option autoImplicit false

namespace Snippet

/-- The brackets that are open behind a token, if it may stand where some are open. A closing one
needs an open one, and so does a colon. -/
def TokenKind.nest : TokenKind → Nat → Option Nat
  | .openParen, d | .openBracket, d | .openBrace, d => some (d + 1)
  | .closeParen, d + 1 | .closeBracket, d + 1 | .closeBrace, d + 1 => some d
  | .closeParen, 0 | .closeBracket, 0 | .closeBrace, 0 | .colon, 0 => Option.none
  | _, d => some d

/-- The kinds that open or close brackets, and the colon. -/
def TokenKind.nesting : List TokenKind :=
  [openParen, openBracket, openBrace, closeParen, closeBracket, closeBrace, colon]

theorem TokenKind.nest_of_not_mem {kind : TokenKind} (other : kind ∉ nesting) (d : Nat) :
    kind.nest d = some d := by
  cases kind <;> first | rfl | exact absurd (by decide) other

namespace Grammar

open Reader Token

variable {α β : Type} {d d' d'' : Nat} {kind : TokenKind}

def nestOver (depth : Nat) (tokens : List Token) : Option Nat :=
  tokens.foldlM (fun depth token => token.kind.nest depth) depth

/-- What stands between two lists leads from some open brackets to some. -/
def Passed (d d' : Nat) (ts rest : List Token) : Prop :=
  ∃ taken, ts = taken ++ rest ∧ nestOver d taken = some d'

namespace Passed

variable {ts us rest : List Token}

theorem refl (d : Nat) (ts : List Token) : Passed d d ts ts :=
  ⟨[], rfl, rfl⟩

theorem trans (first : Passed d d' ts us) (later : Passed d' d'' us rest) : Passed d d'' ts rest := by
  obtain ⟨front, rfl, level⟩ := first
  obtain ⟨back, rfl, level'⟩ := later
  refine ⟨front ++ back, (List.append_assoc ..).symm, ?_⟩
  rw [nestOver, List.foldlM_append]
  exact Option.bind_eq_some_iff.mpr ⟨d', level, level'⟩

-- Behind the next token, or at the end, which is none.
theorem tail (level : (nextKind ts).nest d = some d') : Passed d d' ts ts.tail := by
  cases ts with
  | nil =>
      cases level
      exact refl _ _
  | cons t ts =>
      refine ⟨[t], rfl, ?_⟩
      rw [nestOver, List.foldlM_cons]
      exact Option.bind_eq_some_iff.mpr ⟨d', level, rfl⟩

end Passed

/-- A reader that starts where some brackets are open stops where some are. -/
def Nests (d d' : Nat) (r : Reader α) : Prop :=
  ∀ tokens a rest, r tokens = .ok (a, rest) → Passed d d' tokens.list rest.list

/-- The same in front of a token of a kind. -/
def NestsAt (kind : TokenKind) (d d' : Nat) (r : Reader α) : Prop :=
  ∀ tokens a rest, nextKind tokens.list = kind → r tokens = .ok (a, rest) →
    Passed d d' tokens.list rest.list

namespace Nests

variable {r : Reader α} {k : α → Reader β}

theorem at_ (h : Nests d d' r) : NestsAt kind d d' r :=
  fun tokens a rest _ read => h tokens a rest read

theorem pure (a : α) : Nests d d (pure a : Reader α) := by
  intro tokens b rest read
  cases read
  exact .refl _ _

theorem fail (e : ReadError) : Nests d d' (Reader.fail e : Reader α) := by
  intro tokens a rest read
  contradiction

theorem bind (first : Nests d d' r) (next : ∀ a, Nests d' d'' (k a)) : Nests d d'' (r >>= k) := by
  intro tokens b rest read
  obtain ⟨a, between, ran, read⟩ := bind_run_eq_ok.mp read
  exact (first tokens a between ran).trans (next a between b rest read)

theorem lift (r : Except ReadError α) : Nests d d (liftM r : Reader α) := by
  intro tokens a rest read
  cases r with
  | error e => contradiction
  | ok b =>
      cases read
      exact .refl _ _

theorem remaining : Nests d d remaining := by
  intro tokens a rest read
  cases read
  exact .refl _ _

theorem peek_bind {k : Token → Reader β} (next : ∀ token, NestsAt token.kind d d' (k token)) :
    Nests d d' (peek >>= k) := by
  intro tokens b rest read
  obtain ⟨token, same, looked, ran⟩ := bind_run_eq_ok.mp read
  obtain ⟨first, rfl⟩ := head?_of_peek looked
  exact next token _ b rest (by rw [nextKind, first]; rfl) ran

end Nests

namespace NestsAt

variable {k : Unit → Reader β}

theorem advance_bind (level : kind.nest d = some d'') (next : Nests d'' d' (k ())) :
    NestsAt kind d d' (advance >>= k) := by
  rintro tokens b rest rfl read
  replace read := tail_of_advance_bind read
  exact (Passed.tail level).trans (next tokens.tail b rest read)

-- Two tokens are taken together if the second one is of a kind.
theorem peekSecond_bind {second : TokenKind} {test : Bool} {r s : Reader β}
    (level : test = true → kind.nest d = some d) (level' : second.nest d = some d)
    (taken : Nests d d' r) (left : NestsAt kind d d' s) :
    NestsAt kind d d' (peekSecond >>= fun next =>
      if test && next.kind == second then advance >>= fun _ => advance >>= fun _ => r else s) := by
  rintro tokens b rest here read
  -- The second token is behind the next one, unless the list ends before.
  have ran : ∃ next, peekSecond tokens = .ok (next, tokens) ∧
      (next.kind = second → (nextKind tokens.list.tail).nest d = some d) := by
    unfold peekSecond
    split
    · rename_i first next others whole
      rw [whole]
      exact ⟨next, rfl, fun same => (congrArg (TokenKind.nest · d) same).trans level'⟩
    · rename_i last whole
      rw [whole]
      exact ⟨last, rfl, fun _ => rfl⟩
    · rename_i whole
      rw [whole]
      exact ⟨_, rfl, fun _ => rfl⟩
  obtain ⟨next, ran, behind⟩ := ran
  rw [bind_run, ran] at read
  dsimp only at read
  split at read
  · rename_i both
    rw [Bool.and_eq_true, beq_iff_eq] at both
    subst here
    replace read := tail_of_advance_bind read
    replace read := tail_of_advance_bind read
    have first := Passed.tail (level both.1)
    have second := Passed.tail (behind both.2)
    exact (first.trans second).trans (taken tokens.tail.tail b rest read)
  · exact left tokens b rest here read

end NestsAt

namespace Nests

variable {k : Bool → Reader β}

theorem accept_bind (level : kind.nest d = some d'') (taken : Nests d'' d' (k true))
    (left : Nests d d' (k false)) : Nests d d' (accept kind >>= k) := by
  rw [accept, bind_assoc]
  refine peek_bind fun token => ?_
  by_cases here : token.kind = kind
  · rw [if_pos (beq_iff_eq.mpr here), bind_assoc]
    exact .advance_bind (by rw [here, level]) taken
  · rw [if_neg (by simpa using here), pure_bind]
    exact left.at_

theorem expect (level : kind.nest d = some d') : Nests d d' (expect kind) := by
  refine peek_bind fun token => ?_
  by_cases here : token.kind = kind
  · rw [if_pos (beq_iff_eq.mpr here)]
    exact .advance_bind (by rw [here, level]) (.pure _)
  · rw [if_neg (by simpa using here)]
    exact (Nests.fail _).at_

theorem discard (level : kind.nest d = some d') : Nests d d' (discard (Reader.expect kind)) :=
  (expect level).bind fun _ => .pure _

end Nests

/-! ### What needs no levels -/

theorem comparisonOf?_level {op : Comparison} (found : comparisonOf? kind = some op) :
    kind.nest d = some d := by
  cases kind <;> first | rfl | contradiction

theorem nests_comparison? : Nests d d comparison? := by
  refine .peek_bind fun token => ?_
  cases found : comparisonOf? token.kind with
  | some op => exact .advance_bind (comparisonOf?_level found) (.pure _)
  | none =>
      by_cases is : token.kind = .is
      · simp only [is, beq_self_eq_true, if_true]
        exact .advance_bind rfl (.accept_bind rfl (.pure _) (.pure _))
      · simp only [beq_false_of_ne is, Bool.false_eq_true, if_false]
        refine .peekSecond_bind (fun not => ?_) rfl (.pure _) (Nests.pure _).at_
        rw [beq_iff_eq.mp not]
        rfl

theorem joinBool_level {op : BoolOp} {k : TokenKind} {join : Expr → Expr → Expr}
    (level : kind.nest d = some d) (found : joinBool kind op k = some join) :
    k.nest d = some d := by
  rw [joinBool] at found
  split at found
  · rename_i same
    rw [beq_iff_eq.mp same, level]
  · contradiction

theorem nests_literalNumber (token : Token) : Nests d d (literalNumber token) := by
  fun_cases literalNumber token
  · exact .pure _
  · exact .fail _

theorem nests_literalFloat (token : Token) : Nests d d (literalFloat token) := by
  fun_cases literalFloat token
  · exact .pure _
  · exact .fail _

section Loops

variable {operand : Reader Expr} (of_operand : Nests d d operand)
include of_operand

theorem nests_chainLoop {join? : TokenKind → Option (Expr → Expr → Expr)}
    (level : ∀ {kind join}, join? kind = some join → kind.nest d = some d) (turns : Nat)
    (left : Expr) : Nests d d (chainLoop operand join? turns left) := by
  induction turns generalizing left with
  | zero => exact .pure _
  | succ turns ih =>
      refine .peek_bind fun token => ?_
      cases found : join? token.kind with
      | none => exact (Nests.pure _).at_
      | some join => exact .advance_bind (level found) (of_operand.bind fun right => ih _)

theorem nests_chain {join? : TokenKind → Option (Expr → Expr → Expr)}
    (level : ∀ {kind join}, join? kind = some join → kind.nest d = some d) :
    Nests d d (chain operand join?) :=
  of_operand.bind fun left => .bind .remaining fun turns =>
    nests_chainLoop of_operand level turns left

theorem nests_linksLoop (turns : Nat) : Nests d d (linksLoop operand turns) := by
  induction turns with
  | zero => exact .pure _
  | succ turns ih =>
      refine nests_comparison?.bind fun op => ?_
      cases op with
      | none => exact .pure _
      | some op => exact of_operand.bind fun right => ih.bind fun rest => .pure _

end Loops

section Items

variable {item : Reader α} (of_item : Nests d d item)
include of_item

theorem nests_moreItems (goesOn : TokenKind → Bool) (turns : Nat) :
    Nests d d (moreItems item goesOn turns) := by
  induction turns with
  | zero => exact .pure _
  | succ turns ih =>
      refine .accept_bind rfl ?_ (.pure _)
      refine .peek_bind fun token => Nests.at_ ?_
      split
      · exact of_item.bind fun first => ih.bind fun rest => .pure _
      · exact .pure _

theorem nests_itemsUntil (closing : TokenKind) : Nests d d (itemsUntil item closing) := by
  refine .peek_bind fun token => Nests.at_ ?_
  split
  · exact .pure _
  · refine of_item.bind fun first => .bind .remaining fun turns => ?_
    exact (nests_moreItems of_item _ turns).bind fun rest => .pure _

end Items

/-! ### Given the levels -/

section Levels

variable {levels : Levels} (of_levels : ∀ l d, Nests d d (levels l))
include of_levels

theorem nests_argument (afterKeyword : Bool) : Nests d d (argument levels afterKeyword) := by
  refine .peek_bind fun token => ?_
  refine .peekSecond_bind (fun name => ?_) rfl
    ((of_levels .conditional d).bind fun e => .pure _) (Nests.at_ ?_)
  · rw [beq_iff_eq.mp name]
    rfl
  · split
    · exact .fail _
    · exact (of_levels .conditional d).bind fun e => .pure _

theorem nests_argumentsLoop (closing : TokenKind) (turns : Nat) (afterKeyword : Bool) :
    Nests d d (argumentsLoop levels closing turns afterKeyword) := by
  induction turns generalizing afterKeyword with
  | zero => exact .pure _
  | succ turns ih =>
      refine .peek_bind fun token => Nests.at_ ?_
      split
      · exact .pure _
      · refine (nests_argument of_levels afterKeyword).bind fun first => ?_
        exact .accept_bind rfl ((ih _).bind fun rest => .pure _) (.pure _)

theorem nests_arguments (closing : TokenKind) : Nests d d (arguments levels closing) :=
  .bind .remaining fun turns => nests_argumentsLoop of_levels closing turns false

theorem nests_listed (goesOn : TokenKind → Bool) (column : Expr → Nat) :
    Nests d d (listed levels goesOn column) := by
  refine (of_levels .conditional d).bind fun first => .peek_bind fun token => Nests.at_ ?_
  split
  · refine .bind .remaining fun turns => ?_
    exact (nests_moreItems (of_levels .conditional d) goesOn turns).bind fun rest => .pure _
  · exact .pure _

theorem nests_exprList : Nests d d (exprList levels) :=
  nests_listed of_levels startsExpr Expr.column

theorem nests_slicePart (closing : List TokenKind) : Nests d d (slicePart levels closing) := by
  refine .peek_bind fun token => Nests.at_ ?_
  split
  · exact .pure _
  · exact (of_levels .conditional d).bind fun e => .pure _

-- A colon of a slice stands inside of its brackets.
theorem nests_subscript : Nests (d + 1) (d + 1) (subscript levels) := by
  refine .peek_bind fun token => Nests.at_ ?_
  refine (nests_slicePart of_levels _).bind fun lower => .peek_bind fun next => Nests.at_ ?_
  split
  · exact .pure _
  · refine (Nests.discard rfl).bind fun _ => (nests_slicePart of_levels _).bind fun upper => ?_
    exact .accept_bind rfl ((nests_slicePart of_levels _).bind fun step => .pure _)
      (.bind (.pure _) fun step => .pure _)

theorem nests_trailersLoop (turns : Nat) (base : Expr) :
    Nests d d (trailersLoop levels turns base) := by
  induction turns generalizing base with
  | zero => exact .pure _
  | succ turns ih =>
      refine .peek_bind fun token => ?_
      cases here : token.kind with
      | openParen =>
          refine .advance_bind rfl ((nests_arguments of_levels _).bind fun args => ?_)
          exact (Nests.discard rfl).bind fun _ => ih _
      | openBracket =>
          refine .advance_bind rfl ((nests_subscript of_levels).bind fun sub => ?_)
          exact (Nests.discard rfl).bind fun _ => ih _
      | dot => exact .advance_bind rfl ((Nests.expect rfl).bind fun id => ih _)
      | _ => exact (Nests.pure _).at_

omit of_levels in
theorem nests_textsLoop (turns : Nat) : Nests d d (textsLoop levels turns) := by
  induction turns with
  | zero => exact .pure _
  | succ turns ih =>
      refine .peek_bind fun token => ?_
      cases here : token.kind with
      | string => exact .advance_bind rfl (ih.bind fun _ => .pure _)
      | formatted =>
          refine .advance_bind rfl ((Nests.lift _).bind fun parts => ?_)
          exact ih.bind fun _ => .pure _
      | _ => exact (Nests.pure _).at_

omit of_levels in
theorem nests_texts (column : Nat) : Nests d d (texts levels column) := by
  refine .bind .remaining fun turns => (nests_textsLoop turns).bind fun ⟨formatted, parts⟩ => ?_
  dsimp only
  split
  · exact .pure _
  · split <;> exact .pure _

theorem nests_parenthesized (column : Nat) :
    NestsAt .openParen d d (parenthesized levels column) := by
  rw [parenthesized_eq]
  refine .advance_bind rfl (.accept_bind rfl (.pure _) ?_)
  refine (nests_listed of_levels _ _).bind fun e => ?_
  exact (Nests.discard rfl).bind fun _ => .pure _

-- A colon of an entry stands inside of the braces.
theorem nests_entry : Nests (d + 1) (d + 1) (entry levels) := by
  refine (of_levels .conditional _).bind fun key => (Nests.discard rfl).bind fun _ => ?_
  exact (of_levels .conditional _).bind fun value => .pure _

theorem nests_atom : Nests d d (atom levels) := by
  refine .peek_bind fun token => ?_
  cases here : token.kind with
  | number => exact .advance_bind rfl (nests_literalNumber token)
  | float => exact .advance_bind rfl (nests_literalFloat token)
  | string => exact (nests_texts _).at_
  | formatted => exact (nests_texts _).at_
  | true => exact .advance_bind rfl (.pure _)
  | false => exact .advance_bind rfl (.pure _)
  | none => exact .advance_bind rfl (.pure _)
  | name => exact .advance_bind rfl (.pure _)
  | openParen => exact nests_parenthesized of_levels _
  | openBracket =>
      refine .advance_bind rfl ((nests_itemsUntil (of_levels .conditional _) _).bind ?_)
      exact fun items => (Nests.discard rfl).bind fun _ => .pure _
  | openBrace =>
      refine .advance_bind rfl ((nests_itemsUntil (nests_entry of_levels) _).bind ?_)
      exact fun entries => (Nests.discard rfl).bind fun _ => .pure _
  | _ => exact (Nests.fail _).at_

theorem nests_level (l : Level) : Nests d d (level levels l) := by
  cases l with
  | conditional =>
      refine (of_levels .or d).bind fun body => .accept_bind rfl ?_ (.pure _)
      refine (of_levels .or d).bind fun test => (Nests.discard rfl).bind fun _ => ?_
      exact (of_levels .conditional d).bind fun orelse => .pure _
  | or => exact nests_chain (of_levels .and d) (joinBool_level rfl)
  | and => exact nests_chain (of_levels .not d) (joinBool_level rfl)
  | not =>
      refine .peek_bind fun token => ?_
      by_cases here : token.kind = .not
      · rw [if_pos (beq_iff_eq.mpr here), here]
        exact .advance_bind rfl ((of_levels .not d).bind fun e => .pure _)
      · rw [if_neg (by simpa using here)]
        exact (of_levels .comparison d).at_
  | comparison =>
      refine (of_levels .sum d).bind fun first => .bind .remaining fun turns => ?_
      refine (nests_linksLoop (of_levels .sum d) turns).bind fun links => ?_
      split <;> exact .pure _
  | sum =>
      refine nests_chain (of_levels .product d) fun {kind join} found => ?_
      cases kind <;> first | rfl | contradiction
  | product =>
      refine nests_chain (of_levels .unary d) fun {kind join} found => ?_
      cases kind <;> first | rfl | contradiction
  | unary =>
      refine .peek_bind fun token => ?_
      cases here : token.kind with
      | plus => exact .advance_bind rfl ((of_levels .unary d).bind fun e => .pure _)
      | minus => exact .advance_bind rfl ((of_levels .unary d).bind fun e => .pure _)
      | _ => exact (of_levels .power d).at_
  | power =>
      refine (of_levels .trailed d).bind fun base => .accept_bind rfl ?_ (.pure _)
      exact (of_levels .unary d).bind fun exponent => .pure _
  | trailed =>
      refine (of_levels .atom d).bind fun base => .bind .remaining fun turns => ?_
      exact nests_trailersLoop of_levels turns base
  | atom => exact nests_atom of_levels

end Levels

theorem nests_readAt (budget : Nat) (l : Level) (d : Nat) : Nests d d (readAt budget l) := by
  induction budget generalizing l d with
  | zero => exact .fail .tooDeep
  | succ budget ih => exact nests_level ih l

theorem tail_of_ended {front ts : List Token} (ended : Ended (front ++ ts))
    (next : nextKind ts = .finish) : ts.tail = [] := by
  induction front with
  | nil =>
      cases ended with
      | last => rfl
      | cons inner => contradiction
  | cons t front ih =>
      rw [List.cons_append] at ended
      generalize whole : front ++ ts = others at ended
      cases ended with
      | last => rw [(List.append_eq_nil_iff.mp whole).2, List.tail_nil]
      | cons _ rest => exact ih (whole ▸ rest)

/-- A text that is read whole leaves no bracket open, and has no colon outside of brackets. -/
theorem nestOver_of_readWhole {r : Reader α} (nests : Nests 0 0 r) {t : Text} {tokens : List Token}
    {a : α} (scanned : scan t = .ok tokens) (read : readWhole r t = .ok a) :
    nestOver 0 tokens = some 0 := by
  obtain ⟨ts, ran, -, next⟩ := (readWhole_eq_ok scanned).mp read
  have passed := nests _ _ _ ran
  have nothing : ts.tail = [] := by
    obtain ⟨taken, whole, -⟩ := passed
    have ended := ended_of_scanFrom scanned
    rw [show tokens = taken ++ ts from whole] at ended
    exact tail_of_ended ended next
  have last : Passed 0 0 ts ts.tail := .tail (by rw [next]; rfl)
  rw [nothing] at last
  obtain ⟨taken, whole, level⟩ := passed.trans last
  rw [List.append_nil] at whole
  rw [show tokens = taken from whole]
  exact level

end Grammar

end Snippet
