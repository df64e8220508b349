import Snippet.Proofs.Expr.PairedLoop
import Snippet.Proofs.Expr.Twin

/-!
The grammar on pairs of token lists. Given that the parts of an expression are read alike, so is
every construct. By induction on the budgets this holds of all levels, where the second budget may
be smaller.
-/

set_option autoImplicit false

namespace Snippet.Grammar

open Reader

/-- An argument without the columns of its value. -/
def bareArgument (a : Argument) : Argument :=
  (a.1, a.2.bare)

/-- What is read of texts side by side, without columns. -/
def bareTexts (texts : Bool × List Part) : Bool × List Part :=
  (texts.1, texts.2.map Part.bare)

theorem same_tuple {items items' : List Expr} (same : Same (List.map Expr.bare) items items')
    (column column' : Nat) : Same Expr.bare (.tuple column items) (.tuple column' items') := by
  rw [Same] at same
  rw [Same, Expr.bare, Expr.bare, bareItems_eq, bareItems_eq, same]

/-- One expression, or a tuple of several. A comma goes on where a test of the next kind says so. -/
def listed (levels : Levels) (goesOn : TokenKind → Bool) (column : Expr → Nat) : Reader Expr := do
  let first ← levels .conditional
  if (← peek).kind == .comma then
    let rest ← moreItems (levels .conditional) goesOn (← remaining)
    return .tuple (column first) (first :: rest)
  else return first

theorem exprList_eq (levels : Levels) : exprList levels = listed levels startsExpr Expr.column :=
  rfl

-- With the closing bracket behind both of its branches.
theorem parenthesized_eq (levels : Levels) (column : Nat) :
    parenthesized levels column = advance >>= fun _ => accept .closeParen >>= fun empty =>
      if empty then pure (.tuple column [])
      else listed levels (· != .closeParen) (fun _ => column) >>= fun e =>
        (discard <| expect .closeParen) >>= fun _ => pure e := by
  rw [parenthesized]
  refine congrArg (advance >>= ·) (funext fun _ => ?_)
  refine congrArg (accept .closeParen >>= ·) (funext fun empty => ?_)
  refine congrArg (ite (empty = true) _) ?_
  rw [listed, bind_assoc]
  refine congrArg (levels .conditional >>= ·) (funext fun first => ?_)
  rw [bind_assoc]
  refine congrArg (peek >>= ·) (funext fun next => ?_)
  cases next.kind == .comma with
  | true => simp only [if_true, bind_assoc, pure_bind]
  | false => rfl

theorem partText_bare (part : Part) : partText part.bare = partText part := by
  cases part <;> rfl

theorem flatMap_partText {parts parts' : List Part}
    (same : Same (List.map Part.bare) parts parts') :
    parts.flatMap partText = parts'.flatMap partText := by
  have bare (parts : List Part) :
      parts.flatMap partText = (parts.map Part.bare).flatMap partText := by
    simp only [List.flatMap_map, partText_bare]
  rw [Same] at same
  rw [bare, bare parts', same]

namespace Pairing

variable {P : Pairing} {n : Nat} {d : Int}

/-! ### What needs no levels -/

theorem agree_literalNumber {t u : Token} (same : t.symbol = u.symbol) :
    P.Agree n d d (Same Expr.bare) (literalNumber t) (literalNumber u) := by
  rw [literalNumber, literalNumber, (Symbol.mk.inj same).2]
  split
  · exact .pure rfl
  · exact .fail _ _

theorem agree_literalFloat {t u : Token} (same : t.symbol = u.symbol) :
    P.Agree n d d (Same Expr.bare) (literalFloat t) (literalFloat u) := by
  rw [literalFloat, literalFloat, (Symbol.mk.inj same).2]
  split
  · exact .pure rfl
  · exact .fail _ _

theorem parallel_readTail (column column' : Nat) (tail : Text) :
    Parallel Eq (Field.readTail column tail) (Field.readTail column' tail) := by
  unfold Field.readTail
  split
  · split
    · exact .failed
    · split <;> exact .read rfl
  · exact .read rfl
  · exact .read rfl

theorem joins_bool {kind : TokenKind} (op : BoolOp) (inner : kind ≠ .finish)
    (level : ∀ d, depthAfter d kind = d) : Joins (joinBool kind op) := by
  have spelled {k : TokenKind} {join : Expr → Expr → Expr}
      (found : joinBool kind op k = some join) :
      k = kind ∧ join = fun left right => .bool left.column op left right := by
    rw [joinBool] at found
    split at found
    · rename_i same
      exact ⟨beq_iff_eq.mp same, (Option.some.inj found).symm⟩
    · contradiction
  refine ⟨fun found => ?_, fun found => ?_, fun found l l' r r' left right => ?_⟩
  · rw [(spelled found).1]
    exact inner
  · rw [(spelled found).1]
    exact level
  · rw [Same] at left right
    rw [(spelled found).2, Same, Expr.bare, Expr.bare, left, right]

theorem joins_binary {op? : TokenKind → Option BinaryOp}
    (level : ∀ {k op}, op? k = some op → k ≠ .finish ∧ ∀ d, depthAfter d k = d) :
    Joins (joinBinary op?) := by
  have spelled {k : TokenKind} {join : Expr → Expr → Expr} (found : joinBinary op? k = some join) :
      ∃ op, op? k = some op ∧ join = fun left right => .binary left.column op left right := by
    obtain ⟨op, named, same⟩ := Option.map_eq_some_iff.mp found
    exact ⟨op, named, same.symm⟩
  refine ⟨fun found => ?_, fun found => ?_, fun found l l' r r' left right => ?_⟩
  · obtain ⟨op, named, -⟩ := spelled found
    exact (level named).1
  · obtain ⟨op, named, -⟩ := spelled found
    exact (level named).2
  · obtain ⟨op, -, rfl⟩ := spelled found
    rw [Same] at left right
    rw [Same, Expr.bare, Expr.bare, left, right]

/-! ### Constructs -/

section Constructs

variable {levels levels' : Levels}
  (of_levels : ∀ (P : Pairing) n d l, P.Agree n d d (Same Expr.bare) (levels l) (levels' l))
include of_levels

theorem agree_argument (afterKeyword : Bool) :
    P.Agree n d d (Same bareArgument) (argument levels afterKeyword)
      (argument levels' afterKeyword) := by
  have value (keyword : Option Text) (m : Nat) :
      P.Agree m d d (Same bareArgument)
        (levels .conditional >>= fun e => pure (keyword, e))
        (levels' .conditional >>= fun e => pure (keyword, e)) :=
    (of_levels P m d _).bind fun e e' same => .pure (congrArg (keyword, ·) same)
  have positional (t u : Token) : P.Agree n d d (Same bareArgument)
      (if afterKeyword then Reader.fail (.positionalAfterKeyword t.column)
        else levels .conditional >>= fun e => pure (none, e))
      (if afterKeyword then Reader.fail (.positionalAfterKeyword u.column)
        else levels' .conditional >>= fun e => pure (none, e)) := by
    cases afterKeyword with
    | true => exact .fail _ _
    | false => exact value none n
  refine .peek_at (fun t u equal => ?_) fun t u ended closing => ?_
  · obtain ⟨kind, text⟩ := Symbol.mk.inj equal
    by_cases named : t.kind = .name
    · simp only [← kind, ← text, named, beq_self_eq_true, Bool.true_and]
      refine .peekSecond_bind equal (by rw [named]; decide) (by rw [named]; rfl) (alike_of_eq rfl)
        (by decide) (fun m _ => value _ m) (positional t u).at_
    · simp only [← kind, beq_false_of_ne named, Bool.false_and, Bool.false_eq_true, if_false]
      exact .peekSecond_any (positional t u).at_
  · simp only [ended, closing]
    exact AgreeAt.peekSecond_any (positional t u).at_

-- The two lists of arguments may end in different kinds, if they do so at the same places.
theorem agree_argumentsLoop {closing closing' : TokenKind}
    (together : ∀ {t ts u us}, P.Pair d (t :: ts) (u :: us) →
      (t.kind == closing) = (u.kind == closing'))
    {turns turns' : Nat} (enough : n ≤ turns) (enough' : n + P.extra ≤ turns')
    (afterKeyword : Bool) :
    P.Agree n d d (Same (List.map bareArgument)) (argumentsLoop levels closing turns afterKeyword)
      (argumentsLoop levels' closing' turns' afterKeyword) := by
  refine agree_loop (I := Eq) ?_ enough enough' rfl
  rintro n turns turns' afterKeyword _ rfl later
  refine .peek fun t ts u us pair => ?_
  rw [← together pair]
  split
  · exact .pure rfl
  · refine (agree_argument of_levels afterKeyword).bind fun first first' same => ?_
    have keyword : first.1 = first'.1 := (Prod.mk.inj same).1
    rw [← keyword]
    refine .accept_bind (alike_of_eq rfl) (by decide) (fun m less => ?_) (.pure ?_)
    · refine (later less rfl).bind fun rest rest' of_rest => .pure ?_
      exact .cons same of_rest
    · exact .cons same rfl

theorem agree_arguments {closing closing' : TokenKind}
    (together : ∀ {t ts u us}, P.Pair d (t :: ts) (u :: us) →
      (t.kind == closing) = (u.kind == closing')) :
    P.Agree n d d (Same (List.map bareArgument)) (arguments levels closing)
      (arguments levels' closing') :=
  .remaining_bind fun _ _ =>
    agree_argumentsLoop of_levels together (Nat.le_refl _) (Nat.le_refl _) false

theorem agree_listed {goesOn goesOn' : TokenKind → Bool}
    (alike : ∀ ⦃t ts u us⦄, P.Pair d (t :: ts) (u :: us) → goesOn t.kind = goesOn' u.kind)
    (comma : P.Alike d (· == .comma)) (column column' : Expr → Nat) :
    P.Agree n d d (Same Expr.bare) (listed levels goesOn column)
      (listed levels' goesOn' column') := by
  refine (of_levels P n d _).bind fun first first' same => ?_
  refine .peek fun t ts u us pair => ?_
  rw [← show (t.kind == .comma) = (u.kind == .comma) from comma pair]
  split
  · refine .remaining_bind fun m _ => ?_
    refine .bind (agree_moreItems (fun m => of_levels P m d _) alike (Nat.le_refl _)
      (Nat.le_refl _)) fun rest rest' of_rest => .pure ?_
    exact same_tuple (same.cons of_rest) _ _
  · exact .pure same

theorem agree_exprList :
    P.Agree n d d (Same Expr.bare) (exprList levels) (exprList levels') := by
  rw [exprList_eq, exprList_eq]
  exact agree_listed of_levels (alike_of_eq rfl) (alike_of_eq rfl) _ _

theorem agree_slicePart {closing : List TokenKind} (alike : P.Alike d closing.contains) :
    P.Agree n d d (Same bareOption) (slicePart levels closing) (slicePart levels' closing) := by
  refine .peek fun t ts u us pair => ?_
  rw [← alike pair]
  split
  · exact .pure rfl
  · refine (of_levels P n d _).bind fun e e' same => .pure ?_
    exact congrArg some same

theorem agree_subscript :
    P.Agree n d d (Same Subscript.bare) (subscript levels) (subscript levels') := by
  refine .peek fun t ts u us _ => ?_
  refine (agree_slicePart of_levels (alike_of_eq rfl)).bind fun lower lower' of_lower => ?_
  refine .peek fun v vs w ws pair => ?_
  have alike : P.Alike d (· == .colon) := alike_of_eq rfl
  have colon : (v.kind == .colon) = (w.kind == .colon) := alike pair
  -- What is read from the first colon on.
  have sliced (column column' : Nat) : P.Agree n d d (Same Subscript.bare)
      ((discard <| expect .colon) >>= fun _ =>
        slicePart levels [.colon, .closeBracket] >>= fun upper => accept .colon >>= fun again =>
        if again then
          slicePart levels [.closeBracket] >>= fun step => pure (.slice column lower upper step)
        else pure (.slice column lower upper none))
      ((discard <| expect .colon) >>= fun _ =>
        slicePart levels' [.colon, .closeBracket] >>= fun upper => accept .colon >>= fun again =>
        if again then
          slicePart levels' [.closeBracket] >>= fun step => pure (.slice column' lower' upper step)
        else pure (.slice column' lower' upper none)) := by
    refine .bind (.discard_expect (alike_of_eq rfl) (by decide)) fun _ _ _ => ?_
    refine (agree_slicePart of_levels (alike_of_eq rfl)).bind fun upper upper' of_upper => ?_
    have finished (step step' : Option Expr) (of_step : Same bareOption step step') :
        Same Subscript.bare (.slice column lower upper step)
          (.slice column' lower' upper' step') := by
      rw [Same] at of_lower of_upper of_step
      rw [Same, Subscript.bare, Subscript.bare, of_lower, of_upper, of_step]
    refine .accept_bind (alike_of_eq rfl) (by decide) (fun m less => ?_)
      (.pure (finished none none rfl))
    refine (agree_slicePart of_levels (alike_of_eq rfl)).bind fun step step' of_step => .pure ?_
    exact finished step step' of_step
  rw [← colon]
  cases lower with
  | none =>
      cases lower' with
      | none => exact sliced t.column u.column
      | some position' => contradiction
  | some position =>
      cases lower' with
      | none => contradiction
      | some position' =>
          cases v.kind == .colon with
          | true => exact sliced t.column u.column
          | false =>
              have same : position.bare = position'.bare := Option.some.inj of_lower
              exact .pure (congrArg Subscript.item same)

theorem agree_trailersLoop {turns turns' : Nat} (enough : n ≤ turns)
    (enough' : n + P.extra ≤ turns') {base base' : Expr} (of_base : Same Expr.bare base base') :
    P.Agree n d d (Same Expr.bare) (trailersLoop levels turns base)
      (trailersLoop levels' turns' base') := by
  refine agree_loop (fun {n turns turns' base base'} of_base later => ?_) enough enough' of_base
  refine .peek_at (fun t u equal => ?_) fun t u ended closing => ?_
  · obtain ⟨kind, -⟩ := Symbol.mk.inj equal
    rw [← kind]
    cases here : t.kind with
    | openParen =>
        -- One bracket deeper, both lists close the call at the same token.
        refine .within fun ts us outside => ?_
        refine .advance_bind equal here (by decide) fun m less => ?_
        have closed : P.Alike (d + 1) (· == .closeParen) := alike_inside outside _
        refine (agree_arguments of_levels (closed ·)).bind fun args args' of_args => ?_
        refine .bind (.discard_expect closed (by decide)) fun _ _ _ => ?_
        have back : depthAfter (d + 1) .closeParen = d := Int.add_sub_cancel d 1
        rw [back]
        refine later less ?_
        rw [Same] at of_base of_args
        rw [Same, Expr.bare, Expr.bare, of_base, bareArguments_eq, bareArguments_eq]
        exact congrArg (Expr.call 0 _) of_args
    | openBracket =>
        refine .advance_bind equal here (by decide) fun m less => ?_
        refine (agree_subscript of_levels).bind fun sub sub' of_sub => ?_
        refine .bind (.discard_expect (alike_of_eq rfl) (by decide)) fun _ _ _ => ?_
        refine later less ?_
        rw [Same] at of_base of_sub
        rw [Same, Expr.bare, Expr.bare, of_base, of_sub]
    | dot =>
        refine .advance_bind equal here (by decide) fun m less => ?_
        refine .bind (.expect (alike_of_eq rfl) (by decide)) fun id id' same => ?_
        refine later less ?_
        rw [Same] at of_base
        rw [Same, Expr.bare, Expr.bare, of_base, (Symbol.mk.inj same).2]
    | _ => exact Agree.at_ (.pure of_base)
  · rw [ended, closing]
    exact Agree.at_ (.pure of_base)

theorem parallel_readStretch (column column' : Nat) (stretch : Field.Stretch) :
    Parallel (Same Part.bare) (Field.readStretch (readField levels) column stretch)
      (Field.readStretch (readField levels') column' stretch) := by
  cases stretch with
  | literal t => exact .read rfl
  | field source =>
      refine (parallel_readTail column column' _).bind ?_
      rintro ⟨conversion, spec⟩ _ rfl
      dsimp only
      split
      · exact .failed
      · refine (parallel_readWhole (fun _ _ => agree_exprList of_levels) _).bind ?_
        intro e e' same
        refine .read ?_
        rw [Same] at same
        rw [Same, Part.bare, Part.bare, same]
  | strayBrace => exact .failed
  | unclosed => exact .failed

theorem agree_textsLoop {turns turns' : Nat} (enough : n ≤ turns) (enough' : n + P.extra ≤ turns') :
    P.Agree n d d (Same bareTexts) (textsLoop levels turns) (textsLoop levels' turns') := by
  refine agree_turns (fun {n turns turns'} later => ?_) enough enough'
  refine .peek_at (fun t u equal => ?_) fun t u ended closing => ?_
  · obtain ⟨kind, text⟩ := Symbol.mk.inj equal
    rw [← kind]
    cases here : t.kind with
    | string =>
        refine .advance_bind equal here (by decide) fun m less => ?_
        refine (later less).bind ?_
        rintro ⟨formatted, rest⟩ ⟨formatted', rest'⟩ same
        obtain ⟨rfl, of_rest⟩ : formatted = formatted' ∧ Same (List.map Part.bare) rest rest' :=
          Prod.mk.inj same
        rw [← text]
        have first : Same Part.bare (.text t.value) (.text t.value) := rfl
        exact .pure (congrArg (formatted, ·) (first.cons of_rest))
    | formatted =>
        refine .advance_bind equal here (by decide) fun m less => ?_
        rw [← text]
        refine .bind (.lift (.mapM (parallel_readStretch of_levels t.column u.column) _)) ?_
        intro parts parts' of_parts
        refine (later less).bind ?_
        rintro ⟨formatted, rest⟩ ⟨formatted', rest'⟩ same
        obtain ⟨-, of_rest⟩ := Prod.mk.inj same
        refine .pure ?_
        show (true, (parts ++ rest).map Part.bare) = (true, (parts' ++ rest').map Part.bare)
        rw [Same] at of_parts
        rw [List.map_append, List.map_append, of_parts, of_rest]
    | _ => exact Agree.at_ (.pure rfl)
  · rw [ended, closing]
    exact Agree.at_ (.pure rfl)

theorem agree_texts (column column' : Nat) :
    P.Agree n d d (Same Expr.bare) (texts levels column) (texts levels' column') := by
  refine .remaining_bind fun m _ => ?_
  refine (agree_textsLoop of_levels (Nat.le_refl _) (Nat.le_refl _)).bind ?_
  rintro ⟨formatted, parts⟩ ⟨formatted', parts'⟩ same
  obtain ⟨rfl, of_parts⟩ : formatted = formatted' ∧ Same (List.map Part.bare) parts parts' :=
    Prod.mk.inj same
  have flat := flatMap_partText of_parts
  have lengths : parts.length = parts'.length := by simpa using congrArg List.length of_parts
  cases formatted with
  | true =>
      refine .pure ?_
      rw [Same] at of_parts
      rw [Same, Expr.bare, Expr.bare, bareParts_eq, bareParts_eq, of_parts]
  | false =>
      obtain _ | ⟨part, _ | ⟨second, others⟩⟩ := parts <;>
        obtain _ | ⟨part', _ | ⟨second', others'⟩⟩ := parts' <;>
        simp only [List.length_cons, List.length_nil] at lengths <;> try omega
      · exact .pure rfl
      · have text : partText part = partText part' := by simpa using flat
        exact .pure (congrArg (fun t => Expr.literal 0 (.text t)) text)
      · exact .pure (congrArg (fun t => Expr.literal 0 (.joined t)) flat)

theorem agree_parenthesized {t u : Token} (same : t.symbol = u.symbol)
    (opening : t.kind = .openParen) (column column' : Nat) :
    P.AgreeAt t u n d d (Same Expr.bare) (parenthesized levels column)
      (parenthesized levels' column') := by
  refine .within fun ts us outside => ?_
  have closed : P.Alike (d + 1) (· == .closeParen) := alike_inside outside _
  have back : depthAfter (d + 1) .closeParen = d := Int.add_sub_cancel d 1
  rw [parenthesized_eq, parenthesized_eq]
  refine .advance_bind same opening (by decide) fun m less => ?_
  show P.Agree m (d + 1) d (Same Expr.bare) _ _
  refine .accept_bind closed (by decide) (fun m less => ?_) ?_
  · rw [back]
    exact .pure rfl
  · refine .bind (agree_listed of_levels (alike_inside outside _) (alike_inside outside _) _ _) ?_
    refine fun e e' same => .bind (.discard_expect closed (by decide)) fun _ _ _ => ?_
    rw [back]
    exact .pure same

theorem agree_entry :
    P.Agree n d d (Same fun e : Expr × Expr => (e.1.bare, e.2.bare)) (entry levels)
      (entry levels') := by
  refine (of_levels P n d _).bind fun key key' of_key => ?_
  refine .bind (.discard_expect (alike_of_eq rfl) (by decide)) fun _ _ _ => ?_
  refine (of_levels P n d _).bind fun value value' of_value => .pure ?_
  rw [Same] at of_key of_value
  rw [Same, of_key, of_value]

theorem agree_atom : P.Agree n d d (Same Expr.bare) (atom levels) (atom levels') := by
  refine .peek_at (fun t u equal => ?_) fun t u ended closing => ?_
  · obtain ⟨kind, text⟩ := Symbol.mk.inj equal
    rw [← kind]
    cases here : t.kind with
    | number =>
        exact .advance_bind equal here (by decide) fun m less => agree_literalNumber equal
    | float =>
        exact .advance_bind equal here (by decide) fun m less => agree_literalFloat equal
    | string => exact (agree_texts of_levels _ _).at_
    | formatted => exact (agree_texts of_levels _ _).at_
    | true => exact .advance_bind equal here (by decide) fun m less => .pure rfl
    | false => exact .advance_bind equal here (by decide) fun m less => .pure rfl
    | none => exact .advance_bind equal here (by decide) fun m less => .pure rfl
    | name =>
        refine .advance_bind equal here (by decide) fun m less => .pure ?_
        exact congrArg (Expr.name 0) text
    | openParen => exact agree_parenthesized of_levels equal here _ _
    | openBracket =>
        refine .advance_bind equal here (by decide) fun m less => ?_
        refine .bind (agree_itemsUntil (fun m => of_levels P m d _) (alike_of_eq rfl)) ?_
        intro items items' same
        refine .bind (.discard_expect (alike_of_eq rfl) (by decide)) fun _ _ _ => .pure ?_
        rw [Same] at same
        rw [Same, Expr.bare, Expr.bare, bareItems_eq, bareItems_eq, same]
    | openBrace =>
        refine .advance_bind equal here (by decide) fun m less => ?_
        refine .bind (agree_itemsUntil (fun m => agree_entry of_levels) (alike_of_eq rfl)) ?_
        intro entries entries' same
        refine .bind (.discard_expect (alike_of_eq rfl) (by decide)) fun _ _ _ => .pure ?_
        rw [Same] at same
        rw [Same, Expr.bare, Expr.bare, bareEntries_eq, bareEntries_eq, same]
    | _ => exact Agree.at_ (.fail _ _)
  · rw [ended, closing]
    exact Agree.at_ (.fail _ _)

/-! ### The levels -/

theorem agree_conditional :
    P.Agree n d d (Same Expr.bare) (level levels .conditional) (level levels' .conditional) := by
  refine (of_levels P n d .or).bind fun body body' of_body => ?_
  refine .accept_bind (alike_of_eq rfl) (by decide) (fun m less => ?_) (.pure of_body)
  refine (of_levels P m d .or).bind fun test test' of_test => ?_
  refine .bind (.discard_expect (alike_of_eq rfl) (by decide)) fun _ _ _ => ?_
  refine (of_levels P m d .conditional).bind fun orelse orelse' of_orelse => .pure ?_
  rw [Same] at of_body of_test of_orelse
  rw [Same, Expr.bare, Expr.bare, of_body, of_test, of_orelse]

theorem agree_not :
    P.Agree n d d (Same Expr.bare) (level levels .not) (level levels' .not) := by
  refine .peek_at (fun t u equal => ?_) fun t u ended closing => ?_
  · obtain ⟨kind, -⟩ := Symbol.mk.inj equal
    rw [← kind]
    by_cases here : t.kind = .not
    · rw [if_pos (beq_iff_eq.mpr here), if_pos (beq_iff_eq.mpr here)]
      refine .advance_bind equal here (by decide) fun m less => ?_
      refine (of_levels P m d .not).bind fun e e' same => .pure ?_
      exact congrArg (Expr.unary 0 .not) same
    · rw [if_neg (by simpa using here), if_neg (by simpa using here)]
      exact (of_levels P n d .comparison).at_
  · rw [ended, closing]
    exact (of_levels P n d .comparison).at_

theorem agree_comparison :
    P.Agree n d d (Same Expr.bare) (level levels .comparison) (level levels' .comparison) := by
  refine (of_levels P n d .sum).bind fun first first' of_first => .remaining_bind fun m _ => ?_
  refine .bind (agree_linksLoop (fun m => of_levels P m d .sum) (Nat.le_refl _) (Nat.le_refl _)) ?_
  intro links links' of_links
  have lengths : links.length = links'.length := by simpa using congrArg List.length of_links
  cases links with
  | nil =>
      obtain rfl : links' = [] := List.length_eq_zero_iff.mp lengths.symm
      exact .pure of_first
  | cons link rest =>
      obtain ⟨link', rest', rfl⟩ := List.exists_cons_of_length_eq_add_one lengths.symm
      refine .pure ?_
      rw [Same] at of_first of_links
      rw [Same, Expr.bare, Expr.bare, of_first, bareLinks_eq, bareLinks_eq, of_links]

theorem agree_signed {t u : Token} (equal : t.symbol = u.symbol) {sign : TokenKind}
    (here : t.kind = sign) (inner : sign ≠ .finish) (level : depthAfter d sign = d) (op : UnaryOp) :
    P.AgreeAt t u n d d (Same Expr.bare)
      (advance >>= fun _ => levels .unary >>= fun e => pure (.unary t.column op e))
      (advance >>= fun _ => levels' .unary >>= fun e => pure (.unary u.column op e)) := by
  refine .advance_bind equal here inner fun m less => ?_
  rw [level]
  refine (of_levels P m d .unary).bind fun e e' same => .pure ?_
  exact congrArg (Expr.unary 0 op) same

theorem agree_unary :
    P.Agree n d d (Same Expr.bare) (level levels .unary) (level levels' .unary) := by
  refine .peek_at (fun t u equal => ?_) fun t u ended closing => ?_
  · obtain ⟨kind, -⟩ := Symbol.mk.inj equal
    rw [← kind]
    cases here : t.kind with
    | plus => exact agree_signed of_levels equal here (by decide) rfl .plus
    | minus => exact agree_signed of_levels equal here (by decide) rfl .minus
    | _ => exact (of_levels P n d .power).at_
  · rw [ended, closing]
    exact (of_levels P n d .power).at_

theorem agree_power :
    P.Agree n d d (Same Expr.bare) (level levels .power) (level levels' .power) := by
  refine (of_levels P n d .trailed).bind fun base base' of_base => ?_
  refine .accept_bind (alike_of_eq rfl) (by decide) (fun m less => ?_) (.pure of_base)
  refine (of_levels P m d .unary).bind fun exponent exponent' same => .pure ?_
  rw [Same] at of_base same
  rw [Same, Expr.bare, Expr.bare, of_base, same]

theorem agree_trailed :
    P.Agree n d d (Same Expr.bare) (level levels .trailed) (level levels' .trailed) := by
  refine (of_levels P n d .atom).bind fun base base' of_base => .remaining_bind fun m _ => ?_
  exact agree_trailersLoop of_levels (Nat.le_refl _) (Nat.le_refl _) of_base

theorem agree_level (l : Level) :
    P.Agree n d d (Same Expr.bare) (level levels l) (level levels' l) := by
  have operand (l : Level) (m : Nat) : P.Agree m d d (Same Expr.bare) (levels l) (levels' l) :=
    of_levels P m d l
  cases l with
  | conditional => exact agree_conditional of_levels
  | or => exact agree_chain (operand .and) (joins_bool .or (by decide) fun _ => rfl)
  | and => exact agree_chain (operand .not) (joins_bool .and (by decide) fun _ => rfl)
  | not => exact agree_not of_levels
  | comparison => exact agree_comparison of_levels
  | sum =>
      refine agree_chain (operand .product) (joins_binary fun {k op} named => ?_)
      cases k <;> first | exact ⟨by decide, fun _ => rfl⟩ | contradiction
  | product =>
      refine agree_chain (operand .unary) (joins_binary fun {k op} named => ?_)
      cases k <;> first | exact ⟨by decide, fun _ => rfl⟩ | contradiction
  | unary => exact agree_unary of_levels
  | power => exact agree_power of_levels
  | trailed => exact agree_trailed of_levels
  | atom => exact agree_atom of_levels

end Constructs

/-- Every level reads both lists alike, where the second one is given no more nesting. -/
theorem agree_readAt {budget budget' : Nat} (less : budget' ≤ budget) (P : Pairing) (n : Nat)
    (d : Int) (l : Level) : P.Agree n d d (Same Expr.bare) (readAt budget l) (readAt budget' l) := by
  induction budget' generalizing budget P n d l with
  | zero => exact fun _ _ _ _ => .deep
  | succ budget' ih =>
      obtain ⟨budget, rfl⟩ := Nat.exists_eq_add_of_le' (show 1 ≤ budget by omega)
      exact agree_level (ih (by omega)) l

end Pairing

end Snippet.Grammar
