import Mathlib.Logic.Relation
import Snippet.Proofs.Expr.Advancing

/-!
Reading ends. No reader goes on after a mistake, so one that does not end in `pastEnd` has nowhere
looked or gone behind the end mark. A level calls only on tighter levels where it stands, and on any
level behind a token that it has taken or inside a formatted text. So where a level calls itself, a
token has been taken, and a budget that is some multiple of the length of a text is enough to read
it. What is read does not depend on the budget then, and a smaller one only stops the reading.
-/

set_option autoImplicit false

namespace Snippet

namespace Field

/-- Each turn through a body takes a character at least. -/
theorem stretches_cons (c : Char) (rest : Text) :
    (∃ d after, after <:+ rest ∧ stretches (c :: rest) = addLiteral d (stretches after)) ∨
      (∃ field after, after <:+ rest ∧ stretches (c :: rest) = .field field :: stretches after) ∨
      stretches (c :: rest) = [.strayBrace] ∨ stretches (c :: rest) = [.unclosed] := by
  generalize whole : c :: rest = t
  fun_cases stretches t with
  | case1 => contradiction
  | case2 after | case3 after =>
      cases whole
      exact .inl ⟨_, after, List.suffix_cons _ after, rfl⟩
  | case4 => exact .inr (.inr (.inl rfl))
  | case5 => exact .inr (.inr (.inr rfl))
  | case6 behind _ field after found =>
      cases whole
      exact .inr (.inl ⟨field, after, (isPrefix_of_upToBrace? found).2, rfl⟩)
  | case7 d after =>
      cases whole
      exact .inl ⟨c, rest, List.suffix_rfl, rfl⟩

end Field

namespace Grammar

open Reader Token Relation

variable {E : Endings} {levels levels' : Levels} {ts rest last : List Token} {l l' : Level}

/-! ### Calls -/

/-- Where a level may go on from where it starts. -/
inductive Deeper : Level × List Token → Level × List Token → Prop
  | tighter {l l' : Level} {ts : List Token} (closer : l.rank < l'.rank) : Deeper (l', ts) (l, ts)
  | behind {l l' : Level} {ts rest : List Token} (more : Later ts rest) : Deeper (l', rest) (l, ts)
  | field {l l' : Level} {ts tokens rest : List Token} {token : Token} {source : Text}
      (member : token ∈ ts) (formatted : token.kind = .formatted)
      (inside : source ∈ Field.sources token.value) (scanned : scan source = .ok tokens)
      (left : Left tokens rest) : Deeper (l', rest) (l, ts)

/-- All levels, but with a given answer from one of them at one place. -/
def answering (levels : Levels) (place : Level × List Token)
    (answer : Except ReadError (Expr × Tokens)) : Levels :=
  fun l tokens => if (l, tokens.list) = place then answer else levels l tokens

/-- What a level comes to at one place depends on the answer of a level at another one. -/
def Calls (here there : Level × List Token) : Prop :=
  ∃ budget answer,
    level (answering (readAt budget) there answer) here.1 (.ofList here.2) ≠
      level (readAt budget) here.1 (.ofList here.2)

/-- A token at least has been taken, or what is left stands in a field of a token. -/
def Onward (ts rest : List Token) : Prop :=
  Later ts rest ∨ ∃ token ∈ ts, token.kind = .formatted ∧ width rest < token.span.length

theorem Below.of_deeper (stream : IsStream ts)
    (deeper : ∀ l' rest, Deeper (l', rest) (l, ts) →
      Matches E rest (fun _ => Later rest) (levels l') (levels' l')) :
    Below E levels levels' l ts where
  stream := stream
  tighter l' closer := deeper l' ts (.tighter closer)
  behind _ more :=
    ⟨stream.later more, fun l' left further => deeper l' left (.behind (more.left further))⟩
  fields _ member formatted _ inside := matched_exprList fun _ scanned =>
    ⟨.of_scan scanned, fun l' left further =>
      deeper l' left (.field member formatted inside scanned further)⟩

namespace Onward

theorem width_lt (h : Onward ts rest) (stream : IsStream ts) : width rest < width ts := by
  obtain more | ⟨token, member, -, fewer⟩ := h
  · exact stream.width_lt more
  · exact Nat.lt_of_lt_of_le fewer (span_length_le member)

theorem trans (first : Onward ts rest) (next : Onward rest last) (stream : IsStream rest) :
    Onward ts last := by
  obtain more | ⟨token, member, formatted, fewer⟩ := first
  · obtain further | ⟨token, member, formatted, fewer⟩ := next
    · exact .inl (more.trans further)
    · exact .inr ⟨token, more.1.1.mem member, formatted, fewer⟩
  · exact .inr ⟨token, member, formatted, Nat.lt_trans (next.width_lt stream) fewer⟩

end Onward

namespace Deeper

theorem stream (h : Deeper (l', rest) (l, ts)) (stream : IsStream ts) : IsStream rest := by
  cases h with
  | tighter => exact stream
  | behind more => exact stream.later more
  | field _ _ _ scanned left => exact (IsStream.of_scan scanned).left left

theorem onward (h : Deeper (l', rest) (l, ts)) (stream : IsStream ts) :
    rest = ts ∧ l.rank < l'.rank ∨ Onward ts rest := by
  cases h with
  | tighter closer => exact .inl ⟨rfl, closer⟩
  | behind more => exact .inr (.inl more)
  | field member formatted inside scanned left =>
      have fewer := stream.source_length_lt member formatted (Field.isInfix_of_mem_sources inside)
      have within := width_le_of_scan scanned
      have further := width_le_of_left left
      exact .inr (.inr ⟨_, member, formatted, by omega⟩)

end Deeper

/-! ### Budgets -/

/-- As many steps from level to level as a level may take on tokens. -/
def steps (l : Level) (ts : List Token) : Nat :=
  11 * width ts + (10 - l.rank) + 1

theorem Level.rank_le (l : Level) : l.rank ≤ 10 := by
  cases l <;> decide

theorem steps_lt_of_deeper (h : Deeper (l', rest) (l, ts)) (stream : IsStream ts) :
    steps l' rest < steps l ts := by
  have bound := l.rank_le
  have bound' := l'.rank_le
  rw [steps, steps]
  obtain ⟨rfl, closer⟩ | onward := h.onward stream
  · omega
  · have fewer := onward.width_lt stream
    omega

/-- Readings that end by themselves. -/
def Endings.whole : Endings where
  shared e := e ≠ .tooDeep ∧ e ≠ .pastEnd
  cut := False
  plain := And.intro

/-- Readings on the same budget. -/
def Endings.bounded : Endings where
  shared e := e ≠ .pastEnd
  cut := False
  plain _ past := past

/-- Readings on two budgets, the first of which may be smaller. -/
def Endings.cutShort : Endings where
  shared e := e ≠ .pastEnd
  cut := True
  plain _ past := past

theorem Matched.self {α : Type} {Q : α → Prop} {x : Except ReadError α}
    (h : Matched .cutShort Q x x) : Matched .bounded Q x x := by
  cases h with
  | read result => exact .read result
  | failed allowed => exact .failed allowed
  | cut => exact .failed nofun

theorem Matched.ne_pastEnd {α : Type} {Q : α → Prop} {x y : Except ReadError α}
    (h : Matched .bounded Q x y) : x ≠ .error .pastEnd := by
  rintro rfl
  cases h with
  | failed allowed => exact allowed rfl

theorem matches_cutShort {budget budget' : Nat} (less : budget ≤ budget') (l : Level)
    (stream : IsStream ts) :
    Matches .cutShort ts (fun _ => Later ts) (readAt budget l) (readAt budget' l) := by
  induction budget generalizing budget' l ts with
  | zero => exact .cut trivial
  | succ budget ih =>
      obtain ⟨budget', rfl⟩ := Nat.exists_eq_add_of_le' (show 1 ≤ budget' by omega)
      refine Below.level (.of_deeper stream fun l' rest deeper => ?_)
      exact ih (by omega) l' (deeper.stream stream)

theorem matches_bounded (budget : Nat) (l : Level) (stream : IsStream ts) :
    Matches .bounded ts (fun _ => Later ts) (readAt budget l) (readAt budget l) :=
  Matched.self (matches_cutShort (Nat.le_refl budget) l stream)

theorem matches_whole {budget budget' : Nat} (l : Level) (stream : IsStream ts)
    (enough : steps l ts ≤ budget) (enough' : steps l ts ≤ budget') :
    Matches .whole ts (fun _ => Later ts) (readAt budget l) (readAt budget' l) := by
  induction budget generalizing budget' l ts with
  | zero => exact absurd enough (Nat.not_succ_le_zero _)
  | succ budget ih =>
      obtain ⟨budget', rfl⟩ := Nat.exists_eq_add_of_le' (Nat.le_trans (Nat.le_add_left 1 _) enough')
      refine Below.level (.of_deeper stream fun l' rest deeper => ?_)
      have fewer := steps_lt_of_deeper deeper stream
      exact ih l' (deeper.stream stream) (by omega) (by omega)

/-! ### Calls take tokens -/

theorem level_eq_of_deeper {budget : Nat} (stream : IsStream ts)
    (same : ∀ l' rest, Deeper (l', rest) (l, ts) →
      levels l' (.ofList rest) = readAt budget l' (.ofList rest)) :
    level levels l (.ofList ts) = level (readAt budget) l (.ofList ts) := by
  have below : Below .bounded levels (readAt budget) l ts :=
    .of_deeper stream fun l' rest deeper => by
      rw [Matches, same l' rest deeper]
      exact matches_bounded budget l' (deeper.stream stream)
  exact Matched.eq_of_not_cut below.level id

/-- A level calls on deeper places only. -/
theorem deeper_of_calls {here there : Level × List Token} (stream : IsStream here.2)
    (calls : Calls here there) : Deeper there here := by
  obtain ⟨budget, answer, differs⟩ := calls
  by_contra other
  refine differs (level_eq_of_deeper stream fun l' rest deeper => if_neg ?_)
  rintro rfl
  exact other deeper

-- An opening bracket asks for the answer of the loosest level behind it.
example : level (answering (readAt 0) (.conditional, [finishAt 2]) (.error .unexpectedEnd)) .atom
    (.ofList [⟨.openParen, ['('], 1, ['(']⟩, finishAt 2]) = .error .unexpectedEnd := rfl

theorem onward_of_calls {there : Level × List Token} (stream : IsStream ts)
    (calls : TransGen Calls (l, ts) there) :
    IsStream there.2 ∧ (there.2 = ts ∧ l.rank < there.1.rank ∨ Onward ts there.2) := by
  induction calls with
  | single call =>
      have deeper := deeper_of_calls stream call
      exact ⟨deeper.stream stream, deeper.onward stream⟩
  | @tail between there _ call ih =>
      obtain ⟨stream', ih⟩ := ih
      have deeper := deeper_of_calls stream' call
      refine ⟨deeper.stream stream', ?_⟩
      obtain ⟨same, closer⟩ | further := deeper.onward stream'
      · rw [same]
        exact ih.imp (And.imp_right (Nat.lt_trans · closer)) id
      · obtain ⟨same, -⟩ | first := ih
        · rw [same] at further
          exact .inr further
        · exact .inr (first.trans further stream')

/-- Where a level comes back to itself, a token has been taken. -/
theorem onward_of_cycle (stream : IsStream ts) (cycle : TransGen Calls (l, ts) (l, rest)) :
    Onward ts rest := by
  obtain ⟨-, ⟨-, closer⟩ | onward⟩ := onward_of_calls stream cycle
  · exact absurd closer (Nat.lt_irrefl _)
  · exact onward

/-! ### Loops take tokens -/

theorem from_bounded (budget : Nat) (stream : IsStream ts) :
    From .bounded (readAt budget) (readAt budget) ts :=
  ⟨stream, fun l _ left => matches_bounded budget l (stream.left left)⟩

theorem fields_bounded (budget : Nat) : Fields .bounded (readAt budget) (readAt budget) ts :=
  fun _ _ _ _ _ => matched_exprList fun _ scanned => from_bounded budget (.of_scan scanned)

theorem IsLoop.matches_turn {loop : Loop} (of_levels : IsLoop levels loop)
    (h : From E levels levels ts) (fields : Fields E levels levels ts) (s : loop.State) :
    Matches E ts (Turned ts) (loop.turn s) (loop.turn s) := by
  have operand (l : Level) (rest : List Token) (more : Later ts rest) :
      Matches E rest (fun _ => Later rest) (levels l) (levels l) :=
    (h.later more).here l
  cases of_levels with
  | or | and | sum | product => exact matches_chainTurn h.stream (operand _) rfl s
  | links => exact matches_linksTurn h.stream (operand .sum)
  | trailers => exact matches_trailersTurn h s
  | arguments closing => exact matches_argumentsTurn h closing s
  | items goesOn => exact matches_itemsTurn h.stream (operand .conditional) goesOn
  | entries goesOn =>
      exact matches_itemsTurn h.stream (fun rest more => matches_entry (h.later more)) goesOn
  | texts => exact turned_textsTurn h.stream fields

/-- A loop takes its turns one by one. None of them goes past the end mark, and each takes a token
before the next one. More turns than there are tokens make no difference. -/
structure Loop.Advances (loop : Loop) : Prop where
  read_eq : ∀ turns, loop.read turns = runTurns loop.turn loop.stop turns loop.start
  inside : ∀ ts, IsStream ts → ∀ s, loop.turn s (.ofList ts) ≠ .error .pastEnd
  taken : ∀ ts, IsStream ts → ∀ s next join rest,
    loop.turn s (.ofList ts) = .ok (.again next join, rest) → Later ts rest.list
  enough : ∀ ts, IsStream ts → ∀ turns, ts.length ≤ turns →
    loop.read turns (.ofList ts) = loop.read ts.length (.ofList ts)

theorem IsLoop.advances {budget : Nat} {loop : Loop} (of_levels : IsLoop (readAt budget) loop) :
    loop.Advances := by
  have turn (ts : List Token) (stream : IsStream ts) (s : loop.State) :
      Matches .bounded ts (Turned ts) (loop.turn s) (loop.turn s) :=
    of_levels.matches_turn (from_bounded budget stream) (fields_bounded budget) s
  refine ⟨of_levels.read_eq, fun ts stream s => (turn ts stream s).ne_pastEnd,
    fun ts stream s next join rest ran => (turn ts stream s).of_ok ran,
    fun ts stream turns enough => ?_⟩
  rw [of_levels.read_eq, of_levels.read_eq]
  exact Matched.eq_of_not_cut (matches_runTurns stream
    (fun s rest left => turn rest (stream.left left) s) enough (Nat.le_refl _) loop.start) id

/-! ### Readings end -/

variable {α : Type} {read : Nat → Except ReadError α} {t : Text}

/-- A result, a mistake that has a message, or a number that cannot be made of its digits. -/
def IsAnswer (x : Except ReadError α) : Prop :=
  (∃ a, x = .ok a) ∨ ∃ e, x = .error e ∧ (e.message?.isSome ∨ e = .unreadableNumber)

/-- A reading on budgets comes to one answer. A budget that is large enough for it is known, and a
smaller one does no more than stop it. -/
def Settles (read : Nat → Except ReadError α) (enough : Nat) : Prop :=
  ∃ answer, IsAnswer answer ∧ ∀ budget,
    (read budget = answer ∨ read budget = .error .tooDeep) ∧
      (enough ≤ budget → read budget = answer)

theorem isAnswer_of_matched {Q : α → Prop} {x y : Except ReadError α}
    (h : Matched .whole Q x y) : IsAnswer x := by
  cases h with
  | read => exact .inl ⟨_, rfl⟩
  | @failed e allowed =>
      refine .inr ⟨e, rfl, ?_⟩
      cases e with
      | unreadableNumber => exact .inr rfl
      | tooDeep => exact absurd rfl allowed.1
      | pastEnd => exact absurd rfl allowed.2
      | _ => exact .inl rfl
  | cut allowed => exact allowed.elim

theorem settles_of_matched {enough : Nat}
    (cut : ∀ {budget budget'}, budget ≤ budget' →
      Matched .cutShort (fun _ => True) (read budget) (read budget'))
    (whole : ∀ {budget}, enough ≤ budget →
      Matched .whole (fun _ => True) (read budget) (read enough)) : Settles read enough := by
  have same {budget : Nat} (fits : enough ≤ budget) : read budget = read enough :=
    (whole fits).eq_of_not_cut id
  refine ⟨read enough, isAnswer_of_matched (whole (Nat.le_refl enough)), fun budget => ⟨?_, same⟩⟩
  by_cases fits : enough ≤ budget
  · exact .inl (same fits)
  · generalize stopped : read budget = x
    generalize ended : read enough = y
    have both := cut (Nat.le_of_not_le fits)
    rw [stopped, ended] at both
    cases both with
    | read | failed => exact .inl rfl
    | cut => exact .inr rfl

theorem from_cutShort {budget budget' : Nat} (less : budget ≤ budget') (stream : IsStream ts) :
    From .cutShort (readAt budget) (readAt budget') ts :=
  ⟨stream, fun l _ left => matches_cutShort less l (stream.left left)⟩

theorem from_whole {budget budget' : Nat} (scanned : scan t = .ok ts)
    (enough : 11 * (t.length + 1) ≤ budget) (enough' : 11 * (t.length + 1) ≤ budget') :
    From .whole (readAt budget) (readAt budget') ts := by
  have stream := IsStream.of_scan scanned
  refine ⟨stream, fun l rest left => ?_⟩
  have fits : steps l rest ≤ 11 * (t.length + 1) := by
    have within := width_le_of_scan scanned
    have fewer := width_le_of_left left
    rw [steps]
    omega
  exact matches_whole l (stream.left left) (Nat.le_trans fits enough) (Nat.le_trans fits enough')

theorem exprList_settles (t : Text) :
    Settles (fun budget => readWhole (exprList (readAt budget)) t) (11 * (t.length + 1)) :=
  settles_of_matched
    (fun less => matched_exprList fun _ scanned => from_cutShort less (.of_scan scanned))
    fun enough => matched_exprList fun _ scanned => from_whole scanned enough (Nat.le_refl _)

theorem arguments_settles (t : Text) (closing : TokenKind) :
    Settles (fun budget => readWhole (arguments (readAt budget) closing) t)
      (11 * (t.length + 1)) :=
  settles_of_matched
    (fun less => matched_arguments (fun _ scanned => from_cutShort less (.of_scan scanned)) closing)
    fun enough =>
      matched_arguments (fun _ scanned => from_whole scanned enough (Nat.le_refl _)) closing

/-- Reading never goes past the end mark, and ends. Every level takes a token. So does every turn of
a loop that is followed by another one, and a turn through the body of a formatted text takes a
character. A level depends on deeper places only, and where it calls itself, it has taken a
token. -/
theorem reading_ends :
    (∀ budget t, readWhole (exprList (readAt budget)) t ≠ .error .pastEnd ∧
      readWhole (arguments (readAt budget) .finish) t ≠ .error .pastEnd) ∧
    (∀ budget l ts, IsStream ts → readAt budget l (.ofList ts) ≠ .error .pastEnd ∧
      ∀ e rest, readAt budget l (.ofList ts) = .ok (e, rest) → Later ts rest.list) ∧
    (∀ budget loop, IsLoop (readAt budget) loop → loop.Advances) ∧
    (∀ c rest,
      (∃ d after, after <:+ rest ∧
        Field.stretches (c :: rest) = Field.addLiteral d (Field.stretches after)) ∨
      (∃ field after, after <:+ rest ∧
        Field.stretches (c :: rest) = .field field :: Field.stretches after) ∨
      Field.stretches (c :: rest) = [.strayBrace] ∨ Field.stretches (c :: rest) = [.unclosed]) ∧
    (∀ budget levels l ts, IsStream ts →
      (∀ l' rest, Deeper (l', rest) (l, ts) →
        levels l' (.ofList rest) = readAt budget l' (.ofList rest)) →
      level levels l (.ofList ts) = level (readAt budget) l (.ofList ts)) ∧
    (∀ l ts rest, IsStream ts → TransGen Calls (l, ts) (l, rest) → Onward ts rest) ∧
    ∀ t, Settles (fun budget => readWhole (exprList (readAt budget)) t) (11 * (t.length + 1)) ∧
      Settles (fun budget => readWhole (arguments (readAt budget) .finish) t)
        (11 * (t.length + 1)) := by
  refine ⟨fun budget t => ⟨?_, ?_⟩, fun budget l ts stream => ?_, fun _ _ => IsLoop.advances,
    Field.stretches_cons, fun budget levels l ts => level_eq_of_deeper, ?_,
    fun t => ⟨exprList_settles t, arguments_settles t .finish⟩⟩
  · exact (matched_exprList fun _ scanned => from_bounded budget (.of_scan scanned)).ne_pastEnd
  · exact (matched_arguments (fun _ scanned => from_bounded budget (.of_scan scanned)) _).ne_pastEnd
  · have read := matches_bounded budget l stream
    exact ⟨read.ne_pastEnd, fun e rest ran => read.of_ok ran⟩
  · exact fun l ts rest => onward_of_cycle

end Grammar

end Snippet
