import Snippet.Proofs.Token.Lexeme

/-!
Round brackets in tokens. A round bracket outside of quotes is a token of its own, and no other
token shows one in front of its quotes.
-/

set_option autoImplicit false

namespace Snippet.Token

variable {c : Char} {t rest : Text} {column : Nat} {lexeme : Lexeme}

def isRound (c : Char) : Bool :=
  c == '(' || c == ')'

/-- What a span shows in front of its first quote. -/
def shownFront (span : Text) : Text :=
  span.takeWhile fun c => !isQuote c

/-- How a span of a kind shows round brackets: by itself, or none. -/
inductive RoundAlone (kind : TokenKind) : Text → Prop
  | opening : kind = .openParen → RoundAlone kind ['(']
  | closing : kind = .closeParen → RoundAlone kind [')']
  | none {span : Text} : kind ≠ .openParen → kind ≠ .closeParen →
      (shownFront span).any isRound = false → RoundAlone kind span

section Characters

theorem not_isRound_of_isDigit (h : isDigit c = true) : isRound c = false := by
  rw [Bool.eq_false_iff]
  intro round
  simp only [isRound, Bool.or_eq_true, beq_iff_eq] at round
  obtain rfl | rfl := round <;> exact absurd h (by decide)

theorem not_isRound_of_isNameStart (h : isNameStart c = true) : isRound c = false := by
  rw [Bool.eq_false_iff]
  intro round
  simp only [isRound, Bool.or_eq_true, beq_iff_eq] at round
  obtain rfl | rfl := round <;> exact absurd h (by decide)

theorem not_isRound_of_isNameRest (h : isNameRest c = true) : isRound c = false := by
  rw [isNameRest, Bool.or_eq_true] at h
  exact h.elim not_isRound_of_isNameStart not_isRound_of_isDigit

theorem not_isRound_of_isGrouped (h : isGrouped c = true) : isRound c = false := by
  rw [isGrouped, Bool.or_eq_true] at h
  refine h.elim not_isRound_of_isDigit fun same => ?_
  rw [eq_of_beq same]
  rfl

theorem any_isRound_takeWhile {p : Char → Bool} (free : ∀ {c}, p c = true → isRound c = false)
    (t : Text) : (t.takeWhile p).any isRound = false := by
  rw [List.any_eq_false]
  intro c member
  rw [free (List.all_eq_true.mp List.all_takeWhile c member)]
  exact Bool.false_ne_true

theorem any_isRound_fractionPart (t : Text) : (fractionPart t).any isRound = false := by
  unfold fractionPart
  split
  · rw [List.any_cons, any_isRound_takeWhile not_isRound_of_isGrouped]
    rfl
  · rfl

theorem any_isRound_exponentPart (t : Text) : (exponentPart t).any isRound = false := by
  unfold exponentPart
  split
  · rename_i mark rest
    split
    · rename_i marks
      extract_lets sign
      have mark_free : isRound mark = false := by
        have marked : mark = 'e' ∨ mark = 'E' := by simpa using marks
        obtain rfl | rfl := marked <;> rfl
      have sign_free : sign.any isRound = false := by
        dsimp only [sign]
        split <;> rfl
      have digits_free := any_isRound_takeWhile not_isRound_of_isDigit (rest.drop sign.length)
      split
      · rfl
      · rw [List.any_append, List.any_cons, mark_free, sign_free, digits_free]
        rfl
    · rfl
  · rfl

end Characters

theorem any_isRound_shownFront {span : Text} (free : span.any isRound = false) :
    (shownFront span).any isRound = false := by
  rw [List.any_eq_false] at free ⊢
  exact fun c member => free c ((List.takeWhile_sublist _).subset member)

theorem wordKind_not_round (word : Text) :
    wordKind word ≠ .openParen ∧ wordKind word ≠ .closeParen := by
  have table : keywords.all (fun k => k.2 != .openParen && k.2 != .closeParen) = true := by decide
  rw [wordKind]
  split
  · rename_i k found
    simpa using List.all_eq_true.mp table k (List.mem_of_find?_eq_some found)
  · simp

section Read

theorem kind_of_readText {style : QuoteStyle} {lead : Nat} {quote : Char}
    (h : readText style lead quote rest column = .ok lexeme) :
    lexeme.kind ≠ .openParen ∧ lexeme.kind ≠ .closeParen ∧ ∃ length, lexeme.more = lead + length := by
  rw [readText] at h
  split at h
  case h_1 value length _ =>
    cases h
    refine ⟨?_, ?_, length, rfl⟩ <;> cases style.formatted <;> simp
  case h_2 => contradiction

-- The characters of a lexeme, by what starts the text.
theorem span_eq {front after : Text} {more : Nat} (whole : front ++ after = c :: rest)
    (counted : front.length = more + 1) : c :: rest.take more = front := by
  rw [← List.take_succ_cons, ← whole, ← counted, List.take_left]

theorem not_isRound_of_startsNumber (starts : startsNumber c rest = true) : isRound c = false := by
  rw [startsNumber, Bool.or_eq_true, Bool.and_eq_true, beq_iff_eq] at starts
  obtain digit | ⟨rfl, -⟩ := starts
  · exact not_isRound_of_isDigit digit
  · rfl

theorem roundAlone_of_readNumber (starts : startsNumber c rest = true)
    (h : readNumber (c :: rest) column = .ok lexeme) :
    RoundAlone lexeme.kind (c :: rest.take lexeme.more) := by
  unfold readNumber at h
  extract_lets whole afterWhole fraction afterFraction exponent behind raw isFloat at h
  have cut : raw ++ behind = c :: rest := number_cut (c :: rest)
  have raw_free : raw.any isRound = false := by
    simp only [raw, List.any_append, whole, fraction, exponent, any_isRound_fractionPart,
      any_isRound_exponentPart, any_isRound_takeWhile not_isRound_of_isGrouped, Bool.or_false]
  -- A number of no characters is never read, but the cut is made before that is known.
  have free : (c :: rest.take (raw.length - 1)).any isRound = false := by
    cases shown : raw with
    | nil =>
        rw [List.length_nil, List.take_zero, List.any_cons, not_isRound_of_startsNumber starts]
        rfl
    | cons d more =>
        rw [shown] at cut raw_free
        rw [span_eq cut (by simp)]
        exact raw_free
  have kinds : (if isFloat then TokenKind.float else .number) ≠ .openParen ∧
      (if isFloat then TokenKind.float else .number) ≠ .closeParen := by
    cases isFloat <;> simp
  split at h
  · contradiction
  · split at h
    · contradiction
    · split at h
      · contradiction
      · cases h
        exact .none kinds.1 kinds.2 (any_isRound_shownFront free)

-- A word shows its letters, whether a quote follows them or not.
theorem any_isRound_word {tail behind : Text} (starts : isNameStart c = true)
    (letters : ∀ d ∈ tail, isNameRest d = true) (apart : ∀ d ∈ behind.head?, isQuote d = true) :
    (shownFront (c :: tail ++ behind)).any isRound = false := by
  have unquoted : ∀ d ∈ c :: tail, (!isQuote d) = true := by
    refine List.forall_mem_cons.mpr ⟨?_, fun d member => ?_⟩
    · have plain := isPlain_of_isNameStart starts
      rw [isPlain, Bool.and_eq_true] at plain
      exact plain.1
    · have plain := isPlain_of_isNameRest (letters d member)
      rw [isPlain, Bool.and_eq_true] at plain
      exact plain.1
  have nothing : behind.takeWhile (fun d => !isQuote d) = [] := by
    cases behind with
    | nil => rfl
    | cons d behind => rw [List.takeWhile_cons_of_neg (by simp [apart d rfl])]
  rw [shownFront, List.takeWhile_append_of_pos unquoted, nothing, List.append_nil, List.any_cons,
    not_isRound_of_isNameStart starts, Bool.false_or, List.any_eq_false]
  intro d member
  rw [not_isRound_of_isNameRest (letters d member)]
  exact Bool.false_ne_true

theorem roundAlone_of_readWord (starts : isNameStart c = true)
    (h : readWord c rest column = .ok lexeme) :
    RoundAlone lexeme.kind (c :: rest.take lexeme.more) := by
  have whole := takeWhile_append_drop isNameRest rest
  have letters : ∀ d ∈ rest.takeWhile isNameRest, isNameRest d = true :=
    fun d member => List.all_eq_true.mp List.all_takeWhile d member
  have word : RoundAlone (wordKind (c :: rest.takeWhile isNameRest))
      (c :: rest.take (rest.takeWhile isNameRest).length) := by
    obtain ⟨no_opening, no_closing⟩ := wordKind_not_round (c :: rest.takeWhile isNameRest)
    refine .none no_opening no_closing ?_
    rw [← List.prefix_iff_eq_take.mp (List.takeWhile_prefix isNameRest)]
    have alone := @any_isRound_word _ _ [] starts letters nofun
    rwa [List.append_nil] at alone
  rw [readWord] at h
  split at h
  · rename_i style quote body _ behind
    split at h
    · rename_i quoted
      obtain ⟨no_opening, no_closing, length, more⟩ := kind_of_readText h
      have taken {tail : Text} (cut : tail ++ quote :: body = rest) :
          rest.take (tail.length + 1 + length) = tail ++ quote :: body.take length := by
        rw [← cut, Nat.add_assoc, Nat.add_comm 1, List.take_length_add_append]
        rfl
      rw [behind] at whole
      refine .none no_opening no_closing ?_
      rw [more, taken whole]
      refine any_isRound_word starts letters ?_
      rintro _ ⟨⟩
      exact quoted
    · cases h
      exact word
  · cases h
    exact word

theorem roundAlone_of_readOperator (h : readOperator c rest column = .ok lexeme) :
    RoundAlone lexeme.kind (c :: rest.take lexeme.more) := by
  have table : ∀ o ∈ operators, o.1.toList.length = o.1.length - 1 + 1 ∧
      (o = ("(", .openParen) ∨ o = (")", .closeParen) ∨
      o.2 ≠ .openParen ∧ o.2 ≠ .closeParen ∧ o.1.toList.any isRound = false) := by
    decide
  rw [readOperator] at h
  split at h
  case h_2 => contradiction
  case h_1 symbol kind found =>
    cases h
    have begins := List.find?_some found
    obtain ⟨after, whole⟩ := List.isPrefixOf_iff_prefix.mp begins
    obtain ⟨counted, alone⟩ := table _ (List.mem_of_find?_eq_some found)
    rw [span_eq whole counted]
    obtain same | same | ⟨no_opening, no_closing, free⟩ := alone
    · cases same
      exact .opening rfl
    · cases same
      exact .closing rfl
    · exact .none no_opening no_closing (any_isRound_shownFront free)

/-- A round bracket outside of quotes is a token of its own. -/
theorem roundAlone_of_read (h : read c rest column = .ok lexeme) :
    RoundAlone lexeme.kind (c :: rest.take lexeme.more) := by
  rw [read] at h
  split at h
  case isTrue quoted =>
    obtain ⟨no_opening, no_closing, -⟩ := kind_of_readText h
    refine .none no_opening no_closing ?_
    rw [shownFront, List.takeWhile_cons_of_neg (by simp [quoted])]
    rfl
  case isFalse =>
    split at h
    case isTrue starts => exact roundAlone_of_readNumber starts h
    case isFalse =>
      split at h
      case isTrue starts => exact roundAlone_of_readWord starts h
      case isFalse => exact roundAlone_of_readOperator h

theorem roundAlone_of_scanFrom {tokens : List Token} (h : scanFrom column t = .ok tokens) :
    ∀ token ∈ tokens, RoundAlone token.kind token.span := by
  replace h := scansTo_of_scanFrom h
  induction h with
  | finish column =>
      have last : TokenKind.finish ≠ .openParen ∧ TokenKind.finish ≠ .closeParen := by decide
      exact List.forall_mem_singleton.mpr (.none last.1 last.2 rfl)
  | layout _ _ ih => exact ih
  | token found _ ih => exact List.forall_mem_cons.mpr ⟨roundAlone_of_read found, ih⟩

end Read

end Snippet.Token
