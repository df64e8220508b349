import Snippet.Token.Scan

/-!
What the characters of a token are. A text token is a quoted body after at most a few letters; no
other token holds a quote or a comment mark.
-/

set_option autoImplicit false

namespace Snippet

def TokenKind.isText : TokenKind → Bool
  | .string | .formatted => Bool.true
  | _ => Bool.false

-- The errors of reading tokens.
def ReadError.isLexical : ReadError → Bool
  | .invalidCharacter .. | .invalidNumber _ | .leadingZeros _ | .unterminatedText _ => true
  | _ => false

namespace Token

-- Neither a quote nor the start of a comment.
def isPlain (c : Char) : Bool :=
  !isQuote c && c != '#'

-- What may stand between two quotes: a quote or a backslash only after a backslash.
inductive Body (quote : Char) : Text → Prop
  | nil : Body quote []
  | escape (c : Char) {rest : Text} : Body quote rest → Body quote ('\\' :: c :: rest)
  | char {c : Char} {rest : Text} :
      c ≠ quote → c ≠ '\\' → Body quote rest → Body quote (c :: rest)

theorem ne_backslash {quote : Char} (quoted : isQuote quote = true) : quote ≠ '\\' := by
  rintro rfl
  contradiction

theorem readQuoted?_some {quote : Char} {raw : Bool} {t value : Text} {length : Nat}
    (h : readQuoted? quote raw t = some (value, length)) :
    ∃ body after, t = body ++ quote :: after ∧ length = body.length + 1 ∧ Body quote body := by
  fun_induction readQuoted? quote raw t generalizing value length with
  | case1 => contradiction
  | case2 c rest ih =>
      obtain ⟨inner, found, made⟩ := Option.map_eq_some_iff.mp h
      obtain ⟨body, after, rfl, counted, within⟩ := ih found
      refine ⟨'\\' :: c :: body, after, rfl, ?_, within.escape c⟩
      have := congrArg Prod.snd made
      simp only [List.length_cons] at this ⊢
      omega
  | case3 c rest other same =>
      have closes : c = quote := by simpa using same
      cases h
      exact ⟨[], rest, by rw [closes, List.nil_append], rfl, .nil⟩
  | case4 c rest other differ ih =>
      obtain ⟨inner, found, made⟩ := Option.map_eq_some_iff.mp h
      obtain ⟨body, after, rfl, counted, within⟩ := ih found
      -- A backslash with nothing behind it is no escape, and then no quote closes the text either.
      have not_escape : c ≠ '\\' := by
        rintro rfl
        cases body with
        | nil => exact other _ _ rfl rfl
        | cons d body => exact other _ _ rfl rfl
      refine ⟨c :: body, after, rfl, ?_, within.char (by simpa using differ) not_escape⟩
      have := congrArg Prod.snd made
      simp only [List.length_cons] at this ⊢
      omega

/-- How the tokens of a kind are spelled. -/
inductive Spelled (kind : TokenKind) : Text → Prop
  | text {span letters body : Text} {quote : Char} :
      kind.isText = true → letters.all isPlain = true → isQuote quote = true →
      Body quote body → span = letters ++ quote :: (body ++ [quote]) → Spelled kind span
  | plain {span : Text} :
      kind.isText = false → span.all isPlain = true → Spelled kind span

-- A text that starts with the characters of a lexeme.
def Lexeme.Starts (lexeme : Lexeme) (t : Text) : Prop :=
  ∃ span after, t = span ++ after ∧ span.length = lexeme.more + 1 ∧ Spelled lexeme.kind span

theorem readText_starts {style : QuoteStyle} {letters rest : Text} {quote : Char} {column : Nat}
    {lexeme : Lexeme} (plain : letters.all isPlain) (quoted : isQuote quote = true)
    (h : readText style letters.length quote rest column = .ok lexeme) :
    lexeme.Starts (letters ++ quote :: rest) := by
  rw [readText] at h
  split at h
  · rename_i value length found
    obtain ⟨body, after, rfl, rfl, within⟩ := readQuoted?_some found
    cases h
    refine ⟨letters ++ quote :: (body ++ [quote]), after, by simp, by simp; omega,
      .text ?_ plain quoted within rfl⟩
    show (if style.formatted then TokenKind.formatted else .string).isText = true
    cases style.formatted <;> rfl
  · contradiction

theorem isPlain_of_isDigit {c : Char} (h : isDigit c = true) : isPlain c = true := by
  by_cases special : c = '"' ∨ c = '\'' ∨ c = '#'
  · obtain rfl | rfl | rfl := special <;> exact absurd h (by decide)
  · simp only [not_or] at special
    simp [isPlain, isQuote, special]

theorem isPlain_of_isNameStart {c : Char} (h : isNameStart c = true) : isPlain c = true := by
  by_cases special : c = '"' ∨ c = '\'' ∨ c = '#'
  · obtain rfl | rfl | rfl := special <;> exact absurd h (by decide)
  · simp only [not_or] at special
    simp [isPlain, isQuote, special]

theorem isPlain_of_isNameRest {c : Char} (h : isNameRest c = true) : isPlain c = true := by
  rw [isNameRest, Bool.or_eq_true] at h
  exact h.elim isPlain_of_isNameStart isPlain_of_isDigit

theorem isPlain_of_isGrouped {c : Char} (h : isGrouped c = true) : isPlain c = true := by
  rw [isGrouped, Bool.or_eq_true] at h
  refine h.elim isPlain_of_isDigit fun same => ?_
  rw [eq_of_beq same]
  rfl

theorem all_isPlain_takeWhile {p : Char → Bool} (plain : ∀ {c}, p c = true → isPlain c = true)
    (t : Text) : (t.takeWhile p).all isPlain = true :=
  List.all_eq_true.mpr fun c member => plain (List.all_eq_true.mp List.all_takeWhile c member)

theorem takeWhile_append_drop (p : Char → Bool) (t : Text) :
    t.takeWhile p ++ t.drop (t.takeWhile p).length = t :=
  List.prefix_iff_eq_append.mp <| List.takeWhile_prefix p

theorem isText_wordKind (word : Text) : (wordKind word).isText = false := by
  have table : keywords.all (fun k => !k.2.isText) = true := by decide
  rw [wordKind]
  split
  · rename_i k found
    simpa using List.all_eq_true.mp table k (List.mem_of_find?_eq_some found)
  · rfl

theorem readWord_starts {c : Char} {rest : Text} {column : Nat} {lexeme : Lexeme}
    (starts : isNameStart c = true) (h : readWord c rest column = .ok lexeme) :
    lexeme.Starts (c :: rest) := by
  have whole := takeWhile_append_drop isNameRest rest
  have plain : (c :: rest.takeWhile isNameRest).all isPlain = true := by
    simp [isPlain_of_isNameStart starts, all_isPlain_takeWhile isPlain_of_isNameRest rest]
  have word : Lexeme.Starts ⟨wordKind (c :: rest.takeWhile isNameRest),
      c :: rest.takeWhile isNameRest, (rest.takeWhile isNameRest).length⟩ (c :: rest) :=
    ⟨_, _, by rw [List.cons_append, whole], rfl, .plain (isText_wordKind _) plain⟩
  rw [readWord] at h
  split at h
  · rename_i style quote body _ behind
    split at h
    · rename_i quoted
      rw [behind] at whole
      rw [← whole]
      exact readText_starts plain quoted h
    · cases h
      exact word
  · cases h
    exact word

theorem readOperator_starts {c : Char} {rest : Text} {column : Nat} {lexeme : Lexeme}
    (h : readOperator c rest column = .ok lexeme) : lexeme.Starts (c :: rest) := by
  have table : operators.all (fun o => o.1.toList.all isPlain && !o.2.isText
      && o.1.toList.length == o.1.length - 1 + 1) = true := by decide
  rw [readOperator] at h
  split at h
  · rename_i symbol kind found
    cases h
    have facts := List.all_eq_true.mp table _ (List.mem_of_find?_eq_some found)
    simp only [Bool.and_eq_true, Bool.not_eq_true', beq_iff_eq] at facts
    have begins := List.find?_some found
    obtain ⟨after, whole⟩ := List.isPrefixOf_iff_prefix.mp begins
    exact ⟨symbol.toList, after, whole.symm, facts.2, .plain facts.1.2 facts.1.1⟩
  · contradiction

theorem fractionPart_front (t : Text) :
    fractionPart t <+: t ∧ (fractionPart t).all isPlain = true := by
  unfold fractionPart
  split
  · rename_i rest
    have point : isPlain '.' = true := rfl
    rw [List.prefix_cons_inj, List.all_cons, point, all_isPlain_takeWhile isPlain_of_isGrouped]
    exact ⟨List.takeWhile_prefix _, rfl⟩
  · exact ⟨List.nil_prefix, rfl⟩

-- What stands after the exponent mark, given its sign.
theorem exponent_front {mark : Char} {sign rest : Text} (marks : mark = 'e' ∨ mark = 'E')
    (front : sign <+: rest) (plain : sign.all isPlain = true) :
    let part := match (rest.drop sign.length).takeWhile isDigit with
      | [] => []
      | digits => mark :: sign ++ digits
    part <+: mark :: rest ∧ part.all isPlain = true := by
  obtain ⟨behind, rfl⟩ := front
  have digits_front := List.takeWhile_prefix (l := behind) isDigit
  have digits_plain := all_isPlain_takeWhile isPlain_of_isDigit behind
  have mark_plain : isPlain mark = true := by
    obtain rfl | rfl := marks <;> rfl
  rw [List.drop_left]
  split
  · exact ⟨List.nil_prefix, rfl⟩
  · refine ⟨?_, by simp [mark_plain, plain, digits_plain]⟩
    simpa only [List.cons_append, List.prefix_cons_inj, List.prefix_append_right_inj]

theorem exponentPart_front (t : Text) :
    exponentPart t <+: t ∧ (exponentPart t).all isPlain = true := by
  unfold exponentPart
  split
  · rename_i mark rest
    split
    · rename_i marks
      have marked : mark = 'e' ∨ mark = 'E' := by simpa using marks
      apply exponent_front marked
      · split
        · exact ⟨_, rfl⟩
        · exact ⟨_, rfl⟩
        · exact List.nil_prefix
      · split <;> rfl
    · exact ⟨List.nil_prefix, rfl⟩
  · exact ⟨List.nil_prefix, rfl⟩

-- The parts of a number stand in front of its text, one after the other.
theorem number_cut (t : Text) :
    let whole := t.takeWhile isGrouped
    let fraction := fractionPart (t.drop whole.length)
    let afterFraction := (t.drop whole.length).drop fraction.length
    let exponent := exponentPart afterFraction
    whole ++ fraction ++ exponent ++ afterFraction.drop exponent.length = t := by
  intro whole fraction afterFraction exponent
  have first_cut : whole ++ t.drop whole.length = t := takeWhile_append_drop isGrouped t
  have second_cut : fraction ++ afterFraction = t.drop whole.length :=
    List.prefix_iff_eq_append.mp (fractionPart_front _).1
  have third_cut : exponent ++ afterFraction.drop exponent.length = afterFraction :=
    List.prefix_iff_eq_append.mp (exponentPart_front _).1
  rw [List.append_assoc, third_cut, List.append_assoc, second_cut, first_cut]

-- A number that is begun has a first character.
theorem number_ne_nil {c : Char} {rest : Text} (starts : startsNumber c rest = true) :
    let whole := (c :: rest).takeWhile isGrouped
    whole ++ fractionPart ((c :: rest).drop whole.length) ≠ [] := by
  rw [startsNumber, Bool.or_eq_true] at starts
  obtain digit | point := starts
  · simp [isGrouped, digit]
  · rw [Bool.and_eq_true, beq_iff_eq] at point
    obtain ⟨rfl, -⟩ := point
    have not_grouped : isGrouped '.' = false := by decide
    simp [not_grouped, fractionPart]

theorem readNumber_starts {c : Char} {rest : Text} {column : Nat} {lexeme : Lexeme}
    (starts : startsNumber c rest = true) (h : readNumber (c :: rest) column = .ok lexeme) :
    lexeme.Starts (c :: rest) := by
  have begun := number_ne_nil starts
  unfold readNumber at h
  extract_lets whole afterWhole fraction afterFraction exponent behind raw isFloat at h
  have cut : raw ++ behind = c :: rest := number_cut (c :: rest)
  have plain : raw.all isPlain = true := by
    simp [raw, whole, all_isPlain_takeWhile isPlain_of_isGrouped, fraction,
      (fractionPart_front afterWhole).2, exponent, (exponentPart_front afterFraction).2]
  have counted : raw.length = raw.length - 1 + 1 := by
    have shown : raw ≠ [] := List.append_ne_nil_of_left_ne_nil begun exponent
    have := List.length_pos_iff.mpr shown
    omega
  split at h
  · contradiction
  · split at h
    · contradiction
    · split at h
      · contradiction
      · cases h
        refine ⟨raw, behind, cut.symm, counted, .plain ?_ plain⟩
        show (if isFloat then TokenKind.float else .number).isText = false
        cases isFloat <;> rfl

/-- A lexeme that is read stands at the start of the text. -/
theorem read_starts {c : Char} {rest : Text} {column : Nat} {lexeme : Lexeme}
    (h : read c rest column = .ok lexeme) : lexeme.Starts (c :: rest) := by
  rw [read] at h
  split at h
  · rename_i quoted
    have plain : List.all ([] : Text) isPlain = true := rfl
    exact readText_starts plain quoted h
  · split at h
    · rename_i starts
      exact readNumber_starts starts h
    · split at h
      · rename_i starts
        exact readWord_starts starts h
      · exact readOperator_starts h

theorem readText_error {style : QuoteStyle} {lead column : Nat} {quote : Char} {rest : Text}
    {e : ReadError} (h : readText style lead quote rest column = .error e) :
    e.isLexical = true := by
  rw [readText] at h
  split at h
  · contradiction
  · cases h
    rfl

theorem readNumber_error {t : Text} {column : Nat} {e : ReadError}
    (h : readNumber t column = .error e) : e.isLexical = true := by
  unfold readNumber at h
  extract_lets at h
  split at h
  · cases h
    rfl
  · split at h
    · cases h
      rfl
    · split at h
      · cases h
        rfl
      · contradiction

theorem read_error {c : Char} {rest : Text} {column : Nat} {e : ReadError}
    (h : read c rest column = .error e) : e.isLexical = true := by
  rw [read] at h
  split at h
  · exact readText_error h
  · split at h
    · exact readNumber_error h
    · split at h
      · rw [readWord] at h
        split at h
        · split at h
          · exact readText_error h
          · contradiction
        · contradiction
      · rw [readOperator] at h
        split at h
        · contradiction
        · cases h
          rfl

def Lexeme.tokenAt (lexeme : Lexeme) (column : Nat) (span : Text) : Token :=
  { kind := lexeme.kind, value := lexeme.value, column := column, span := span }

theorem scanFrom_nil (column : Nat) : scanFrom column [] = .ok [finishAt column] := by
  rw [scanFrom]

theorem scanFrom_layout {c : Char} {rest : Text} (layout : isLayout c = true) (column : Nat) :
    scanFrom column (c :: rest) = scanFrom (column + 1) rest := by
  rw [scanFrom, if_pos layout]

theorem scanFrom_shown {c : Char} {rest : Text} (shown : isLayout c = false) (column : Nat) :
    scanFrom column (c :: rest) = read c rest column >>= fun lexeme =>
      (scanFrom (column + 1 + lexeme.more) (rest.drop lexeme.more)).map
        (lexeme.tokenAt column (c :: rest.take lexeme.more) :: ·) := by
  rw [scanFrom, shown, if_neg Bool.false_ne_true]
  refine congrArg (read c rest column >>= ·) (funext fun lexeme => ?_)
  dsimp only
  cases scanFrom (column + 1 + lexeme.more) (rest.drop lexeme.more) <;> rfl

theorem scanFrom_error {c : Char} {rest : Text} {column : Nat} {e : ReadError}
    (shown : isLayout c = false) (h : read c rest column = .error e) :
    scanFrom column (c :: rest) = .error e := by
  rw [scanFrom_shown shown, h]
  rfl

theorem scanFrom_lexeme {c : Char} {rest : Text} {column : Nat} {lexeme : Lexeme}
    (shown : isLayout c = false) (h : read c rest column = .ok lexeme) :
    scanFrom column (c :: rest)
      = (scanFrom (column + 1 + lexeme.more) (rest.drop lexeme.more)).map
          (lexeme.tokenAt column (c :: rest.take lexeme.more) :: ·) := by
  rw [scanFrom_shown shown, h]
  rfl

/-- A scan that succeeds: layout is passed over, and each lexeme makes the next token. -/
inductive ScansTo : Nat → Text → List Token → Prop
  | finish (column : Nat) : ScansTo column [] [finishAt column]
  | layout {column : Nat} {c : Char} {rest : Text} {tokens : List Token}
      (blank : isLayout c = true) (behind : ScansTo (column + 1) rest tokens) :
      ScansTo column (c :: rest) tokens
  | token {column : Nat} {c : Char} {rest : Text} {lexeme : Lexeme} {others : List Token}
      (found : read c rest column = .ok lexeme)
      (behind : ScansTo (column + 1 + lexeme.more) (rest.drop lexeme.more) others) :
      ScansTo column (c :: rest) (lexeme.tokenAt column (c :: rest.take lexeme.more) :: others)

theorem scansTo_of_scanFrom {column : Nat} {t : Text} {tokens : List Token}
    (h : scanFrom column t = .ok tokens) : ScansTo column t tokens := by
  induction column, t using scanFrom.induct generalizing tokens with
  | case1 column =>
      rw [scanFrom_nil] at h
      cases h
      exact .finish column
  | case2 column c rest layout ih =>
      rw [scanFrom_layout layout] at h
      exact .layout layout (ih h)
  | case3 column c rest layout ih =>
      have shown : isLayout c = false := by simpa using layout
      cases found : read c rest column with
      | error e =>
          rw [scanFrom_error shown found] at h
          contradiction
      | ok lexeme =>
          rw [scanFrom_lexeme shown found] at h
          cases behind : scanFrom (column + 1 + lexeme.more) (rest.drop lexeme.more) with
          | error e =>
              rw [behind] at h
              contradiction
          | ok others =>
              rw [behind] at h
              cases h
              exact .token found (ih lexeme behind)

-- Reading tokens fails with an error of a token.
theorem isLexical_of_scanFrom {column : Nat} {t : Text} {e : ReadError}
    (h : scanFrom column t = .error e) : e.isLexical = true := by
  induction column, t using scanFrom.induct with
  | case1 column => simp [scanFrom_nil] at h
  | case2 column c rest layout ih =>
      rw [scanFrom_layout layout] at h
      exact ih h
  | case3 column c rest layout ih =>
      have shown : isLayout c = false := by simpa using layout
      cases first : read c rest column with
      | error inner =>
          rw [scanFrom_error shown first] at h
          cases h
          exact read_error first
      | ok lexeme =>
          rw [scanFrom_lexeme shown first] at h
          cases others : scanFrom (column + 1 + lexeme.more) (rest.drop lexeme.more) with
          | error inner =>
              rw [others] at h
              cases h
              exact ih lexeme others
          | ok tokens =>
              rw [others] at h
              contradiction

end Token

end Snippet
