import Snippet.Proofs.Token.Bracket
import Snippet.Proofs.Token.Spelling

/-!
What tokens are made of. The span of a token decides its kind and its value. It is a word, an
operator, a number or a quoted text, and nothing of it depends on the layout behind it.
-/

set_option autoImplicit false

namespace Snippet.Token

variable {c quote : Char} {rest after span value body : Text} {column : Nat} {lexeme : Lexeme}
  {kind : TokenKind}

/-- The text that stands between two quotes, with its escapes read. -/
def bodyValue (raw : Bool) : Text → Text
  | '\\' :: c :: rest => (if raw then ['\\', c] else escaped c) ++ bodyValue raw rest
  | c :: rest => c :: bodyValue raw rest
  | [] => []

/-- The letters in front of a quote, and how they make it be read. -/
inductive Prefixed : Text → QuoteStyle → Prop
  | none : Prefixed [] ⟨false, false⟩
  | letters {c : Char} {rest : Text} {style : QuoteStyle} (starts : isNameStart c = true)
      (letter : isDigit c = false) (all : rest.all isNameRest = true)
      (styled : quoteStyle? (c :: rest) = some style) : Prefixed (c :: rest) style

/-- The digits in front of a point, the point and the digits behind it, and the exponent of a
number. -/
structure NumberParts (whole fraction exponent : Text) : Prop where
  grouped : whole.all isGrouped = true
  pointed : fraction = [] ∨ ∃ digits, fraction = '.' :: digits ∧ digits.all isGrouped = true
  scaled : exponent = [] ∨ ∃ mark sign digits, exponent = mark :: (sign ++ digits) ∧
    (mark = 'e' ∨ mark = 'E') ∧ (sign = [] ∨ sign = ['+'] ∨ sign = ['-']) ∧
    digits ≠ [] ∧ digits.all isDigit = true
  starts : ∃ c rest, whole ++ fraction ++ exponent = c :: rest ∧ startsNumber c rest = true
  ends : (whole ++ fraction ++ exponent).getLast? ≠ some '_'
  single : hasDoubleUnderscore (whole ++ fraction ++ exponent) = false
  unpadded : fraction = [] → exponent = [] → hasLeadingZeros whole = false

/-- The kind and the value of a token, and the span that it is read from. -/
inductive Formed : TokenKind → Text → Text → Prop
  | word {c : Char} {rest : Text} (starts : isNameStart c = true) (letter : isDigit c = false)
      (all : rest.all isNameRest = true) : Formed (wordKind (c :: rest)) (c :: rest) (c :: rest)
  | operator {symbol : String} {kind : TokenKind} (listed : (symbol, kind) ∈ operators) :
      Formed kind symbol.toList symbol.toList
  | number {whole fraction exponent : Text} (parts : NumberParts whole fraction exponent) :
      Formed (if !fraction.isEmpty || !exponent.isEmpty then .float else .number)
        ((whole ++ fraction ++ exponent).filter (· != '_')) (whole ++ fraction ++ exponent)
  | text {letters body : Text} {style : QuoteStyle} {quote : Char} (front : Prefixed letters style)
      (quoted : isQuote quote = true) (within : Body quote body) :
      Formed (if style.formatted then .formatted else .string) (bodyValue style.raw body)
        (letters ++ quote :: (body ++ [quote]))

section Text

theorem readQuoted?_body (quoted : isQuote quote = true) (raw : Bool) (h : Body quote body)
    (after : Text) :
    readQuoted? quote raw (body ++ quote :: after) = some (bodyValue raw body, body.length + 1) := by
  have other := ne_backslash quoted
  induction h with
  | nil =>
      rw [List.nil_append, readQuoted?, if_pos (beq_self_eq_true quote)]
      · rfl
      · exact fun _ _ same => absurd same other
  | escape c _ ih =>
      rw [List.cons_append, List.cons_append, readQuoted?, ih]
      rfl
  | @char c rest differ not_escape _ ih =>
      have step : bodyValue raw (c :: rest) = c :: bodyValue raw rest := by
        rw [bodyValue]
        exact fun _ _ same => absurd same not_escape
      rw [List.cons_append, readQuoted?, if_neg (by simpa using differ), ih, step]
      · rfl
      · exact fun _ _ same => absurd same not_escape

theorem formed_of_readText {letters : Text} {style : QuoteStyle} (front : Prefixed letters style)
    (quoted : isQuote quote = true)
    (h : readText style letters.length quote rest column = .ok lexeme) :
    ∃ body after, rest = body ++ quote :: after ∧ lexeme.more = letters.length + (body.length + 1) ∧
      Formed lexeme.kind lexeme.value (letters ++ quote :: (body ++ [quote])) := by
  rw [readText] at h
  split at h
  · rename_i value length found
    obtain ⟨body, after, rfl, -, within⟩ := readQuoted?_some found
    rw [readQuoted?_body quoted _ within] at found
    cases found
    cases h
    exact ⟨body, after, rfl, rfl, .text front quoted within⟩
  · contradiction

end Text

section Read

theorem formed_of_readWord (starts : isNameStart c = true) (letter : isDigit c = false)
    (h : readWord c rest column = .ok lexeme) :
    Formed lexeme.kind lexeme.value (c :: rest.take lexeme.more) := by
  have whole := takeWhile_append_drop isNameRest rest
  have all : (rest.takeWhile isNameRest).all isNameRest = true := List.all_takeWhile
  have word : Formed (wordKind (c :: rest.takeWhile isNameRest)) (c :: rest.takeWhile isNameRest)
      (c :: rest.take (rest.takeWhile isNameRest).length) := by
    rw [← List.prefix_iff_eq_take.mp (List.takeWhile_prefix isNameRest)]
    exact .word starts letter all
  rw [readWord] at h
  -- Letters before a quote may prefix a string; any other letters are a word.
  split at h
  · rename_i style quote behind styled dropped
    split at h
    · rename_i quoted
      obtain ⟨body, after, rfl, more, formed⟩ :=
        formed_of_readText (.letters starts letter all styled) quoted h
      rw [dropped] at whole
      have cut : (c :: rest.takeWhile isNameRest) ++ quote :: (body ++ [quote]) ++ after
          = c :: rest := by
        conv => rhs; rw [← whole]
        simp
      rwa [span_eq cut (by rw [more]; simp; omega)]
    · cases h
      exact word
  · cases h
    exact word

theorem formed_of_readOperator (h : readOperator c rest column = .ok lexeme) :
    Formed lexeme.kind lexeme.value (c :: rest.take lexeme.more) := by
  have table : ∀ o ∈ operators, o.1.toList.length = o.1.length - 1 + 1 := by decide
  rw [readOperator] at h
  split at h
  · rename_i symbol kind found
    cases h
    have listed := List.mem_of_find?_eq_some found
    have begins := List.find?_some found
    obtain ⟨after, whole⟩ := List.isPrefixOf_iff_prefix.mp begins
    rw [span_eq whole (table _ listed)]
    exact .operator listed
  · contradiction

theorem fractionPart_pointed (t : Text) : fractionPart t = [] ∨
    ∃ digits, fractionPart t = '.' :: digits ∧ digits.all isGrouped = true := by
  unfold fractionPart
  split
  · exact .inr ⟨_, rfl, List.all_takeWhile⟩
  · exact .inl rfl

theorem exponentPart_scaled (t : Text) : exponentPart t = [] ∨
    ∃ mark sign digits, exponentPart t = mark :: (sign ++ digits) ∧ (mark = 'e' ∨ mark = 'E') ∧
      (sign = [] ∨ sign = ['+'] ∨ sign = ['-']) ∧ digits ≠ [] ∧ digits.all isDigit = true := by
  unfold exponentPart
  split
  · rename_i mark rest
    split
    · rename_i marks
      extract_lets sign
      have signed : sign = [] ∨ sign = ['+'] ∨ sign = ['-'] := by
        dsimp only [sign]
        split
        · exact .inr (.inl rfl)
        · exact .inr (.inr rfl)
        · exact .inl rfl
      have all : ((rest.drop sign.length).takeWhile isDigit).all isDigit = true :=
        List.all_takeWhile
      split
      · exact .inl rfl
      · rename_i none
        exact .inr ⟨mark, sign, _, rfl, by simpa using marks, signed, none, all⟩
    · exact .inl rfl
  · exact .inl rfl

-- The front of a number starts like the whole text.
theorem startsNumber_front (starts : startsNumber c rest = true) (behind : Text) :
    let whole := (c :: rest).takeWhile isGrouped
    let fraction := fractionPart ((c :: rest).drop whole.length)
    ∃ d more, whole ++ fraction ++ behind = d :: more ∧ startsNumber d more = true := by
  rw [startsNumber, Bool.or_eq_true, Bool.and_eq_true, beq_iff_eq] at starts
  obtain digit | ⟨rfl, point⟩ := starts
  · have grouped : isGrouped c = true := by rw [isGrouped, digit, Bool.true_or]
    rw [List.takeWhile_cons_of_pos grouped]
    exact ⟨c, _, rfl, by rw [startsNumber, digit, Bool.true_or]⟩
  · have not_grouped : isGrouped '.' = false := by decide
    obtain ⟨d, rest, rfl⟩ : ∃ d more, rest = d :: more := by
      cases rest with
      | nil => contradiction
      | cons d more => exact ⟨d, more, rfl⟩
    have digit : isDigit d = true := point
    have grouped : isGrouped d = true := by rw [isGrouped, digit, Bool.true_or]
    rw [List.takeWhile_cons_of_neg (by simp [not_grouped])]
    refine ⟨'.', (d :: rest).takeWhile isGrouped ++ behind, rfl, ?_⟩
    rw [List.takeWhile_cons_of_pos grouped]
    simp [startsNumber, digit]

theorem formed_of_readNumber (starts : startsNumber c rest = true)
    (h : readNumber (c :: rest) column = .ok lexeme) :
    Formed lexeme.kind lexeme.value (c :: rest.take lexeme.more) := by
  have begun := number_ne_nil starts
  have starts := startsNumber_front starts
  unfold readNumber at h
  extract_lets whole afterWhole fraction afterFraction exponent behind raw isFloat at h
  have cut : raw ++ behind = c :: rest := number_cut (c :: rest)
  split at h
  · contradiction
  · rename_i tidy
    split at h
    · contradiction
    · rename_i unpadded
      split at h
      · contradiction
      · cases h
        have shown : raw ≠ [] := List.append_ne_nil_of_left_ne_nil begun exponent
        have counted : raw.length = raw.length - 1 + 1 := by
          have := List.length_pos_iff.mpr shown
          omega
        simp only [Bool.or_eq_true, beq_iff_eq, not_or, Bool.not_eq_true] at tidy
        have parts : NumberParts whole fraction exponent := {
          grouped := List.all_takeWhile
          pointed := fractionPart_pointed afterWhole
          scaled := exponentPart_scaled afterFraction
          starts := starts exponent
          ends := tidy.1
          single := tidy.2
          unpadded := fun no_fraction no_exponent => by
            simpa [isFloat, raw, no_fraction, no_exponent] using unpadded }
        rw [span_eq cut counted]
        exact .number parts

/-- What is read has the form of its kind. -/
theorem formed_of_read (h : read c rest column = .ok lexeme) :
    Formed lexeme.kind lexeme.value (c :: rest.take lexeme.more) := by
  rw [read] at h
  split at h
  case isTrue quoted =>
    obtain ⟨body, after, rfl, more, formed⟩ := formed_of_readText .none quoted h
    have cut : c :: (body ++ [c]) ++ after = c :: (body ++ c :: after) := by simp
    rwa [span_eq cut (by rw [more]; simp)]
  case isFalse =>
    split at h
    case isTrue starts => exact formed_of_readNumber starts h
    case isFalse not_number =>
      split at h
      case isTrue starts =>
        have letter : isDigit c = false := by
          rw [startsNumber, Bool.or_eq_true, not_or] at not_number
          simpa using not_number.1
        exact formed_of_readWord starts letter h
      case isFalse => exact formed_of_readOperator h

end Read

theorem wordKind_ne_finish (word : Text) : wordKind word ≠ .finish := by
  have table : keywords.all (·.2 != .finish) := by decide
  rw [wordKind]
  split
  · rename_i k found
    exact bne_iff_ne.mp (List.all_eq_true.mp table k (List.mem_of_find?_eq_some found))
  · simp

-- No span stands for the end.
theorem Formed.kind_ne_finish {kind : TokenKind} {value span : Text} (h : Formed kind value span) :
    kind ≠ .finish := by
  cases h with
  | word => exact wordKind_ne_finish _
  | operator listed =>
      have table : operators.all (·.2 != .finish) := by decide
      exact bne_iff_ne.mp (List.all_eq_true.mp table _ listed)
  | number | text => split <;> simp

theorem kind_ne_finish_of_read {column : Nat} {lexeme : Lexeme}
    (h : read c rest column = .ok lexeme) : lexeme.kind ≠ .finish :=
  (formed_of_read h).kind_ne_finish

section Reading

theorem not_isNameRest_of_isLayout (h : isLayout c = true) : isNameRest c = false := by
  simp only [isLayout, Bool.or_eq_true, beq_iff_eq] at h
  obtain ((rfl | rfl) | rfl) | rfl := h <;> decide

theorem not_isQuote_of_isLayout (h : isLayout c = true) : isQuote c = false := by
  simp only [isLayout, Bool.or_eq_true, beq_iff_eq] at h
  obtain ((rfl | rfl) | rfl) | rfl := h <;> decide

theorem not_isNameRest_of_isQuote (h : isQuote c = true) : isNameRest c = false := by
  simp only [isQuote, Bool.or_eq_true, beq_iff_eq] at h
  obtain rfl | rfl := h <;> decide

theorem reading_prefixed {letters : Text} {style : QuoteStyle} (front : Prefixed letters style)
    (quoted : isQuote quote = true) (within : Body quote body) (after : Text) :
    Reading ⟨if style.formatted then .formatted else .string, bodyValue style.raw body⟩
      (letters ++ quote :: (body ++ [quote])) after := by
  have read_text (lead column : Nat) :
      readText style lead quote (body ++ quote :: after) column
        = .ok ⟨if style.formatted then .formatted else .string, bodyValue style.raw body,
          lead + (body.length + 1)⟩ := by
    rw [readText, readQuoted?_body quoted _ within]
  cases front with
  | none =>
      refine ⟨quote, _, rfl, isLayout_of_isQuote quoted, fun column => ?_⟩
      rw [List.append_assoc, List.singleton_append, Token.read, if_pos quoted, read_text]
      simp
  | @letters c rest _ starts letter all styled =>
      refine ⟨c, _, rfl, isLayout_of_isNameStart starts, fun column => ?_⟩
      have whole : rest.append (quote :: (body ++ [quote])) ++ after
          = rest ++ quote :: (body ++ quote :: after) := by
        simp
      have stops : ∀ d ∈ (quote :: (body ++ quote :: after)).head?, isNameRest d = false := by
        rintro _ ⟨⟩
        exact not_isNameRest_of_isQuote quoted
      rw [whole, read_word starts letter, readWord, takeWhile_exact all stops, List.drop_left]
      simp only [styled, quoted, if_true, read_text]
      simp
      omega

theorem fractionPart_exact {fraction : Text}
    (pointed : fraction = [] ∨ ∃ digits, fraction = '.' :: digits ∧ digits.all isGrouped = true)
    (ends : ∀ d ∈ after.head?, isGrouped d = false ∧ d ≠ '.') :
    fractionPart (fraction ++ after) = fraction := by
  obtain rfl | ⟨digits, rfl, all⟩ := pointed
  · cases after with
    | nil => rfl
    | cons d after =>
        have other := (ends d rfl).2
        simp [fractionPart, other]
  · rw [List.cons_append, fractionPart, takeWhile_exact all fun d first => (ends d first).1]

theorem exponentPart_exact {mark : Char} {sign digits : Text} (marks : mark = 'e' ∨ mark = 'E')
    (signed : sign = [] ∨ sign = ['+'] ∨ sign = ['-']) (some_digits : digits ≠ [])
    (all : digits.all isDigit = true) (ends : ∀ d ∈ after.head?, isDigit d = false) :
    exponentPart (mark :: (sign ++ digits) ++ after) = mark :: (sign ++ digits) := by
  have taken : (digits ++ after).takeWhile isDigit = digits := takeWhile_exact all ends
  have marked : (mark == 'e' || mark == 'E') = true := by simpa using marks
  obtain ⟨d, more, rfl⟩ := List.exists_cons_of_ne_nil some_digits
  obtain rfl | rfl | rfl := signed
  · have digit : isDigit d = true := by
      rw [List.all_cons, Bool.and_eq_true] at all
      exact all.1
    have plus : d ≠ '+' := by
      rintro rfl
      exact absurd digit (by decide)
    have minus : d ≠ '-' := by
      rintro rfl
      exact absurd digit (by decide)
    rw [List.cons_append] at taken
    simp [exponentPart, marked, plus, minus, taken]
  · rw [List.cons_append] at taken
    simp [exponentPart, marked, taken]
  · rw [List.cons_append] at taken
    simp [exponentPart, marked, taken]

theorem not_isLayout_of_startsNumber (starts : startsNumber c rest = true) : isLayout c = false := by
  rw [startsNumber, Bool.or_eq_true, Bool.and_eq_true, beq_iff_eq] at starts
  rw [Bool.eq_false_iff]
  intro layout
  simp only [isLayout, Bool.or_eq_true, beq_iff_eq] at layout
  obtain ((rfl | rfl) | rfl) | rfl := layout <;> obtain digit | ⟨point, -⟩ := starts <;> contradiction

theorem not_isQuote_of_startsNumber (starts : startsNumber c rest = true) : isQuote c = false := by
  rw [startsNumber, Bool.or_eq_true, Bool.and_eq_true, beq_iff_eq] at starts
  obtain digit | ⟨rfl, -⟩ := starts
  · exact not_isQuote_of_isPlain (isPlain_of_isDigit digit)
  · rfl

theorem startsNumber_append (starts : startsNumber c rest = true) (after : Text) :
    startsNumber c (rest ++ after) = true := by
  cases rest with
  | nil =>
      have digit : isDigit c = true := by simpa [startsNumber] using starts
      rw [startsNumber, digit, Bool.true_or]
  | cons d rest => exact starts

theorem readNumber_parts {whole fraction exponent : Text}
    (parts : NumberParts whole fraction exponent) (ends : ∀ d ∈ after.head?, isLayout d = true)
    (column : Nat) :
    readNumber (whole ++ fraction ++ exponent ++ after) column
      = .ok ⟨if !fraction.isEmpty || !exponent.isEmpty then .float else .number,
        (whole ++ fraction ++ exponent).filter (· != '_'),
        (whole ++ fraction ++ exponent).length - 1⟩ := by
  have apart : ∀ d ∈ after.head?, isNameRest d = false ∧ d ≠ '.' := by
    intro d first
    have layout := ends d first
    refine ⟨not_isNameRest_of_isLayout layout, ?_⟩
    rintro rfl
    contradiction
  obtain ⟨ungrouped, no_fraction, no_exponent, no_name⟩ := number_ends apart
  have behind_fraction : ∀ d ∈ (exponent ++ after).head?, isGrouped d = false ∧ d ≠ '.' := by
    obtain rfl | ⟨mark, sign, digits, rfl, marks, -⟩ := parts.scaled
    · exact fun d first => ⟨ungrouped d first, (apart d first).2⟩
    · rintro _ ⟨⟩
      obtain rfl | rfl := marks <;> decide
  have behind_whole : ∀ d ∈ (fraction ++ (exponent ++ after)).head?, isGrouped d = false := by
    obtain rfl | ⟨digits, rfl, -⟩ := parts.pointed
    · exact fun d first => (behind_fraction d first).1
    · rintro _ ⟨⟩
      decide
  have front := takeWhile_exact parts.grouped behind_whole
  have middle := fractionPart_exact parts.pointed behind_fraction
  have back : exponentPart (exponent ++ after) = exponent := by
    obtain rfl | ⟨mark, sign, digits, rfl, marks, signed, some_digits, all⟩ := parts.scaled
    · exact no_exponent
    · refine exponentPart_exact marks signed some_digits all fun d first => ?_
      have not_grouped := ungrouped d first
      rw [isGrouped, Bool.or_eq_false_iff] at not_grouped
      exact not_grouped.1
  -- A padded whole part is refused in an integer only; a point or an exponent lifts that.
  have padded : (!(!fraction.isEmpty || !exponent.isEmpty)
      && hasLeadingZeros (whole ++ fraction ++ exponent)) = false := by
    obtain rfl | ⟨digits, rfl, -⟩ := parts.pointed
    · obtain rfl | ⟨mark, sign, digits, rfl, -⟩ := parts.scaled
      · simpa using parts.unpadded rfl rfl
      · rfl
    · rfl
  rw [List.append_assoc, List.append_assoc, readNumber]
  simp only [front, List.drop_left, middle, back, no_name, padded, parts.single,
    beq_false_of_ne parts.ends]
  rfl

theorem reading_numberParts {whole fraction exponent : Text}
    (parts : NumberParts whole fraction exponent) (ends : ∀ d ∈ after.head?, isLayout d = true) :
    Reading ⟨if !fraction.isEmpty || !exponent.isEmpty then .float else .number,
      (whole ++ fraction ++ exponent).filter (· != '_')⟩ (whole ++ fraction ++ exponent) after := by
  obtain ⟨c, rest, shown, starts⟩ := parts.starts
  have read := readNumber_parts parts ends
  refine ⟨c, rest, shown, not_isLayout_of_startsNumber starts, fun column => ?_⟩
  have unquoted := not_isQuote_of_startsNumber starts
  rw [shown] at read ⊢
  rw [Token.read, unquoted, startsNumber_append starts]
  exact read column

-- No operator goes on with layout.
theorem operator_ends_layout {symbol : Text} {kind : TokenKind} (layout : isLayout c = true) :
    operators.all (fun o => !(symbol ++ [c]).isPrefixOf o.1.toList) = true
      ∧ (kind = .dot → isDigit c = false) := by
  have table : operators.all (fun o => o.1.toList.all (!isLayout ·)) = true := by decide
  refine ⟨List.all_eq_true.mpr fun o member => ?_, fun _ => ?_⟩
  · have shown := List.all_eq_true.mp table o member
    rw [Bool.not_eq_true', Bool.eq_false_iff]
    intro front
    have inside : c ∈ o.1.toList := (List.isPrefixOf_iff_prefix.mp front).subset (by simp)
    simpa [layout] using List.all_eq_true.mp shown c inside
  · have not_name := not_isNameRest_of_isLayout layout
    rw [isNameRest, Bool.or_eq_false_iff] at not_name
    exact not_name.2

/-- A token is read from its span, wherever layout or nothing follows. -/
theorem Formed.reading (formed : Formed kind value span) (ends : ∀ d ∈ after.head?, isLayout d = true) :
    Reading ⟨kind, value⟩ span after := by
  cases formed with
  | word starts letter all =>
      exact reading_word starts letter all fun d first =>
        ⟨not_isNameRest_of_isLayout (ends d first), not_isQuote_of_isLayout (ends d first)⟩
  | @operator symbol _ listed =>
      exact reading_operator listed fun d first => operator_ends_layout (ends d first)
  | number parts => exact reading_numberParts parts ends
  | text front quoted within => exact reading_prefixed front quoted within after

end Reading

end Snippet.Token
