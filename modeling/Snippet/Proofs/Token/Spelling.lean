import Mathlib.Data.List.Find
import Snippet.Proofs.Expr.Layout
import Snippet.Proofs.Number.Digits
import Snippet.Proofs.Token.Names

/-!
Spelling symbols. A text spells symbols if it has one after another, with any layout between them
and some where two would run together. Its tokens are these symbols.
-/

set_option autoImplicit false

namespace Snippet

open Token

/-- What stands between quotes for a text. -/
inductive Quoted (quote : Char) : Text → Text → Prop
  | nil : Quoted quote [] []
  | escape (c : Char) {body value : Text} :
      Quoted quote body value → Quoted quote ('\\' :: c :: body) (escaped c ++ value)
  | char {c : Char} {body value : Text} :
      c ≠ quote → c ≠ '\\' → Quoted quote body value → Quoted quote (c :: body) (c :: value)

/-- How a symbol is written. -/
inductive Spelling : Symbol → Text → Prop
  | name {id : Text} : isIdentifier id = true → Spelling (.name id) id
  | number (n : Nat) : Spelling (.number n) (digitsOf n)
  | text {quote : Char} {body value : Text} :
      isQuote quote = true → Quoted quote body value →
      Spelling (.text value) (quote :: (body ++ [quote]))
  | keyword {word : String × TokenKind} : word ∈ keywords → Spelling ⟨word.2, word.1.toList⟩ word.1.toList
  | operator {word : String × TokenKind} : word ∈ operators → Spelling ⟨word.2, word.1.toList⟩ word.1.toList

/-- A character right behind a symbol that does not run together with it. -/
def Symbol.endsBefore (s : Symbol) (c : Char) : Bool :=
  match s.kind with
  | .string => true
  | .number => !isNameRest c && c != '.'
  | kind =>
      if operators.any (·.2 == kind) then
        operators.all (fun o => !(s.value ++ [c]).isPrefixOf o.1.toList)
          && !(kind == .dot && isDigit c)
      else !isNameRest c && !isQuote c

/-- A text that has some symbols one after another. -/
inductive Spells : List Symbol → Text → Prop
  | nil {gap : Text} : gap.all isLayout = true → Spells [] gap
  | cons {s : Symbol} {symbols : List Symbol} {gap span t : Text} :
      gap.all isLayout = true → Spelling s span → (∀ c ∈ t.head?, s.endsBefore c = true) →
      Spells symbols t → Spells (s :: symbols) (gap ++ (span ++ t))

theorem readQuoted?_of_quoted {quote : Char} {body value : Text} (quoted : isQuote quote = true)
    (h : Quoted quote body value) (after : Text) :
    readQuoted? quote false (body ++ quote :: after) = some (value, body.length + 1) := by
  induction h with
  | nil =>
      have other := ne_backslash quoted
      rw [List.nil_append, readQuoted?, if_pos (beq_self_eq_true quote)]
      · rfl
      · exact fun _ _ same => absurd same other
  | escape c _ ih =>
      rw [List.cons_append, List.cons_append, readQuoted?, ih]
      rfl
  | char other not_escape _ ih =>
      rw [List.cons_append, readQuoted?, if_neg (by simpa using other), ih]
      · rfl
      · exact fun _ _ same => absurd same not_escape

theorem takeWhile_exact {p : Char → Bool} {front after : Text} (all : front.all p = true)
    (ends : ∀ c ∈ after.head?, p c = false) : (front ++ after).takeWhile p = front := by
  rw [List.takeWhile_append_of_pos (List.all_eq_true.mp all)]
  cases after with
  | nil => rw [List.takeWhile_nil, List.append_nil]
  | cons c after => rw [List.takeWhile_cons, ends c rfl, if_neg nofun, List.append_nil]

-- The characters of a lexeme are read, whatever is behind them.
def Reading (s : Symbol) (span after : Text) : Prop :=
  ∃ c rest, span = c :: rest ∧ isLayout c = false
    ∧ ∀ column, read c (rest ++ after) column = .ok ⟨s.kind, s.value, rest.length⟩

theorem isLayout_of_isNameStart {c : Char} (h : isNameStart c = true) : isLayout c = false := by
  by_cases special : c = ' ' ∨ c = '\t' ∨ c = '\r' ∨ c = '\n'
  · obtain rfl | rfl | rfl | rfl := special <;> exact absurd h (by decide)
  · simp only [not_or] at special
    simp [isLayout, special]

theorem not_isQuote_of_isPlain {c : Char} (h : isPlain c = true) : isQuote c = false := by
  rw [isPlain, Bool.and_eq_true] at h
  simpa using h.1

theorem readWord_exact {c : Char} {rest after : Text} (all : rest.all isNameRest = true)
    (ends : ∀ d ∈ after.head?, isNameRest d = false ∧ isQuote d = false) (column : Nat) :
    readWord c (rest ++ after) column = .ok ⟨wordKind (c :: rest), c :: rest, rest.length⟩ := by
  rw [readWord, takeWhile_exact all fun d member => (ends d member).1, List.drop_left]
  split
  · rename_i quote body _
    rw [(ends quote rfl).2]
    rfl
  · rfl

-- A character that starts a word starts no number and no text.
theorem read_word {c : Char} {rest : Text} {column : Nat} (starts : isNameStart c = true)
    (letter : isDigit c = false) :
    Token.read c rest column = readWord c rest column := by
  have plain := not_isQuote_of_isPlain (isPlain_of_isNameStart starts)
  have point : (c == '.') = false := by
    apply beq_false_of_ne
    rintro rfl
    exact absurd starts (by decide)
  have not_number : startsNumber c rest = false := by
    rw [startsNumber, letter, point, Bool.false_and, Bool.or_false]
  rw [Token.read, plain, not_number, starts]
  rfl

theorem reading_word {c : Char} {rest after : Text} (starts : isNameStart c = true)
    (letter : isDigit c = false) (all : rest.all isNameRest = true)
    (ends : ∀ d ∈ after.head?, isNameRest d = false ∧ isQuote d = false) :
    Reading ⟨wordKind (c :: rest), c :: rest⟩ (c :: rest) after := by
  refine ⟨c, rest, rfl, isLayout_of_isNameStart starts, fun column => ?_⟩
  rw [read_word starts letter, readWord_exact all ends]

theorem isLayout_of_isQuote {c : Char} (h : isQuote c = true) : isLayout c = false := by
  simp only [isQuote, Bool.or_eq_true, beq_iff_eq] at h
  obtain rfl | rfl := h <;> decide

theorem reading_text {quote : Char} {body value : Text} (quoted : isQuote quote = true)
    (h : Quoted quote body value) (after : Text) :
    Reading (.text value) (quote :: (body ++ [quote])) after := by
  refine ⟨quote, _, rfl, isLayout_of_isQuote quoted, fun column => ?_⟩
  rw [List.append_assoc, List.singleton_append, Token.read, if_pos quoted, readText,
    readQuoted?_of_quoted quoted h after]
  simp [Symbol.text]

theorem hasDoubleUnderscore_of_not_mem {t : Text} (h : '_' ∉ t) : hasDoubleUnderscore t = false := by
  fun_induction hasDoubleUnderscore t with
  | case1 => simp at h
  | case2 c rest _ ih => exact ih fun member => h (List.mem_cons_of_mem c member)
  | case3 => rfl

theorem isDigit_of_mem_digits {n : Nat} {c : Char} (h : c ∈ digitsOf n) : isDigit c = true := by
  have decimal := isDecimal_of_isDigit (isDigit_of_mem_digitsOf h)
  rw [isDecimal] at decimal
  rw [isDigit, decimal, Bool.true_or]

-- Nothing of a number starts with a character that neither continues a name nor is a point.
theorem number_ends {after : Text} (ends : ∀ d ∈ after.head?, isNameRest d = false ∧ d ≠ '.') :
    (∀ d ∈ after.head?, isGrouped d = false) ∧ fractionPart after = [] ∧ exponentPart after = []
      ∧ after.head?.any isNameStart = false := by
  cases after with
  | nil => exact ⟨nofun, rfl, rfl, rfl⟩
  | cons d after =>
      obtain ⟨not_name, not_point⟩ := ends d rfl
      rw [isNameRest, Bool.or_eq_false_iff] at not_name
      have letters (c : Char) (starts : isNameStart c = true) : d ≠ c := by
        rintro rfl
        rw [not_name.1] at starts
        contradiction
      have grouped : isGrouped d = false := by
        have := letters '_' (by decide)
        simp [isGrouped, not_name.2, this]
      refine ⟨fun c first => by cases first; exact grouped, ?_, ?_, not_name.1⟩
      · unfold fractionPart
        split
        · rename_i same
          cases same
          exact absurd rfl not_point
        · rfl
      · have marks : (d == 'e' || d == 'E') = false := by
          have := letters 'e' (by decide)
          have := letters 'E' (by decide)
          simp [*]
        exact if_neg (by simp [marks])

-- The digits of a natural are read, where nothing that follows belongs to a number.
theorem readNumber_exact {n : Nat} {after : Text}
    (ends : ∀ d ∈ after.head?, isNameRest d = false ∧ d ≠ '.') (column : Nat) :
    readNumber (digitsOf n ++ after) column
      = .ok ⟨.number, digitsOf n, (digitsOf n).length - 1⟩ := by
  obtain ⟨grouped, no_fraction, no_exponent, no_name⟩ := number_ends ends
  have digits : (digitsOf n).all isGrouped = true := List.all_eq_true.mpr fun c member => by
    rw [isGrouped, isDigit_of_mem_digits member, Bool.true_or]
  have no_underscore : '_' ∉ digitsOf n := fun member =>
    absurd (isDigit_of_mem_digitsOf member) (by decide)
  have last : ((digitsOf n).getLast? == some '_') = false :=
    beq_false_of_ne fun same => no_underscore (List.mem_of_getLast? same)
  have kept : (digitsOf n).filter (· != '_') = digitsOf n :=
    List.filter_eq_self.mpr fun c member => bne_iff_ne.mpr fun same => no_underscore (same ▸ member)
  have whole := takeWhile_exact digits grouped
  simp [readNumber, whole, no_fraction, no_exponent, no_name, last, kept,
    hasDoubleUnderscore_of_not_mem no_underscore, hasLeadingZeros_digitsOf]

theorem reading_number {n : Nat} {after : Text}
    (ends : ∀ d ∈ after.head?, isNameRest d = false ∧ d ≠ '.') :
    Reading (.number n) (digitsOf n) after := by
  obtain ⟨c, rest, digits⟩ := List.exists_cons_of_ne_nil (digitsOf_ne_nil n)
  have first : isDigit c = true :=
    isDigit_of_mem_digits (n := n) (by rw [digits]; exact List.mem_cons_self)
  have plain := not_isQuote_of_isPlain (isPlain_of_isDigit first)
  have shown : isLayout c = false := by
    by_cases special : c = ' ' ∨ c = '\t' ∨ c = '\r' ∨ c = '\n'
    · obtain rfl | rfl | rfl | rfl := special <;> exact absurd first (by decide)
    · simp only [not_or] at special
      simp [isLayout, special]
  have starts : startsNumber c (rest ++ after) = true := by
    rw [startsNumber, first, Bool.true_or]
  refine ⟨c, rest, digits, shown, fun column => ?_⟩
  have read := readNumber_exact (n := n) ends column
  rw [digits, List.cons_append] at read
  simp [Token.read, plain, starts, read, Symbol.number, digits]

-- The operators and keywords, as the tables have them.
theorem operators_plain : operators.all (fun o =>
    match o.1.toList with
    | [] => false
    | c :: rest =>
        !isLayout c && !isQuote c && !isDigit c && !isNameStart c
          && (c != '.' || rest.isEmpty && o.2 == .dot) && rest.length == o.1.length - 1
          && (operators.find? fun k => k.1.toList.isPrefixOf o.1.toList) == some o) = true := by
  decide

theorem keywords_plain : keywords.all (fun k =>
    match k.1.toList with
    | [] => false
    | c :: rest =>
        isNameStart c && !isDigit c && rest.all isNameRest && wordKind (c :: rest) == k.2) = true := by
  decide

-- No longer operator is found where the next character makes none longer.
theorem isPrefixOf_append {o word after : Text}
    (ends : ∀ d ∈ after.head?, (word ++ [d]).isPrefixOf o = false) :
    o.isPrefixOf (word ++ after) = o.isPrefixOf word := by
  rw [Bool.eq_iff_iff, List.isPrefixOf_iff_prefix, List.isPrefixOf_iff_prefix]
  refine ⟨fun front => ?_, fun front => front.trans (List.prefix_append word after)⟩
  obtain short | ⟨more, rfl⟩ := List.prefix_or_prefix_of_prefix front (List.prefix_append word after)
  · exact short
  · rw [List.prefix_append_right_inj] at front
    obtain ⟨behind, rfl⟩ := front
    cases more with
    | nil => simp
    | cons d more =>
        have longer : (word ++ [d]).isPrefixOf (word ++ d :: more) = true := by
          rw [List.isPrefixOf_iff_prefix, List.prefix_append_right_inj]
          exact ⟨more, rfl⟩
        rw [ends d rfl] at longer
        contradiction

theorem reading_operator {word : String × TokenKind} {after : Text} (listed : word ∈ operators)
    (ends : ∀ d ∈ after.head?,
      operators.all (fun o => !(word.1.toList ++ [d]).isPrefixOf o.1.toList) = true
        ∧ (word.2 = .dot → isDigit d = false)) :
    Reading ⟨word.2, word.1.toList⟩ word.1.toList after := by
  have facts := List.all_eq_true.mp operators_plain word listed
  split at facts
  · contradiction
  · rename_i c rest spelled
    simp only [Bool.and_eq_true, Bool.not_eq_true', Bool.or_eq_true, beq_iff_eq, bne_iff_ne] at facts
    obtain ⟨⟨⟨⟨⟨⟨shown, plain⟩, no_digit⟩, no_letter⟩, point⟩, counted⟩, found⟩ := facts
    have same : (operators.find? fun k => k.1.toList.isPrefixOf (word.1.toList ++ after)) = some word := by
      rw [← found]
      refine List.find?_congr fun o member => isPrefixOf_append fun d first => ?_
      simpa using List.all_eq_true.mp (ends d first).1 o member
    have not_number : startsNumber c (rest ++ after) = false := by
      rw [startsNumber, no_digit, Bool.false_or, Bool.and_eq_false_imp, beq_iff_eq]
      rintro rfl
      obtain ⟨alone, dot⟩ : rest.isEmpty = true ∧ word.2 = .dot := by simpa using point
      rw [List.isEmpty_iff.mp alone, List.nil_append]
      cases after with
      | nil => rfl
      | cons d after => exact (ends d rfl).2 dot
    refine ⟨c, rest, spelled, shown, fun column => ?_⟩
    rw [spelled, List.cons_append] at same
    simp [Token.read, plain, not_number, no_letter, readOperator, same, counted, spelled]

theorem reading_keyword {word : String × TokenKind} {after : Text} (listed : word ∈ keywords)
    (ends : ∀ d ∈ after.head?, isNameRest d = false ∧ isQuote d = false) :
    Reading ⟨word.2, word.1.toList⟩ word.1.toList after := by
  have facts := List.all_eq_true.mp keywords_plain word listed
  split at facts
  · contradiction
  · rename_i c rest spelled
    simp only [Bool.and_eq_true, Bool.not_eq_true', beq_iff_eq] at facts
    obtain ⟨⟨⟨starts, no_digit⟩, all⟩, kind⟩ := facts
    rw [spelled, ← kind]
    exact reading_word starts no_digit all ends

theorem reading_name {id after : Text} (identifier : isIdentifier id = true)
    (ends : ∀ d ∈ after.head?, isNameRest d = false ∧ isQuote d = false) :
    Reading (.name id) id after := by
  cases id with
  | nil => contradiction
  | cons c rest =>
      simp only [isIdentifier, Bool.and_eq_true, Bool.not_eq_true', beq_iff_eq] at identifier
      obtain ⟨⟨⟨no_digit, starts⟩, all⟩, kind⟩ := identifier
      have read := reading_word starts no_digit all ends
      rwa [kind] at read

-- A symbol's kind tells what must not follow it.
theorem endsBefore_word {s : Symbol} {c : Char} (shown : s.kind ≠ .string) (named : s.kind ≠ .number)
    (word : operators.any (·.2 == s.kind) = false) (h : s.endsBefore c = true) :
    isNameRest c = false ∧ isQuote c = false := by
  rw [Symbol.endsBefore] at h
  split at h
  · contradiction
  · contradiction
  · rw [word] at h
    simpa using h

theorem endsBefore_operator {s : Symbol} {c : Char} (shown : s.kind ≠ .string)
    (named : s.kind ≠ .number) (operator : operators.any (·.2 == s.kind) = true)
    (h : s.endsBefore c = true) :
    operators.all (fun o => !(s.value ++ [c]).isPrefixOf o.1.toList) = true
      ∧ (s.kind = .dot → isDigit c = false) := by
  rw [Symbol.endsBefore] at h
  split at h
  · contradiction
  · contradiction
  · rw [operator, if_pos rfl, Bool.and_eq_true] at h
    exact ⟨h.1, fun dot => by simpa [dot] using h.2⟩

theorem Spelling.reading {s : Symbol} {span after : Text} (h : Spelling s span)
    (ends : ∀ c ∈ after.head?, s.endsBefore c = true) : Reading s span after := by
  cases h with
  | name identifier =>
      exact reading_name identifier fun d first =>
        endsBefore_word (s := .name _) (by simp [Symbol.name]) (by simp [Symbol.name]) rfl (ends d first)
  | number n =>
      refine reading_number fun d first => ?_
      have apart := ends d first
      rw [Symbol.endsBefore] at apart
      simpa [Symbol.number] using apart
  | text quoted body => exact reading_text quoted body after
  | @keyword word listed =>
      have table : keywords.all (fun k => k.2 != .string && k.2 != .number
          && !operators.any (·.2 == k.2)) = true := by decide
      have facts := List.all_eq_true.mp table word listed
      simp only [Bool.and_eq_true, Bool.not_eq_true', bne_iff_ne] at facts
      exact reading_keyword listed fun d first =>
        endsBefore_word facts.1.1 facts.1.2 facts.2 (ends d first)
  | @operator word listed =>
      have table : operators.all (fun k => k.2 != .string && k.2 != .number) = true := by decide
      have facts := List.all_eq_true.mp table word listed
      simp only [Bool.and_eq_true, bne_iff_ne] at facts
      have among : operators.any (·.2 == word.2) = true :=
        List.any_eq_true.mpr ⟨word, listed, beq_self_eq_true _⟩
      exact reading_operator listed fun d first =>
        endsBefore_operator facts.1 facts.2 among (ends d first)

theorem scanFrom_gap {gap : Text} (blank : gap.all isLayout = true) (column : Nat) (t : Text) :
    scanFrom column (gap ++ t) = scanFrom (column + gap.length) t := by
  induction gap generalizing column with
  | nil => rfl
  | cons c gap ih =>
      rw [List.all_cons, Bool.and_eq_true] at blank
      rw [List.cons_append, scanFrom_layout blank.1, ih blank.2, List.length_cons,
        Nat.add_assoc, Nat.add_comm 1]

theorem scanFrom_reading {s : Symbol} {span after : Text} (h : Reading s span after) (column : Nat) :
    ∃ token : Token, token.symbol = s ∧ scanFrom column (span ++ after)
      = (scanFrom (column + span.length) after).map (token :: ·) := by
  obtain ⟨c, rest, rfl, shown, read⟩ := h
  refine ⟨Lexeme.tokenAt ⟨s.kind, s.value, rest.length⟩ column (c :: rest), rfl, ?_⟩
  rw [List.cons_append, scanFrom_lexeme shown (read column), List.drop_left, List.take_left,
    List.length_cons, Nat.add_assoc, Nat.add_comm 1]

/-- The tokens of a text are the symbols that it spells. -/
theorem scanFrom_spells {symbols : List Symbol} {t : Text} (h : Spells symbols t) (column : Nat) :
    ∃ tokens last, scanFrom column t = .ok (tokens ++ [finishAt last])
      ∧ tokens.map Token.symbol = symbols := by
  induction h generalizing column with
  | @nil gap blank =>
      refine ⟨[], column + gap.length, ?_, rfl⟩
      have skipped := scanFrom_gap blank column []
      rwa [List.append_nil, scanFrom_nil] at skipped
  | @cons s symbols gap span t blank spelled ends _ ih =>
      obtain ⟨token, same, scanned⟩ := scanFrom_reading (spelled.reading ends) (column + gap.length)
      obtain ⟨tokens, last, others, all⟩ := ih (column + gap.length + span.length)
      refine ⟨token :: tokens, last, ?_, by rw [List.map_cons, same, all]⟩
      rw [scanFrom_gap blank, scanned, others]
      rfl

/-- The identifiers are the texts that are read as a single name. -/
theorem isIdentifier_iff {id : Text} :
    isIdentifier id = true ↔
      ∃ token last, scan id = .ok [token, finishAt last] ∧ token.symbol = .name id := by
  constructor
  · intro identifier
    have spelled : Spells [.name id] ([] ++ (id ++ [])) := .cons rfl (.name identifier) nofun (.nil rfl)
    rw [List.nil_append, List.append_nil] at spelled
    obtain ⟨tokens, last, scanned, symbols⟩ := scanFrom_spells spelled 1
    obtain ⟨token, rfl, same⟩ := List.map_eq_singleton_iff.mp symbols
    exact ⟨token, last, scanned, same⟩
  · rintro ⟨token, last, scanned, same⟩
    obtain ⟨kind, value⟩ := Symbol.mk.inj same
    rw [← value]
    exact (namesAre_of_scanFrom (P := (isIdentifier · = true)) (fun _ identifier _ => identifier)
      scanned token List.mem_cons_self).1 kind

-- A text between apostrophes.
def quotedText (t : Text) : Text :=
  '\'' :: (t.flatMap (fun c => if c == '\'' || c == '\\' then ['\\', c] else [c]) ++ ['\''])

namespace Symbol

def written (s : Symbol) : Text :=
  if s.kind == .string then quotedText s.value else s.value

-- Symbols with a blank between any two.
def spaced : List Symbol → Text
  | [] => []
  | s :: rest => s.written ++ rest.flatMap fun s => ' ' :: s.written

end Symbol

theorem quoted_flatMap (t : Text) : Quoted '\''
    (t.flatMap fun c => if c == '\'' || c == '\\' then ['\\', c] else [c]) t := by
  induction t with
  | nil => exact .nil
  | cons c t ih =>
      rw [List.flatMap_cons]
      split
      · rename_i special
        have same : escaped c = [c] := by
          rw [Bool.or_eq_true, beq_iff_eq, beq_iff_eq] at special
          obtain rfl | rfl := special <;> rfl
        have step := ih.escape c
        rwa [same] at step
      · rename_i plain
        simp only [Bool.or_eq_true, beq_iff_eq, not_or] at plain
        exact ih.char plain.1 plain.2

-- A blank runs together with nothing.
theorem endsBefore_blank (s : Symbol) : s.endsBefore ' ' = true := by
  have table : operators.all (fun o => !o.1.toList.contains ' ') = true := by decide
  have longer : operators.all (fun o => !(s.value ++ [' ']).isPrefixOf o.1.toList) = true := by
    refine List.all_eq_true.mpr fun o member => ?_
    have blank := List.all_eq_true.mp table o member
    rw [Bool.not_eq_true', Bool.eq_false_iff] at blank ⊢
    intro front
    have inside : ' ' ∈ s.value ++ [' '] := by simp
    exact blank (List.contains_iff_mem.mpr ((List.isPrefixOf_iff_prefix.mp front).subset inside))
  have name_rest : isNameRest ' ' = false := by decide
  have digit : isDigit ' ' = false := by decide
  rw [Symbol.endsBefore]
  split
  · rfl
  · rw [name_rest]
    rfl
  · rw [longer, digit, name_rest]
    split
    · simp
    · rfl

theorem spells_behind {symbols : List Symbol} (h : ∀ s ∈ symbols, Spelling s s.written) :
    Spells symbols (symbols.flatMap fun s => ' ' :: s.written)
      ∧ ∀ s : Symbol, ∀ c ∈ (symbols.flatMap fun s => ' ' :: s.written).head?,
        s.endsBefore c = true := by
  induction symbols with
  | nil => exact ⟨@Spells.nil [] rfl, nofun⟩
  | cons s symbols ih =>
      rw [List.forall_mem_cons] at h
      obtain ⟨later, apart⟩ := ih h.2
      refine ⟨@Spells.cons s symbols [' '] _ _ rfl h.1 (apart s) later, ?_⟩
      rintro s _ ⟨⟩
      exact endsBefore_blank s

theorem spells_spaced {symbols : List Symbol} (h : ∀ s ∈ symbols, Spelling s s.written) :
    Spells symbols (Symbol.spaced symbols) := by
  cases symbols with
  | nil => exact @Spells.nil [] rfl
  | cons s symbols =>
      rw [List.forall_mem_cons] at h
      obtain ⟨later, apart⟩ := spells_behind h.2
      exact @Spells.cons s symbols [] _ _ rfl h.1 (apart s) later

end Snippet
