import Snippet.Cause
import Snippet.Line.Mask
import Snippet.Proofs.Program
import Snippet.Proofs.Token.Lexeme

/-!
Tokens, comments and masks. A text that has tokens holds no comment, and its mask blanks out the
bodies of its text tokens and nothing else.
-/

set_option autoImplicit false

namespace Snippet

namespace Token

-- What stands before the opening quote of a text token.
def letters (token : Token) : Text :=
  token.span.takeWhile fun c => !isQuote c

/-- Whether a column lies between the quotes of a text token. -/
def covers (token : Token) (column : Nat) : Bool :=
  token.kind.isText && decide (token.column + token.letters.length < column)
    && decide (column + 1 < token.column + token.span.length)

-- A token and its place in a text that starts at a column.
def StandsIn (token : Token) (column : Nat) (t : Text) : Prop :=
  ∃ before after, t = before ++ (token.span ++ after) ∧ token.column = column + before.length

theorem StandsIn.append {token : Token} {column : Nat} {t : Text} (front : Text)
    (h : token.StandsIn (column + front.length) t) : token.StandsIn column (front ++ t) := by
  obtain ⟨before, after, rfl, place⟩ := h
  exact ⟨front ++ before, after, by simp, by simp [place]; omega⟩

theorem StandsIn.column_le {token : Token} {column : Nat} {t : Text}
    (h : token.StandsIn column t) : column ≤ token.column := by
  obtain ⟨before, after, -, place⟩ := h
  omega

theorem covers_before {token : Token} {column : Nat} (h : column ≤ token.column) :
    token.covers column = false := by
  have outside : ¬ token.column + token.letters.length < column := by omega
  simp [covers, outside]

theorem covers_behind {token : Token} {column : Nat}
    (h : token.column + token.span.length ≤ column) : token.covers column = false := by
  have outside : ¬ column + 1 < token.column + token.span.length := by omega
  simp [covers, outside]

-- A text that starts at a column, with the bodies of tokens blanked out.
def blankedFrom (tokens : List Token) : Nat → Text → Text
  | _, [] => []
  | column, c :: rest =>
      (if tokens.any (·.covers column) then '_' else c) :: blankedFrom tokens (column + 1) rest

theorem blankedFrom_append (tokens : List Token) (column : Nat) (front back : Text) :
    blankedFrom tokens column (front ++ back)
      = blankedFrom tokens column front ++ blankedFrom tokens (column + front.length) back := by
  induction front generalizing column with
  | nil => rfl
  | cons c front ih =>
      simp only [List.cons_append, blankedFrom, ih, List.length_cons]
      rw [Nat.add_right_comm, Nat.add_assoc]

theorem getElem?_blankedFrom (tokens : List Token) (column i : Nat) (t : Text) :
    (blankedFrom tokens column t)[i]?
      = t[i]?.map fun c => if tokens.any (·.covers (column + i)) then '_' else c := by
  induction t generalizing column i with
  | nil => rfl
  | cons c rest ih =>
      cases i with
      | zero => rfl
      | succ i => simp [blankedFrom, ih, Nat.add_assoc, Nat.add_comm 1]

-- Tokens that cover the same columns of a text blank out the same.
theorem blankedFrom_congr {tokens others : List Token} {column : Nat} {t : Text}
    (same : ∀ i < t.length, tokens.any (·.covers (column + i)) = others.any (·.covers (column + i))) :
    blankedFrom tokens column t = blankedFrom others column t := by
  induction t generalizing column with
  | nil => rfl
  | cons c rest ih =>
      have here := same 0 (by simp)
      have later : ∀ i < rest.length,
          tokens.any (·.covers (column + 1 + i)) = others.any (·.covers (column + 1 + i)) := by
        intro i inside
        have := same (i + 1) (by simpa using inside)
        rwa [Nat.add_comm i 1, ← Nat.add_assoc] at this
      simp only [blankedFrom, ih later]
      simp only [Nat.add_zero] at here
      rw [here]

theorem blankedFrom_outside {tokens : List Token} {column : Nat} {t : Text}
    (outside : ∀ i < t.length, tokens.any (·.covers (column + i)) = false) :
    blankedFrom tokens column t = t := by
  apply List.ext_getElem? fun i => ?_
  rw [getElem?_blankedFrom]
  by_cases inside : i < t.length
  · simp [outside i inside]
  · simp [List.getElem?_eq_none (Nat.le_of_not_lt inside)]

theorem blankedFrom_inside {tokens : List Token} {column : Nat} {t : Text}
    (covered : ∀ i < t.length, tokens.any (·.covers (column + i)) = true) :
    blankedFrom tokens column t = List.replicate t.length '_' := by
  apply List.ext_getElem? fun i => ?_
  rw [getElem?_blankedFrom]
  by_cases inside : i < t.length
  · simp [covered i inside, inside]
  · simp [inside]

theorem letters_eq {token : Token} {letters body : Text} {quote : Char}
    (plain : letters.all isPlain = true) (quoted : isQuote quote = true)
    (whole : token.span = letters ++ quote :: (body ++ [quote])) : token.letters = letters := by
  have unquoted : ∀ c ∈ letters, (!isQuote c) = true := by
    intro c member
    have := List.all_eq_true.mp plain c member
    rw [isPlain, Bool.and_eq_true] at this
    exact this.1
  rw [Token.letters, whole, List.takeWhile_append_of_pos unquoted]
  simp [quoted]

-- What scanning leaves: layout and well-spelled tokens, one after the other.
inductive Scanned : Nat → Text → List Token → Prop
  | finish (column : Nat) : Scanned column [] [finishAt column]
  | layout {column : Nat} {c : Char} {rest : Text} {tokens : List Token} :
      isLayout c = true → Scanned (column + 1) rest tokens → Scanned column (c :: rest) tokens
  | token {token : Token} {after : Text} {others : List Token} :
      Spelled token.kind token.span → Scanned (token.column + token.span.length) after others →
      Scanned token.column (token.span ++ after) (token :: others)

theorem scanned_of_scanFrom {column : Nat} {t : Text} {tokens : List Token}
    (h : scanFrom column t = .ok tokens) : Scanned column t tokens := by
  replace h := scansTo_of_scanFrom h
  induction h with
  | finish column => exact .finish column
  | layout blank _ ih => exact .layout blank ih
  | @token column c rest lexeme others found _ ih =>
      obtain ⟨span, after, whole, counted, spelled⟩ := read_starts found
      have taken : c :: rest.take lexeme.more = span := by
        rw [← List.take_succ_cons, whole, ← counted, List.take_left]
      have dropped : rest.drop lexeme.more = after := by
        rw [← List.drop_succ_cons, whole, ← counted, List.drop_left]
      rw [dropped, Nat.add_assoc, Nat.add_comm 1, ← counted] at ih
      rw [taken, whole]
      exact @Scanned.token (lexeme.tokenAt column span) after others spelled ih

theorem Scanned.standsIn {column : Nat} {t : Text} {tokens : List Token}
    (h : Scanned column t tokens) :
    ∀ token ∈ tokens, token.StandsIn column t ∧ Spelled token.kind token.span := by
  induction h with
  | finish column =>
      intro token member
      obtain rfl := List.mem_singleton.mp member
      exact ⟨⟨[], [], rfl, rfl⟩, .plain rfl rfl⟩
  | @layout column c rest tokens layout _ ih =>
      intro token member
      obtain ⟨stands, spelled⟩ := ih token member
      exact ⟨StandsIn.append [c] stands, spelled⟩
  | @token first after others spelled _ ih =>
      intro token member
      obtain rfl | later := List.mem_cons.mp member
      · exact ⟨⟨[], after, rfl, rfl⟩, spelled⟩
      · obtain ⟨stands, spelled⟩ := ih token later
        exact ⟨stands.append _, spelled⟩

theorem Scanned.any_covers_before {column : Nat} {t : Text} {tokens : List Token}
    (h : Scanned column t tokens) {place : Nat} (before : place ≤ column) :
    tokens.any (·.covers place) = false := by
  rw [List.any_eq_false]
  intro token member
  have := (h.standsIn token member).1.column_le
  rw [covers_before (by omega)]
  exact Bool.false_ne_true

theorem Scanned.any_covers_span {token : Token} {after : Text} {others : List Token}
    (behind : Scanned (token.column + token.span.length) after others) {i : Nat}
    (inside : i ≤ token.span.length) :
    (token :: others).any (·.covers (token.column + i)) = token.covers (token.column + i) := by
  rw [List.any_cons, behind.any_covers_before (by omega), Bool.or_false]

theorem Scanned.blankedFrom_after {token : Token} {after : Text} {others : List Token} :
    blankedFrom (token :: others) (token.column + token.span.length) after
      = blankedFrom others (token.column + token.span.length) after := by
  apply blankedFrom_congr
  intro i _
  rw [List.any_cons, covers_behind (by omega), Bool.false_or]

theorem Scanned.blankedFrom_plain {token : Token} {after : Text} {others : List Token}
    (behind : Scanned (token.column + token.span.length) after others)
    (plain : token.kind.isText = false) :
    blankedFrom (token :: others) token.column token.span = token.span := by
  apply blankedFrom_outside
  intro i inside
  rw [behind.any_covers_span (by omega), covers, plain]
  rfl

theorem Scanned.blankedFrom_text {token : Token} {after letters body : Text} {quote : Char}
    {others : List Token} (behind : Scanned (token.column + token.span.length) after others)
    (text : token.kind.isText = true) (plain : letters.all isPlain = true)
    (quoted : isQuote quote = true) (whole : token.span = letters ++ quote :: (body ++ [quote])) :
    blankedFrom (token :: others) token.column token.span
      = letters ++ quote :: (List.replicate body.length '_' ++ [quote]) := by
  have counted : token.span.length = letters.length + body.length + 2 := by
    simp [whole]
    omega
  have covered : ∀ i ≤ token.span.length,
      (token :: others).any (·.covers (token.column + i))
        = (decide (letters.length < i) && decide (i < letters.length + body.length + 1)) := by
    intro i inside
    rw [behind.any_covers_span inside, covers, text, letters_eq plain quoted whole, counted]
    congr 1
    · simp
    · simp
      omega
  -- Letters and quotes are left as they are, and what is between the quotes is blanked out.
  have front : blankedFrom (token :: others) token.column (letters ++ [quote])
      = letters ++ [quote] := by
    apply blankedFrom_outside
    intro i inside
    simp only [List.length_append, List.length_singleton] at inside
    rw [covered i (by omega)]
    simp [show ¬ letters.length < i by omega]
  have middle : blankedFrom (token :: others) (token.column + (letters.length + 1)) body
      = List.replicate body.length '_' := by
    apply blankedFrom_inside
    intro i inside
    rw [Nat.add_assoc, covered _ (by omega)]
    simp
    omega
  have back : blankedFrom (token :: others) (token.column + (letters.length + 1 + body.length))
      [quote] = [quote] := by
    apply blankedFrom_outside
    intro i inside
    simp only [List.length_singleton] at inside
    rw [Nat.add_assoc, covered _ (by omega)]
    simp
    omega
  rw [whole, List.append_cons, blankedFrom_append _ _ (letters ++ [quote]), front,
    blankedFrom_append _ _ body, List.length_append, List.length_singleton, middle, Nat.add_assoc,
    back]
  simp

theorem isPlain_of_isLayout {c : Char} (h : isLayout c = true) : isPlain c = true := by
  simp only [isLayout, Bool.or_eq_true, beq_iff_eq] at h
  obtain ((rfl | rfl) | rfl) | rfl := h <;> rfl

end Token

namespace Line

open Token (isPlain isQuote Body)

theorem withoutCommentFrom_outside (c : Char) (rest : Text) :
    withoutCommentFrom none (c :: rest) =
      if c == '#' then [] else c :: withoutCommentFrom (quoteAfter none c) rest := by
  rw [withoutCommentFrom]

theorem withoutCommentFrom_escape (quote c : Char) (rest : Text) :
    withoutCommentFrom (some quote) ('\\' :: c :: rest) =
      '\\' :: c :: withoutCommentFrom (some quote) rest := rfl

theorem maskFrom_outside (c : Char) (rest : Text) :
    maskFrom none (c :: rest) = (maskFrom (quoteAfter none c) rest).add [c] := by
  rw [maskFrom]

theorem maskFrom_escape (quote c : Char) (rest : Text) :
    maskFrom (some quote) ('\\' :: c :: rest) = (maskFrom (some quote) rest).add ['_', '_'] := rfl

theorem withoutCommentFrom_plain {span : Text} (plain : span.all isPlain = true) (after : Text) :
    withoutCommentFrom none (span ++ after) = span ++ withoutCommentFrom none after := by
  induction span with
  | nil => rfl
  | cons c span ih =>
      simp only [List.all_cons, Bool.and_eq_true, isPlain, bne_iff_ne, Bool.not_eq_true'] at plain
      obtain ⟨⟨unquoted, shown⟩, plain⟩ := plain
      simp [withoutCommentFrom_outside, shown, quoteAfter, unquoted, ih plain]

theorem maskFrom_plain {span : Text} (plain : span.all isPlain = true) (after : Text) :
    maskFrom none (span ++ after) = (maskFrom none after).add span := by
  induction span with
  | nil => rfl
  | cons c span ih =>
      simp only [List.all_cons, Bool.and_eq_true, isPlain, bne_iff_ne, Bool.not_eq_true'] at plain
      obtain ⟨⟨unquoted, shown⟩, plain⟩ := plain
      simp [maskFrom_outside, quoteAfter, unquoted, ih plain, Masked.add]

theorem withoutCommentFrom_body {quote : Char} {body : Text} (quoted : isQuote quote = true)
    (h : Body quote body) (after : Text) :
    withoutCommentFrom (some quote) (body ++ quote :: after)
      = body ++ quote :: withoutCommentFrom none after := by
  have not_escape := Token.ne_backslash quoted
  induction h with
  | nil =>
      rw [List.nil_append, withoutCommentFrom]
      · simp [quoteAfter]
      · exact fun _ _ same => absurd same not_escape
  | escape c _ ih => simp [withoutCommentFrom_escape, ih]
  | char differ shown _ ih =>
      rw [List.cons_append, withoutCommentFrom]
      · simp [quoteAfter, differ, ih]
      · exact fun _ _ same => absurd same shown

theorem maskFrom_body {quote : Char} {body : Text} (quoted : isQuote quote = true)
    (h : Body quote body) (after : Text) :
    maskFrom (some quote) (body ++ quote :: after)
      = (maskFrom none after).add (List.replicate body.length '_' ++ [quote]) := by
  have not_escape := Token.ne_backslash quoted
  induction h with
  | nil =>
      rw [List.nil_append, maskFrom]
      · simp [quoteAfter]
      · exact fun _ _ same => absurd same not_escape
  | escape c _ ih => simp [maskFrom_escape, ih, Masked.add, List.replicate_succ]
  | char differ shown _ ih =>
      rw [List.cons_append, maskFrom]
      · simp [quoteAfter, differ, ih, Masked.add, List.replicate_succ]
      · exact fun _ _ same => absurd same shown

theorem withoutCommentFrom_of_scanned {column : Nat} {t : Text} {tokens : List Token}
    (h : Token.Scanned column t tokens) : withoutCommentFrom none t = t := by
  induction h with
  | finish => rfl
  | @layout column c rest tokens layout _ ih =>
      have plain : [c].all isPlain = true := by simp [Token.isPlain_of_isLayout layout]
      have step := withoutCommentFrom_plain plain rest
      rwa [ih] at step
  | @token token after others spelled _ ih =>
      cases spelled with
      | @text letters body quote text plain quoted within whole =>
          have open_quote : withoutCommentFrom none (quote :: (body ++ quote :: after))
              = quote :: withoutCommentFrom (some quote) (body ++ quote :: after) := by
            have shown : quote ≠ '#' := by
              rintro rfl
              contradiction
            simp [withoutCommentFrom_outside, quoteAfter, quoted, shown]
          rw [whole, List.append_assoc, withoutCommentFrom_plain plain]
          simp [open_quote, withoutCommentFrom_body quoted within, ih]
      | plain text plain => rw [withoutCommentFrom_plain plain, ih]

theorem maskFrom_of_scanned {column : Nat} {t : Text} {tokens : List Token}
    (h : Token.Scanned column t tokens) :
    maskFrom none t = ⟨Token.blankedFrom tokens column t, true⟩ := by
  induction h with
  | finish => rfl
  | @layout column c rest tokens layout behind ih =>
      have plain : [c].all isPlain = true := by simp [Token.isPlain_of_isLayout layout]
      have step := maskFrom_plain plain rest
      have uncovered := behind.any_covers_before (Nat.le_succ column)
      rw [ih] at step
      simpa [Token.blankedFrom, uncovered, Masked.add] using step
  | @token token after others spelled behind ih =>
      rw [Token.blankedFrom_append, Token.Scanned.blankedFrom_after]
      cases spelled with
      | @text letters body quote text plain quoted within whole =>
          have open_quote : maskFrom none (quote :: (body ++ quote :: after))
              = (maskFrom (some quote) (body ++ quote :: after)).add [quote] := by
            simp [maskFrom_outside, quoteAfter, quoted]
          rw [behind.blankedFrom_text text plain quoted whole]
          conv => lhs; rw [whole, List.append_assoc, maskFrom_plain plain]
          simp [open_quote, maskFrom_body quoted within, ih, Masked.add]
      | plain text plain =>
          rw [behind.blankedFrom_plain text, maskFrom_plain plain, ih]
          rfl

/-- A text with tokens holds no comment, all its quotes are closed, and its mask blanks out the
bodies of its text tokens and nothing else; a quote that is left open is an error of reading. -/
theorem mask_agrees_with_scan (t : Text) :
    (∀ tokens, Token.scan t = .ok tokens →
      withoutComment t = t ∧ (mask t).closed = true ∧ (mask t).text.length = t.length ∧
        (∀ token ∈ tokens, token.kind.isText = true →
          token.StandsIn 1 t ∧ ∃ quote body, isQuote quote = true ∧
            token.span = token.letters ++ quote :: (body ++ [quote])) ∧
        ∀ i, (mask t).text[i]?
          = t[i]?.map fun c => if tokens.any (·.covers (i + 1)) then '_' else c) ∧
      ((mask t).closed = false → ∃ e, Token.scan t = .error e ∧
        (Cause.unreadable e).kind = "SyntaxError".toList) := by
  have agrees : ∀ tokens, Token.scan t = .ok tokens →
      mask t = ⟨Token.blankedFrom tokens 1 t, true⟩ :=
    fun tokens h => maskFrom_of_scanned (Token.scanned_of_scanFrom h)
  constructor
  · intro tokens h
    have scanned := Token.scanned_of_scanFrom h
    refine ⟨withoutCommentFrom_of_scanned scanned, by rw [agrees tokens h], length_mask t, ?_, ?_⟩
    · intro token member text
      obtain ⟨stands, spelled⟩ := scanned.standsIn token member
      cases spelled with
      | @text letters body quote _ plain quoted _ whole =>
          refine ⟨stands, quote, body, quoted, ?_⟩
          rw [Token.letters_eq plain quoted whole, whole]
      | plain not_text _ =>
          rw [text] at not_text
          contradiction
    · intro i
      rw [agrees tokens h]
      simp only [Token.getElem?_blankedFrom, Nat.add_comm 1 i]
  · intro left_open
    cases h : Token.scan t with
    | ok tokens =>
        rw [agrees tokens h] at left_open
        contradiction
    | error e =>
        have lexical := Token.isLexical_of_scanFrom h
        refine ⟨e, rfl, ?_⟩
        cases e <;> first | rfl | contradiction

-- A formatted text whose body holds a quote, and a text that is left open.
theorem mask_agrees_with_scan_escaped_quote :
    let t := "f'\\'#'".toList
    let tokens : List Token := [⟨.formatted, ['\'', '#'], 1, t⟩, ⟨.finish, [], 7, []⟩]
    Token.scan t = .ok tokens ∧ withoutComment t = t ∧ (mask t).closed = true ∧
      (mask t).text[3]? = some '_' ∧ (mask t).text[5]? = some '\'' ∧
      (mask "x + 'a".toList).closed = false ∧ ∃ e, Token.scan "x + 'a".toList = .error e := by
  have read : Token.scan "f'\\'#'".toList
      = .ok [⟨.formatted, ['\'', '#'], 1, "f'\\'#'".toList⟩, ⟨.finish, [], 7, []⟩] := by
    apply ok_of_toOption
    decide +kernel
  have left_open : (mask "x + 'a".toList).closed = false := by decide
  obtain ⟨whole, closed, -, -, masked⟩ := (mask_agrees_with_scan _).1 _ read
  obtain ⟨e, unread, -⟩ := (mask_agrees_with_scan _).2 left_open
  exact ⟨read, whole, closed, masked 3, masked 5, left_open, e, unread⟩

end Line

end Snippet
