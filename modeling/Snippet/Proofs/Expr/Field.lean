import Snippet.Proofs.Expr.Grouped
import Snippet.Proofs.Expr.Nesting
import Snippet.Proofs.Text.Lines
import Snippet.Proofs.Text.Word
import Snippet.Proofs.Token.Relaid

/-!
Expressions in fields. The scans through a field count brackets and look for quotes without reading
tokens. On an expression without backslashes they agree with its tokens: no mark of the expression
ends the field, and behind it no bracket and no quote is open.
-/

set_option autoImplicit false

namespace Snippet

open Token

/-- A name, a number, an operator or a text starts with a character that is no blank. -/
theorem not_isBlank_of_isNameStart {c : Char} (h : isNameStart c = true) : isBlank c = false := by
  obtain word | wordless := isWordChar_or_wordless_of_isNameStart h
  · exact not_isBlank_of_isWordChar word
  · have apart : wordlessRanges.apart blankRanges = true := by decide
    exact Ranges.not_has_of_apart (by decide) (by decide) apart wordless

namespace Token

variable {kind : TokenKind} {value span : Text}

theorem not_isBlank_of_isQuote {c : Char} (h : isQuote c = true) : isBlank c = false := by
  simp only [isQuote, Bool.or_eq_true, beq_iff_eq] at h
  obtain rfl | rfl := h <;> decide

theorem Formed.begins (formed : Formed kind value span) : ∃ c ∈ span.head?, isBlank c = false := by
  cases formed with
  | @word c rest starts => exact ⟨c, rfl, not_isBlank_of_isNameStart starts⟩
  | @operator symbol kind listed =>
      have table : operators.all (fun o => o.1.toList.head?.any (!isBlank ·)) = true := by decide
      simpa [Option.any_eq_true] using List.all_eq_true.mp table _ listed
  | number parts =>
      obtain ⟨c, rest, whole, starts⟩ := parts.starts
      rw [whole]
      refine ⟨c, rfl, ?_⟩
      rw [startsNumber, Bool.or_eq_true, Bool.and_eq_true, beq_iff_eq] at starts
      obtain digit | ⟨rfl, -⟩ := starts
      · exact not_isBlank_of_isWordChar (isWordChar_of_isDigit digit)
      · decide
  | @text letters body style quote front quoted within =>
      cases front with
      | none => exact ⟨quote, rfl, not_isBlank_of_isQuote quoted⟩
      | @letters c rest _ starts => exact ⟨c, rfl, not_isBlank_of_isNameStart starts⟩

end Token

namespace Field

variable {n : Nesting} {d d' d'' : Nat} {t u : Text} {c : Char}

def Nesting.passing (n : Nesting) (t : Text) : Nesting :=
  t.foldl Nesting.after n

/-- Outside of quotes and brackets, nothing of a text ends a field or its expression. -/
def Quiet : Nesting → Text → Prop
  | _, [] => True
  | n, c :: rest =>
      (n.atTop = true → c ≠ '}' ∧ endsExpression c rest = false) ∧ Quiet (n.after c) rest

theorem endsExpression_append (quiet : endsExpression c t = false) (u : Text) :
    endsExpression c (t ++ u) = false := by
  cases t with
  | nil =>
      simp only [endsExpression, List.head?_nil, Bool.or_eq_false_iff] at quiet ⊢
      have other : (c == '!') = false := by simpa using quiet.2
      exact ⟨quiet.1, by rw [other, Bool.false_and]⟩
  | cons d t => exact quiet

theorem Quiet.append (front : Quiet n t) (back : Quiet (n.passing t) u) : Quiet n (t ++ u) := by
  induction t generalizing n with
  | nil => exact back
  | cons c t ih =>
      obtain ⟨here, behind⟩ := front
      refine ⟨fun top => ?_, ih behind back⟩
      exact ⟨(here top).1, endsExpression_append (here top).2 u⟩

-- A brace inside of quotes or brackets does not end a field.
theorem upToBrace?_append (inside : ∀ front back, t = front ++ '}' :: back →
    (n.passing front).atTop = false) (after : Text) :
    upToBrace? n (t ++ after)
      = (upToBrace? (n.passing t) after).map fun found => (t ++ found.1, found.2) := by
  induction t generalizing n with
  | nil =>
      show upToBrace? n after = (upToBrace? n after).map fun found => (found.1, found.2)
      rw [Option.map_id']
  | cons c t ih =>
      have going : ¬ (n.atTop && c == '}') = true := by
        rw [Bool.and_eq_true, beq_iff_eq]
        rintro ⟨top, rfl⟩
        rw [show n.atTop = false from inside [] t rfl] at top
        contradiction
      have later : ∀ front back, t = front ++ '}' :: back →
          ((n.after c).passing front).atTop = false :=
        fun front back whole => inside (c :: front) back (congrArg (c :: ·) whole)
      rw [List.cons_append, upToBrace?, if_neg going, ih later, Option.map_map]
      rfl

theorem Quiet.inside (quiet : Quiet n t) (front back : Text) (whole : t = front ++ '}' :: back) :
    (n.passing front).atTop = false := by
  induction front generalizing n t with
  | nil =>
      subst whole
      rw [← Bool.not_eq_true]
      exact fun top => (quiet.1 top).1 rfl
  | cons c front ih =>
      subst whole
      exact ih quiet.2 rfl

theorem splitSource_quiet (quiet : Quiet n t) (after : Text) :
    splitSource n (t ++ after)
      = (t ++ (splitSource (n.passing t) after).1, (splitSource (n.passing t) after).2) := by
  induction t generalizing n with
  | nil => rfl
  | cons c t ih =>
      obtain ⟨here, behind⟩ := quiet
      have going : ¬ (n.atTop && endsExpression c (t ++ after)) = true := by
        rw [Bool.and_eq_true]
        intro ends
        have quiet := endsExpression_append (here ends.1).2 after
        rw [ends.2] at quiet
        contradiction
      rw [List.cons_append, splitSource, if_neg going, ih behind]
      rfl

/-! ### Tokens -/

/-- From some brackets open to some, with no quote open. -/
structure Crosses (d d' : Nat) (t : Text) : Prop where
  quiet : Quiet ⟨d, none⟩ t
  reaches : Nesting.passing ⟨d, none⟩ t = ⟨d', none⟩

theorem Crosses.nil (d : Nat) : Crosses d d [] :=
  ⟨trivial, rfl⟩

theorem Crosses.append (front : Crosses d d' t) (back : Crosses d' d'' u) :
    Crosses d d'' (t ++ u) := by
  refine ⟨front.quiet.append ?_, ?_⟩
  · rw [front.reaches]
    exact back.quiet
  · rw [Nesting.passing, List.foldl_append]
    show Nesting.passing (Nesting.passing ⟨d, none⟩ t) u = _
    rw [front.reaches, back.reaches]

/-- Quotes, brackets, and the marks that may end an expression. -/
def marks : Text :=
  ['"', '\'', '(', '[', '{', ')', ']', '}', ':', '!']

theorem not_mem_marks {p : Char → Bool} (h : p c = true) (table : marks.any p = false) :
    c ∉ marks :=
  fun member => List.any_eq_false.mp table c member h

theorem ne_of_not_mem_marks (inert : c ∉ marks) {d : Char} (mark : d ∈ marks) : c ≠ d := by
  rintro rfl
  exact inert mark

theorem crosses_inert (inert : ∀ c ∈ t, c ∉ marks) : Crosses d d t := by
  induction t with
  | nil => exact .nil d
  | cons c t ih =>
      obtain ⟨here, inert⟩ := List.forall_mem_cons.mp inert
      have other : ∀ d ∈ marks, c ≠ d := fun d => ne_of_not_mem_marks here
      simp only [marks, List.forall_mem_cons] at other
      have after : Nesting.after ⟨d, none⟩ c = ⟨d, none⟩ := by
        simp [Nesting.after, isQuote, opens, closes, other]
      obtain ⟨quiet, reached⟩ := ih inert
      refine ⟨⟨fun _ => ⟨?_, ?_⟩, ?_⟩, ?_⟩
      · exact ne_of_not_mem_marks here (by decide)
      · simp [endsExpression, other]
      · rwa [after]
      · rw [Nesting.passing, List.foldl_cons, after]
        exact reached

-- What is between two quotes is hidden.
theorem crosses_quoted {quote : Char} {body : Text} (quoted : isQuote quote = true)
    (other : quote ∉ body) : Crosses d d (quote :: (body ++ [quote])) := by
  have inside : Quiet ⟨d, some quote⟩ (body ++ [quote]) ∧
      Nesting.passing ⟨d, some quote⟩ (body ++ [quote]) = ⟨d, none⟩ := by
    induction body with
    | nil =>
        refine ⟨⟨nofun, trivial⟩, ?_⟩
        simp [Nesting.passing, Nesting.after]
    | cons c body ih =>
        rw [List.mem_cons, not_or] at other
        have after : Nesting.after ⟨d, some quote⟩ c = ⟨d, some quote⟩ := by
          simp [Nesting.after, Ne.symm other.1]
        obtain ⟨quiet, reached⟩ := ih other.2
        refine ⟨⟨nofun, ?_⟩, ?_⟩
        · rwa [after]
        · rw [List.cons_append, Nesting.passing, List.foldl_cons, after]
          exact reached
  have after : Nesting.after ⟨d, none⟩ quote = ⟨d, some quote⟩ := by
    simp [Nesting.after, quoted]
  have unmarked : quote ≠ '}' ∧ ∀ rest, endsExpression quote rest = false := by
    simp only [isQuote, Bool.or_eq_true, beq_iff_eq] at quoted
    obtain rfl | rfl := quoted <;> exact ⟨by decide, fun _ => rfl⟩
  refine ⟨⟨fun _ => ⟨unmarked.1, unmarked.2 _⟩, ?_⟩, ?_⟩
  · rw [after]
    exact inside.1
  · rw [Nesting.passing, List.foldl_cons, after]
    exact inside.2

theorem inert_of_isLayout (h : isLayout c = true) : c ∉ marks :=
  not_mem_marks h (by decide)

theorem inert_of_isNameRest (h : isNameRest c = true) : c ∉ marks :=
  not_mem_marks h (by decide)

theorem inert_of_isNameStart (h : isNameStart c = true) : c ∉ marks :=
  inert_of_isNameRest (by rw [isNameRest, h, Bool.true_or])

theorem inert_of_isGrouped (h : isGrouped c = true) : c ∉ marks :=
  not_mem_marks h (by decide)

theorem inert_of_isDigit (h : isDigit c = true) : c ∉ marks :=
  inert_of_isNameRest (by rw [isNameRest, h, Bool.or_true])

theorem NumberParts.inert {whole fraction exponent : Text}
    (parts : NumberParts whole fraction exponent) :
    ∀ c ∈ whole ++ fraction ++ exponent, c ∉ marks := by
  have of_whole : ∀ c ∈ whole, c ∉ marks := fun c member =>
    inert_of_isGrouped (List.all_eq_true.mp parts.grouped c member)
  have of_fraction : ∀ c ∈ fraction, c ∉ marks := by
    obtain rfl | ⟨digits, rfl, all⟩ := parts.pointed
    · exact nofun
    · exact List.forall_mem_cons.mpr ⟨by decide, fun c member =>
        inert_of_isGrouped (List.all_eq_true.mp all c member)⟩
  have of_exponent : ∀ c ∈ exponent, c ∉ marks := by
    obtain rfl | ⟨mark, sign, digits, rfl, marked, signed, -, all⟩ := parts.scaled
    · exact nofun
    · refine List.forall_mem_cons.mpr ⟨?_, List.forall_mem_append.mpr ⟨?_, fun c member => ?_⟩⟩
      · obtain rfl | rfl := marked <;> decide
      · obtain rfl | rfl | rfl := signed <;> simp [marks]
      · exact inert_of_isDigit (List.all_eq_true.mp all c member)
  exact List.forall_mem_append.mpr ⟨List.forall_mem_append.mpr ⟨of_whole, of_fraction⟩, of_exponent⟩

theorem word_inert (starts : isNameStart c = true) (all : t.all isNameRest = true) :
    ∀ d ∈ c :: t, d ∉ marks :=
  List.forall_mem_cons.mpr ⟨inert_of_isNameStart starts, fun d member =>
    inert_of_isNameRest (List.all_eq_true.mp all d member)⟩

theorem Prefixed.inert {letters : Text} {style : QuoteStyle} (front : Prefixed letters style) :
    ∀ c ∈ letters, c ∉ marks := by
  cases front with
  | none => exact nofun
  | letters starts _ all => exact word_inert starts all

theorem not_mem_body {quote : Char} {body : Text} (within : Body quote body) (plain : '\\' ∉ body) :
    quote ∉ body := by
  induction within with
  | nil => exact List.not_mem_nil
  | escape => exact absurd List.mem_cons_self plain
  | char other _ _ ih =>
      rw [List.mem_cons, not_or] at plain ⊢
      exact ⟨Ne.symm other, ih plain.2⟩

theorem nest_wordKind (word : Text) (d : Nat) : (wordKind word).nest d = some d := by
  have table : keywords.all (fun k => !TokenKind.nesting.contains k.2) = true := by decide
  apply TokenKind.nest_of_not_mem
  rw [wordKind]
  split
  · rename_i k found
    simpa using List.all_eq_true.mp table k (List.mem_of_find?_eq_some found)
  · decide

theorem atTop_inside (d : Nat) : Nesting.atTop ⟨(d + 1 : Nat), none⟩ = false := by
  have deep : ((d + 1 : Nat) : Int) ≠ 0 := by omega
  simpa [Nesting.atTop] using deep

theorem crosses_opening (d : Nat) (opening : c ∈ ['(', '[', '{']) : Crosses d (d + 1) [c] := by
  simp only [List.mem_cons, List.not_mem_nil, or_false] at opening
  obtain rfl | rfl | rfl := opening <;> exact ⟨⟨fun _ => ⟨by decide, rfl⟩, trivial⟩, rfl⟩

theorem quiet_inside (d : Nat) (c : Char) : Quiet ⟨(d + 1 : Nat), none⟩ [c] := by
  refine ⟨fun top => ?_, trivial⟩
  rw [atTop_inside] at top
  contradiction

theorem crosses_closing (d : Nat) (closing : c ∈ [')', ']', '}']) : Crosses (d + 1) d [c] := by
  refine ⟨quiet_inside d c, ?_⟩
  simp only [List.mem_cons, List.not_mem_nil, or_false] at closing
  obtain rfl | rfl | rfl := closing <;> simp [Nesting.passing, Nesting.after, isQuote, opens, closes]

theorem crosses_operator {symbol : String} {kind : TokenKind} (listed : (symbol, kind) ∈ operators)
    (level : kind.nest d = some d') : Crosses d d' symbol.toList := by
  have table : operators.all (fun o =>
      o = ("(", .openParen) || o = ("[", .openBracket) || o = ("\x7b", .openBrace) ||
      o = (")", .closeParen) || o = ("]", .closeBracket) || o = ("\x7d", .closeBrace) ||
      o = (":", .colon) || o = ("!=", .notEqual) ||
      !TokenKind.nesting.contains o.2 && o.1.toList.all (!marks.contains ·)) = true := by
    decide
  have inside {kind : TokenKind} (level : kind.nest d = some d') (none : kind.nest 0 = .none) :
      ∃ e, d = e + 1 := by
    cases d with
    | zero =>
        rw [none] at level
        contradiction
    | succ e => exact ⟨e, rfl⟩
  have row := List.all_eq_true.mp table _ listed
  simp only [Bool.or_eq_true, Bool.and_eq_true, Bool.not_eq_true', decide_eq_true_eq,
    List.all_eq_true, List.contains_eq_mem, decide_eq_false_iff_not, or_assoc] at row
  obtain same | same | same | same | same | same | same | same | ⟨flat, inert⟩ := row
  iterate 3
    cases same
    cases level
    exact crosses_opening d (by decide)
  iterate 3
    cases same
    obtain ⟨e, rfl⟩ := inside level rfl
    cases level
    exact crosses_closing d' (by decide)
  · cases same
    obtain ⟨e, rfl⟩ := inside level rfl
    cases level
    exact ⟨quiet_inside e ':', rfl⟩
  · cases same
    cases level
    exact ⟨⟨fun _ => ⟨by decide, rfl⟩, fun _ => ⟨by decide, rfl⟩, trivial⟩, rfl⟩
  · rw [TokenKind.nest_of_not_mem flat] at level
    cases level
    exact crosses_inert inert

/-- On a token without backslashes the scans agree with its kind. -/
theorem crosses_of_formed {kind : TokenKind} {value span : Text} (formed : Formed kind value span)
    (plain : '\\' ∉ span) (level : kind.nest d = some d') : Crosses d d' span := by
  cases formed with
  | @word c rest starts letter all =>
      rw [nest_wordKind] at level
      cases level
      exact crosses_inert (word_inert starts all)
  | operator listed => exact crosses_operator listed level
  | number parts =>
      obtain rfl : d = d' := by split at level <;> exact Option.some.inj level
      exact crosses_inert (NumberParts.inert parts)
  | text front quoted within =>
      obtain rfl : d = d' := by split at level <;> exact Option.some.inj level
      simp only [List.mem_append, List.mem_cons, not_or] at plain
      exact (crosses_inert (Prefixed.inert front)).append
        (crosses_quoted quoted (not_mem_body within plain.2.2.1))

theorem crosses_of_scanFrom {column : Nat} {tokens : List Token}
    (scanned : scanFrom column t = .ok tokens) (plain : '\\' ∉ t)
    (level : Grammar.nestOver d tokens = some d') : Crosses d d' t := by
  replace scanned := scansTo_of_scanFrom scanned
  induction scanned generalizing d with
  | finish column =>
      cases level
      exact .nil _
  | @layout column c rest tokens blank _ ih =>
      rw [List.mem_cons, not_or] at plain
      have front : Crosses d d [c] :=
        crosses_inert (List.forall_mem_singleton.mpr (inert_of_isLayout blank))
      exact front.append (ih plain.2 level)
  | @token column c rest lexeme others found _ ih =>
      rw [Grammar.nestOver, List.foldlM_cons] at level
      obtain ⟨between, here, behind⟩ := Option.bind_eq_some_iff.mp level
      have whole : c :: rest = (c :: rest.take lexeme.more) ++ rest.drop lexeme.more := by
        rw [List.cons_append, List.take_append_drop]
      rw [whole, List.mem_append, not_or] at plain
      rw [whole]
      exact (crosses_of_formed (formed_of_read found) plain.1 here).append (ih plain.2 behind)

/-! ### Expressions -/

/-- An expression that may stand in a field: it is read, and has no backslashes and no brace at its
start. -/
structure Standing (budget : Nat) (source : Text) (e : Expr) : Prop where
  read : Grammar.readField (Grammar.readAt budget) source = .ok e
  plain : '\\' ∉ source
  starts : source.head? ≠ some '{'

namespace Standing

variable {budget : Nat} {source : Text} {e : Expr}

theorem scanned (h : Standing budget source e) : ∃ tokens, scan source = .ok tokens ∧
    Grammar.nestOver 0 tokens = some 0 ∧ Grammar.startsExpr (Grammar.nextKind tokens) = true := by
  have read := h.read
  rw [Grammar.readField] at read
  cases scanned : scan source with
  | error e =>
      rw [Grammar.readWhole, scanned] at read
      contradiction
  | ok tokens =>
      have nests := Grammar.nests_exprList (d := 0) fun l d => Grammar.nests_readAt budget l d
      refine ⟨tokens, rfl, Grammar.nestOver_of_readWhole nests scanned read, ?_⟩
      obtain ⟨ts, ran, -⟩ := (Grammar.readWhole_eq_ok scanned).mp read
      rw [← Bool.not_eq_false]
      intro other
      exact Grammar.bind_ne_ok (Grammar.readAt_needs_start other) _ ran

/-- Nothing of the expression ends its field, and it closes what it opens. -/
theorem crosses (h : Standing budget source e) : Crosses 0 0 source := by
  obtain ⟨tokens, scanned, level, -⟩ := h.scanned
  exact crosses_of_scanFrom scanned h.plain level

/-- The expression is not blank. -/
theorem shown (h : Standing budget source e) : (Text.trim source).isEmpty = false := by
  obtain ⟨tokens, scanned, -, starts⟩ := h.scanned
  have stands := (scanned_of_scanFrom scanned).standsIn
  obtain ⟨inner, rfl, formed⟩ := formed_of_scanFrom scanned
  cases inner with
  | nil => contradiction
  | cons token inner =>
      obtain ⟨c, first, shown⟩ := (formed token List.mem_cons_self).begins
      obtain ⟨before, after, whole, -⟩ := (stands token List.mem_cons_self).1
      have inside : c ∈ source := by
        rw [whole]
        exact List.mem_append_right _ (List.mem_append_left _ (List.mem_of_head? first))
      rw [List.isEmpty_eq_false_iff, Ne, Text.trim_eq_nil, List.all_eq_true]
      intro blank
      rw [blank c inside] at shown
      contradiction

end Standing

end Field

end Snippet
