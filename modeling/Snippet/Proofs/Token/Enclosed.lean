import Snippet.Proofs.Parallel
import Snippet.Proofs.Token.Formed

/-!
Tokens between round brackets. The symbols of a text do not depend on where it starts, and no token
runs together with a closing bracket behind it.
-/

set_option autoImplicit false

namespace Snippet.Token

variable {c quote : Char} {t rest : Text} {column column' : Nat}

theorem readQuoted?_closed (quoted : isQuote quote = true) (raw : Bool) (t : Text) :
    readQuoted? quote raw (t ++ [')']) = readQuoted? quote raw t := by
  have other : (')' == quote) = false := by
    apply beq_false_of_ne
    rintro rfl
    contradiction
  fun_induction readQuoted? quote raw t with
  | case1 => simp [readQuoted?, other]
  | case2 c rest ih => simp only [List.cons_append, readQuoted?, ih]
  | case3 c rest apart same =>
      obtain rfl : c = quote := by simpa using same
      have escapes := ne_backslash quoted
      simp [readQuoted?, escapes]
  | case4 c rest apart differ ih =>
      by_cases escapes : c = '\\'
      · subst escapes
        cases rest with
        | nil => simp [readQuoted?]
        | cons d rest => exact absurd rfl (apart d rest rfl)
      · simp [readQuoted?, escapes, differ, ih]

theorem readText_closed {style : QuoteStyle} {lead : Nat} (quoted : isQuote quote = true) :
    Parallel Eq (readText style lead quote rest column)
      (readText style lead quote (rest ++ [')']) column') := by
  rw [readText, readText, readQuoted?_closed quoted]
  split
  · exact .read rfl
  · exact .failed

theorem takeWhile_closed {p : Char → Bool} (stops : p ')' = false) (t : Text) :
    (t ++ [')']).takeWhile p = t.takeWhile p := by
  induction t with
  | nil => simp [stops]
  | cons c t ih => simp only [List.cons_append, List.takeWhile_cons, ih]

theorem drop_closed {front : Text} (starts : front <+: t) :
    (t ++ [')']).drop front.length = t.drop front.length ++ [')'] :=
  List.drop_append_of_le_length starts.length_le

theorem fractionPart_closed (t : Text) : fractionPart (t ++ [')']) = fractionPart t := by
  cases t with
  | nil => rfl
  | cons c rest =>
      by_cases point : c = '.'
      · subst point
        simp only [List.cons_append, fractionPart, takeWhile_closed (p := isGrouped) (by decide)]
      · simp [fractionPart, point]

theorem exponentPart_closed (t : Text) : exponentPart (t ++ [')']) = exponentPart t := by
  have digits (t : Text) : (t ++ [')']).takeWhile isDigit = t.takeWhile isDigit :=
    takeWhile_closed (by decide) t
  cases t with
  | nil => rfl
  | cons mark rest =>
      cases rest with
      | nil =>
          have signed : [')'].takeWhile isDigit = ([] : Text).takeWhile isDigit := digits []
          simp [exponentPart, signed]
      | cons sign rest =>
          by_cases plus : sign = '+'
          · simp [exponentPart, plus, digits]
          · by_cases minus : sign = '-'
            · simp [exponentPart, minus, digits]
            · have unsigned := digits (sign :: rest)
              simp only [List.cons_append] at unsigned
              simp [exponentPart, plus, minus, unsigned]

theorem readNumber_closed (t : Text) :
    Parallel Eq (readNumber t column) (readNumber (t ++ [')']) column') := by
  have whole := takeWhile_closed (p := isGrouped) (by decide) t
  have behind (t : Text) : (t ++ [')']).head?.any isNameStart = t.head?.any isNameStart := by
    cases t with
    | nil => decide
    | cons c rest => rfl
  simp only [readNumber, whole, drop_closed (List.takeWhile_prefix _), fractionPart_closed,
    drop_closed (fractionPart_front _).1, exponentPart_closed, drop_closed (exponentPart_front _).1,
    behind]
  split
  · exact .failed
  · split
    · exact .failed
    · split
      · exact .failed
      · exact .read rfl

theorem readWord_closed :
    Parallel Eq (readWord c rest column) (readWord c (rest ++ [')']) column') := by
  have tail := takeWhile_closed (p := isNameRest) (by decide) rest
  simp only [readWord, tail, drop_closed (List.takeWhile_prefix _)]
  cases style : quoteStyle? (c :: rest.takeWhile isNameRest) with
  | none => exact .read rfl
  | some style =>
      cases rest.drop (rest.takeWhile isNameRest).length with
      | nil => exact .read rfl
      | cons quote body =>
          by_cases quoted : isQuote quote = true
          · simp only [List.cons_append, quoted, if_true]
            exact readText_closed quoted
          · simp only [List.cons_append, quoted, Bool.false_eq_true, if_false]
            exact .read rfl

theorem readOperator_closed :
    Parallel Eq (readOperator c rest column) (readOperator c (rest ++ [')']) column') := by
  -- No operator goes on with a closing bracket.
  have table : operators.all fun o => !(o.1.toList.drop 1).contains ')' := by decide
  have same : operators.find? (fun o => o.1.toList.isPrefixOf (c :: (rest ++ [')'])))
      = operators.find? fun o => o.1.toList.isPrefixOf (c :: rest) := by
    refine List.find?_congr fun o member => ?_
    have shorter : ∀ d ∈ [')'].head?, ((c :: rest) ++ [d]).isPrefixOf o.1.toList = false := by
      rintro _ ⟨⟩
      have inner := List.all_eq_true.mp table o member
      rw [Bool.eq_false_iff]
      intro front
      have inside : ')' ∈ o.1.toList.drop 1 :=
        ((List.isPrefixOf_iff_prefix.mp front).drop 1).subset (by simp)
      rw [List.contains_iff_mem.mpr inside] at inner
      contradiction
    exact isPrefixOf_append shorter
  rw [readOperator, readOperator, same]
  split
  · exact .read rfl
  · exact .failed

theorem read_closed : Parallel Eq (read c rest column) (read c (rest ++ [')']) column') := by
  have next : startsNumber c (rest ++ [')']) = startsNumber c rest := by
    cases rest with
    | nil =>
        show (isDigit c || (c == '.' && isDigit ')')) = (isDigit c || (c == '.' && false))
        rw [show isDigit ')' = false by decide]
    | cons d rest => rfl
  rw [read, read, next]
  split
  · rename_i quoted
    exact readText_closed quoted
  · split
    · exact readNumber_closed (c :: rest)
    · split
      · exact readWord_closed
      · exact readOperator_closed

/-- The end is marked once, behind all other tokens. -/
inductive Ended : List Token → Prop where
  | last {t : Token} (end_ : t.kind = .finish) : Ended [t]
  | cons {t : Token} {ts : List Token} (inner : t.kind ≠ .finish) (rest : Ended ts) : Ended (t :: ts)

/-- The same symbols, with a closing bracket before the end. -/
inductive Closed : List Token → List Token → Prop where
  | last {t u v : Token} (end_ : t.kind = .finish) (closing : u.kind = .closeParen)
      (end_' : v.kind = .finish) : Closed [t] [u, v]
  | cons {t u : Token} {ts us : List Token} (inner : t.kind ≠ .finish)
      (same : t.symbol = u.symbol) (rest : Closed ts us) : Closed (t :: ts) (u :: us)

theorem Closed.ended {ts us : List Token} (h : Closed ts us) : Ended ts := by
  induction h with
  | last end_ => exact .last end_
  | cons inner _ _ ih => exact .cons inner ih

theorem scanFrom_closed (column column' : Nat) (t : Text) :
    Parallel Closed (scanFrom column t) (scanFrom column' (t ++ [')'])) := by
  induction column, t using scanFrom.induct generalizing column' with
  | case1 column =>
      have bracket : (")", TokenKind.closeParen) ∈ operators := by decide
      have reading : Reading ⟨.closeParen, [')']⟩ [')'] [] := reading_operator bracket (by simp)
      obtain ⟨token, same, scanned⟩ := scanFrom_reading reading column'
      rw [List.append_nil, scanFrom_nil] at scanned
      rw [scanFrom_nil, List.nil_append, scanned]
      exact .read (.last rfl (congrArg Symbol.kind same) rfl)
  | case2 column c rest layout ih =>
      rw [scanFrom_layout layout, List.cons_append, scanFrom_layout layout]
      exact ih _
  | case3 column c rest layout ih =>
      have shown : isLayout c = false := by simpa using layout
      rw [List.cons_append, scanFrom_shown shown, scanFrom_shown shown]
      -- No lexeme runs on into the bracket, so each is read as it was without it.
      refine read_closed.of_read.bind ?_
      rintro lexeme _ ⟨found, rfl⟩
      obtain ⟨span, after, whole, length, -⟩ := read_starts found
      have inside : lexeme.more ≤ rest.length := by
        have := congrArg List.length whole
        simp only [List.length_cons, List.length_append] at this
        omega
      rw [List.drop_append_of_le_length inside]
      refine (ih lexeme _).map fun ts us closed => ?_
      exact .cons (kind_ne_finish_of_read found) rfl closed

theorem ended_of_scanFrom {tokens : List Token} (scanned : scanFrom column t = .ok tokens) :
    Ended tokens := by
  have closed := scanFrom_closed column column t
  rw [scanned] at closed
  cases others : scanFrom column (t ++ [')']) with
  | ok us =>
      rw [others] at closed
      cases closed with
      | read closed => exact closed.ended
  | error e =>
      have lexical := isLexical_of_scanFrom others
      rw [others] at closed
      cases closed
      contradiction

end Snippet.Token
