import Snippet.Proofs.Line.Mask
import Snippet.Proofs.Token.Formed

/-!
Tokens in their text. The spans of the tokens stand one behind the other with nothing but layout
around them. Other layout around the same spans makes the same symbols, where some stands between
any two.
-/

set_option autoImplicit false

namespace Snippet.Token

variable {t : Text} {column : Nat} {tokens : List Token}

/-- How a token's span shows its value. -/
def Shows (token : Token) : Prop :=
  match token.kind with
  | .number | .float => token.span.filter (· != '_') = token.value
  | .string | .formatted => ∃ letters quote body style,
      token.span = letters ++ quote :: (body ++ [quote]) ∧ Prefixed letters style ∧
        isQuote quote = true ∧ Body quote body ∧ token.value = bodyValue style.raw body ∧
        (token.kind = .formatted ↔ style.formatted = true)
  | _ => token.span = token.value

-- The tokens whose value is their span.
def isItself : TokenKind → Bool
  | .number | .float | .string | .formatted | .finish => false
  | _ => true

-- Whether a column is one of a token's span.
def Holds (token : Token) (column : Nat) : Prop :=
  token.column ≤ column ∧ column < token.column + token.span.length

/-- The tokens in front of the end, and what they leave of a text. -/
structure Accounts (t : Text) (inner : List Token) : Prop where
  each : ∀ token ∈ inner,
    token.kind ≠ .finish ∧ token.span ≠ [] ∧ token.StandsIn 1 t ∧ token.Shows
  inOrder : inner.Pairwise fun a b => a.column + a.span.length ≤ b.column
  between : ∀ i c, t[i]? = some c → (∀ token ∈ inner, ¬ token.Holds (i + 1)) → isLayout c = true

theorem isItself_wordKind (word : Text) : isItself (wordKind word) = true := by
  have table : keywords.all (fun k => isItself k.2) = true := by decide
  rw [wordKind]
  split
  · rename_i k found
    exact List.all_eq_true.mp table k (List.mem_of_find?_eq_some found)
  · rfl

theorem isItself_operator {symbol : String} {kind : TokenKind}
    (listed : (symbol, kind) ∈ operators) : isItself kind = true := by
  have table : operators.all (fun o => isItself o.2) = true := by decide
  exact List.all_eq_true.mp table _ listed

theorem Formed.shows {kind : TokenKind} {value span : Text} (h : Formed kind value span)
    (column : Nat) : Shows ⟨kind, value, column, span⟩ := by
  have same (itself : isItself kind = true) (whole : span = value) :
      Shows ⟨kind, value, column, span⟩ := by
    cases kind <;> first | exact whole | contradiction
  cases h with
  | word => exact same (isItself_wordKind _) rfl
  | operator listed => exact same (isItself_operator listed) rfl
  | number =>
      split
      · rfl
      · rfl
  | text front quoted within =>
      split
      · exact ⟨_, _, _, _, rfl, front, quoted, within, rfl, by simp [*]⟩
      · exact ⟨_, _, _, _, rfl, front, quoted, within, rfl, by simp [*]⟩

section Scanned

theorem Scanned.inOrder (h : Scanned column t tokens) :
    tokens.Pairwise fun a b => a.column + a.span.length ≤ b.column := by
  induction h with
  | finish => exact List.pairwise_singleton ..
  | layout _ _ ih => exact ih
  | token _ behind ih =>
      exact .cons (fun other member => (behind.standsIn other member).1.column_le) ih

theorem Scanned.between (h : Scanned column t tokens) {i : Nat} {c : Char} (at_i : t[i]? = some c)
    (outside : ∀ token ∈ tokens, ¬ token.Holds (column + i)) : isLayout c = true := by
  induction h generalizing i with
  | finish => contradiction
  | @layout column d rest tokens layout _ ih =>
      cases i with
      | zero =>
          cases at_i
          exact layout
      | succ i =>
          refine ih at_i ?_
          rwa [Nat.add_assoc, Nat.add_comm 1]
  | @token token after others _ _ ih =>
      have behind : token.span.length ≤ i := by
        have := outside token List.mem_cons_self
        simp only [Holds] at this
        omega
      rw [List.getElem?_append_right behind] at at_i
      refine ih at_i fun other member => ?_
      have := outside other (List.mem_cons_of_mem _ member)
      rwa [Nat.add_assoc, Nat.add_sub_cancel' behind]

theorem formed_of_scanFrom (h : scanFrom column t = .ok tokens) :
    ∃ inner, tokens = inner ++ [finishAt (column + t.length)] ∧
      ∀ token ∈ inner, Formed token.kind token.value token.span := by
  replace h := scansTo_of_scanFrom h
  induction h with
  | finish column => exact ⟨[], rfl, List.forall_mem_nil _⟩
  | layout _ _ ih =>
      obtain ⟨inner, rfl, formed⟩ := ih
      exact ⟨inner, by rw [List.length_cons, Nat.add_assoc, Nat.add_comm 1], formed⟩
  | @token column c rest lexeme others found _ ih =>
      obtain ⟨inner, rfl, formed⟩ := ih
      obtain ⟨span, after, whole, counted, -⟩ := read_starts found
      have inside : lexeme.more ≤ rest.length := by
        have := congrArg List.length whole
        simp only [List.length_cons, List.length_append] at this
        omega
      have last : column + 1 + lexeme.more + (rest.drop lexeme.more).length
          = column + (c :: rest).length := by
        rw [List.length_drop, List.length_cons]
        omega
      rw [last]
      exact ⟨_ :: inner, rfl, List.forall_mem_cons.mpr ⟨formed_of_read found, formed⟩⟩

end Scanned

-- Spans make their tokens again, where layout is behind all of them but the last.
theorem scanFrom_pieces {pieces : List (Token × Text)}
    (formed : ∀ p ∈ pieces, Formed p.1.kind p.1.value p.1.span)
    (blank : ∀ p ∈ pieces, p.2.all isLayout = true) (apart : ∀ p ∈ pieces.dropLast, p.2 ≠ [])
    (column : Nat) :
    ∃ again last, scanFrom column (pieces.flatMap fun p => p.1.span ++ p.2)
        = .ok (again ++ [finishAt last])
      ∧ again.map Token.symbol = pieces.map (·.1.symbol) := by
  induction pieces generalizing column with
  | nil => exact ⟨[], column, scanFrom_nil column, rfl⟩
  | cons p pieces ih =>
      obtain ⟨formed, later_formed⟩ := List.forall_mem_cons.mp formed
      obtain ⟨blank, later_blank⟩ := List.forall_mem_cons.mp blank
      have later_apart : ∀ q ∈ pieces.dropLast, q.2 ≠ [] := by
        intro q member
        cases pieces with
        | nil => contradiction
        | cons => exact apart q (List.mem_cons_of_mem p member)
      have ends : ∀ d ∈ (p.2 ++ pieces.flatMap fun q => q.1.span ++ q.2).head?,
          isLayout d = true := by
        cases gap : p.2 with
        | nil =>
            cases pieces with
            | nil => simp
            | cons => exact absurd gap (apart p List.mem_cons_self)
        | cons c rest =>
            rintro _ ⟨⟩
            rw [gap, List.all_cons, Bool.and_eq_true] at blank
            exact blank.1
      obtain ⟨token, same, scanned⟩ := scanFrom_reading (formed.reading ends) column
      obtain ⟨again, last, others, all⟩ :=
        ih later_formed later_blank later_apart (column + p.1.span.length + p.2.length)
      refine ⟨token :: again, last, ?_, by rw [List.map_cons, same, all]; rfl⟩
      rw [List.flatMap_cons, List.append_assoc, scanned, scanFrom_gap blank, others]
      rfl

/-- Reading tokens loses nothing but layout. The spans stand in the text in order, only layout is
outside of them, and each shows its token's value. Spans with any layout behind and in front of
them, and some between any two, make tokens of the same kinds and values. -/
theorem scan_accounts (h : scan t = .ok tokens) :
    ∃ inner, tokens = inner ++ [finishAt (t.length + 1)] ∧ Accounts t inner ∧
      ∀ (lead : Text) (pieces : List (Token × Text)), pieces.map Prod.fst = inner →
        lead.all isLayout = true → (∀ p ∈ pieces, p.2.all isLayout = true) →
        (∀ p ∈ pieces.dropLast, p.2 ≠ []) →
        ∃ again, scan (lead ++ pieces.flatMap fun p => p.1.span ++ p.2) = .ok again ∧
          again.map Token.symbol = tokens.map Token.symbol := by
  have scanned := scanned_of_scanFrom h
  obtain ⟨inner, rfl, formed⟩ := formed_of_scanFrom h
  rw [Nat.add_comm] at h
  refine ⟨inner, by rw [Nat.add_comm], ⟨?_, ?_, ?_⟩, ?_⟩
  · intro token member
    have formed := formed token member
    have alone : ∀ d ∈ ([] : Text).head?, isLayout d = true := nofun
    obtain ⟨c, rest, shown, -⟩ := formed.reading alone
    exact ⟨formed.kind_ne_finish, by simp [shown],
      (scanned.standsIn token (List.mem_append_left _ member)).1, formed.shows token.column⟩
  · exact (List.pairwise_append.mp scanned.inOrder).1
  · intro i c at_i outside
    refine scanned.between at_i fun token member => ?_
    obtain within | last := List.mem_append.mp member
    · rw [Nat.add_comm]
      exact outside token within
    · obtain rfl := List.mem_singleton.mp last
      simp only [Holds, finishAt, List.length_nil]
      omega
  · rintro lead pieces rfl blank gaps apart
    have formed : ∀ p ∈ pieces, Formed p.1.kind p.1.value p.1.span :=
      fun p member => formed p.1 (List.mem_map_of_mem member)
    obtain ⟨again, last, others, all⟩ := scanFrom_pieces formed gaps apart (1 + lead.length)
    refine ⟨again ++ [finishAt last], by rw [scan, scanFrom_gap blank, others], ?_⟩
    simp only [List.map_append, all, List.map_map]
    rfl

-- Letters in front of an escaped quote, underscores in an exponent form, and operators of two
-- characters, without any layout and then with tabs and line breaks.
theorem scan_accounts_glued :
    let letters : Token := ⟨.formatted, "a\\'b".toList, 1, "rF'a\\'b'".toList⟩
    let differs : Token := ⟨.notEqual, "!=".toList, 9, "!=".toList⟩
    let number : Token := ⟨.float, "10.5e+3".toList, 11, "1_0.5e+3".toList⟩
    let power : Token := ⟨.power, "**".toList, 19, "**".toList⟩
    let word : Token := ⟨.is, "is".toList, 21, "is".toList⟩
    scan "rF'a\\'b'!=1_0.5e+3**is".toList
        = .ok [letters, differs, number, power, word, finishAt 23] ∧
      Accounts "rF'a\\'b'!=1_0.5e+3**is".toList [letters, differs, number, power, word] ∧
      ∃ again, scan "\trF'a\\'b'\n!= 1_0.5e+3\r\n** \tis".toList = .ok again ∧
        again.map Token.symbol = [letters.symbol, differs.symbol, number.symbol, power.symbol,
          word.symbol, (finishAt 23).symbol] := by
  intro letters differs number power word
  have read : scan "rF'a\\'b'!=1_0.5e+3**is".toList
      = .ok [letters, differs, number, power, word, finishAt 23] := by
    apply ok_of_toOption
    decide +kernel
  obtain ⟨inner, whole, accounts, relaid⟩ := scan_accounts read
  obtain rfl : [letters, differs, number, power, word] = inner := (List.append_inj' whole rfl).1
  exact ⟨read, accounts, relaid ['\t']
    [(letters, ['\n']), (differs, [' ']), (number, ['\r', '\n']), (power, [' ', '\t']), (word, [])]
    rfl rfl (by decide) (by decide)⟩

end Snippet.Token
