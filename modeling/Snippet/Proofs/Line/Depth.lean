import Snippet.Proofs.Expr.Arguments
import Snippet.Proofs.Line.Mask
import Snippet.Proofs.Line.Place
import Snippet.Proofs.Token.Bracket

/-!
Round brackets of a line and of its tokens. Outside of quotes, both open and close the same ones in
the same order.
-/

set_option autoImplicit false

namespace Snippet.Line

open Grammar (Nested depthAfter depthOver)
open Token (RoundAlone Scanned Spelled isPlain isQuote isRound shownFront)

theorem depthAfter?_of_no_round {t : Text} (free : t.any isRound = false) (depth : Nat) :
    depthAfter? '(' ')' depth t = some depth := by
  refine depthAfter?_of_no_brackets (fun c member => ?_) depth
  have other := List.any_eq_false.mp free c member
  simpa [isRound] using other

theorem shownFront_plain {span : Text} (plain : span.all isPlain = true) :
    shownFront span = span := by
  have unquoted : ∀ c ∈ span, (!isQuote c) = true := by
    intro c member
    have here := List.all_eq_true.mp plain c member
    rw [isPlain, Bool.and_eq_true] at here
    exact here.1
  have whole : (span ++ []).takeWhile (fun c => !isQuote c) = span ++ [] :=
    List.takeWhile_append_of_pos unquoted
  rwa [List.append_nil] at whole

theorem depthAfter_of_not_round {kind : TokenKind} (no_opening : kind ≠ .openParen)
    (no_closing : kind ≠ .closeParen) (depth : Int) : depthAfter depth kind = depth := by
  cases kind <;> first | rfl | contradiction

-- A mask hides the body of a text, and no quote is a bracket.
theorem any_isRound_blanked {letters : Text} (free : letters.any isRound = false) {quote : Char}
    (quoted : isQuote quote = true) (hidden : Nat) :
    (letters ++ quote :: (List.replicate hidden '_' ++ [quote])).any isRound = false := by
  have quote_free : isRound quote = false := by
    rw [isQuote, Bool.or_eq_true, beq_iff_eq, beq_iff_eq] at quoted
    obtain rfl | rfl := quoted <;> rfl
  have hidden_free : (List.replicate hidden '_').any isRound = false := by
    rw [List.any_eq_false]
    intro c member
    rw [List.eq_of_mem_replicate member]
    decide
  rw [List.any_append, List.any_cons, List.any_append, List.any_cons, free, quote_free, hidden_free]
  rfl

-- A mask shows the quotes of a text and what stands before them.
theorem maskFrom_text {letters body : Text} {quote : Char} (plain : letters.all isPlain = true)
    (quoted : isQuote quote = true) (within : Token.Body quote body) (after : Text) :
    maskFrom none (letters ++ quote :: (body ++ [quote]) ++ after)
      = (maskFrom none after).add
          (letters ++ quote :: (List.replicate body.length '_' ++ [quote])) := by
  have open_quote : maskFrom none (quote :: (body ++ quote :: after))
      = (maskFrom (some quote) (body ++ quote :: after)).add [quote] := by
    simp [maskFrom, quoteAfter, quoted]
  rw [List.append_assoc, maskFrom_plain plain]
  simp [open_quote, maskFrom_body quoted within, Masked.add]

section Shown

variable {kind : TokenKind} {depth final : Nat}

theorem depthAfter_of_free {shown : Text} (no_opening : kind ≠ .openParen)
    (no_closing : kind ≠ .closeParen) (free : shown.any isRound = false)
    (level : depthAfter? '(' ')' depth shown = some final) : depthAfter depth kind = final := by
  rw [depthAfter?_of_no_round free] at level
  cases level
  exact depthAfter_of_not_round no_opening no_closing _

theorem depthAfter_of_text {letters body : Text} {quote : Char} (text : kind.isText = true)
    (plain : letters.all isPlain = true) (quoted : isQuote quote = true)
    (alone : RoundAlone kind (letters ++ quote :: (body ++ [quote])))
    (level : depthAfter? '(' ')' depth
      (letters ++ quote :: (List.replicate body.length '_' ++ [quote])) = some final) :
    depthAfter depth kind = final := by
  have letters_shown : shownFront (letters ++ quote :: (body ++ [quote])) = letters :=
    @Token.letters_eq ⟨kind, [], 0, _⟩ _ _ _ plain quoted rfl
  generalize letters ++ quote :: (body ++ [quote]) = span at alone letters_shown
  cases alone with
  | opening opens => rw [opens] at text; contradiction
  | closing closes => rw [closes] at text; contradiction
  | none no_opening no_closing free =>
      rw [letters_shown] at free
      exact depthAfter_of_free no_opening no_closing (any_isRound_blanked free quoted _) level

theorem depthAfter_of_plain {span : Text} (plain : span.all isPlain = true)
    (alone : RoundAlone kind span) (level : depthAfter? '(' ')' depth span = some final) :
    depthAfter depth kind = final := by
  cases alone with
  | opening opens =>
      cases level
      rw [opens]
      rfl
  | closing closes =>
      rw [closes]
      cases depth with
      | zero => contradiction
      | succ depth =>
          cases level
          show ((final + 1 : Nat) : Int) - 1 = final
          omega
  | none no_opening no_closing free =>
      rw [shownFront_plain plain] at free
      exact depthAfter_of_free no_opening no_closing free level

end Shown

-- What a mask shows of a token opens and closes what the token does.
theorem exists_shown {kind : TokenKind} {span : Text} (spelled : Spelled kind span)
    (alone : RoundAlone kind span) :
    ∃ shown, (∀ after, maskFrom none (span ++ after) = (maskFrom none after).add shown) ∧
      ∀ {depth final : Nat}, depthAfter? '(' ')' depth shown = some final →
        depthAfter depth kind = final := by
  cases spelled with
  | text text plain quoted within whole =>
      subst whole
      exact ⟨_, maskFrom_text plain quoted within, depthAfter_of_text text plain quoted alone⟩
  | plain text plain =>
      exact ⟨span, maskFrom_plain plain, depthAfter_of_plain plain alone⟩

theorem nested_cons {depth : Nat} {token : Token} {others : List Token}
    (rest : Nested (depthAfter depth token.kind) others) : Nested depth (token :: others) := by
  intro front starts
  cases front with
  | nil => exact Int.natCast_nonneg depth
  | cons first front =>
      obtain ⟨rfl, behind⟩ := List.cons_prefix_cons.mp starts
      exact rest front behind

/-- The tokens of a text nest as deeply as its mask does. -/
theorem nested_of_scanned {column : Nat} {t : Text} {tokens : List Token}
    (scanned : Scanned column t tokens)
    (alone : ∀ token ∈ tokens, RoundAlone token.kind token.span) {depth final : Nat}
    (level : depthAfter? '(' ')' depth (maskFrom none t).text = some final) :
    Nested depth tokens ∧ depthOver depth tokens = final := by
  induction scanned generalizing depth with
  | finish column =>
      cases level
      refine ⟨nested_cons fun front starts => ?_, rfl⟩
      rw [List.prefix_nil.mp starts]
      exact Int.natCast_nonneg final
  | @layout column c rest tokens layout _ ih =>
      have plain : [c].all isPlain = true := by simp [Token.isPlain_of_isLayout layout]
      have free : [c].any isRound = false := by
        simp only [Token.isLayout, Bool.or_eq_true, beq_iff_eq] at layout
        obtain ((rfl | rfl) | rfl) | rfl := layout <;> rfl
      have step := maskFrom_plain plain rest
      rw [List.singleton_append] at step
      rw [step, Masked.add, depthAfter?_append, depthAfter?_of_no_round free] at level
      exact ih alone level
  | @token first after others spelled _ ih =>
      obtain ⟨shown, masked, counts⟩ := exists_shown spelled (alone first List.mem_cons_self)
      rw [masked, Masked.add, depthAfter?_append, Option.bind_eq_some_iff] at level
      obtain ⟨inner, here, behind⟩ := level
      have same : depthAfter depth first.kind = inner := counts here
      obtain ⟨nested, left_open⟩ :=
        ih (fun token member => alone token (List.mem_cons_of_mem first member)) behind
      rw [← same] at nested left_open
      exact ⟨nested_cons nested, left_open⟩

/-- The tokens of a text with balanced brackets close each bracket behind where it is opened. -/
theorem nested_of_isBalanced {column : Nat} {t : Text} {tokens : List Token}
    (scanned : Token.scanFrom column t = .ok tokens)
    (balanced : isBalanced '(' ')' (mask t).text = true) :
    Nested 0 tokens ∧ depthOver 0 tokens = 0 := by
  rw [isBalanced, beq_iff_eq] at balanced
  exact nested_of_scanned (Token.scanned_of_scanFrom scanned) (Token.roundAlone_of_scanFrom scanned)
    balanced

end Snippet.Line
