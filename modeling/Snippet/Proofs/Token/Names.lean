import Mathlib.Data.List.Infix
import Snippet.Proofs.Expr.Layout
import Snippet.Proofs.Token.Lexeme

/-!
Names that stand in a text. A name is read off the characters of its source. That is also so inside
formatted texts: what an escape stands for is no character of a name, so the escapes that are read
before a field is cut out make no new names.
-/

set_option autoImplicit false

namespace Snippet

open Token (isNameRest)

variable {P : Text → Prop} {c : Char} {t u : Text}

namespace Text

/-- A condition holds of the names that stand in a text. -/
def NamesAre (P : Text → Prop) (t : Text) : Prop :=
  ∀ id, isIdentifier id = true → id <:+: t → P id

/-- Characters of names stand side by side in one text as they do in another. -/
def Follows (t u : Text) : Prop :=
  ∀ word : Text, word.all isNameRest = true → (word <+: t → word <+: u) ∧ (word <:+: t → word <:+: u)

theorem all_isNameRest_of_isIdentifier {id : Text} (identifier : isIdentifier id = true) :
    id.all isNameRest = true := by
  cases id with
  | nil => rfl
  | cons c rest =>
      simp only [isIdentifier, Bool.and_eq_true] at identifier
      simp [isNameRest, identifier.1.1.2, identifier.1.2]

theorem Follows.nil (u : Text) : Follows [] u := by
  intro word _
  constructor
  · intro empty
    rw [List.prefix_nil.mp empty]
    exact List.nil_prefix
  · intro empty
    rw [List.infix_nil.mp empty]
    exact List.nil_infix

theorem Follows.cons (c : Char) (h : Follows t u) : Follows (c :: t) (c :: u) := by
  intro word names
  have starts (front : word <+: c :: t) : word <+: c :: u := by
    obtain rfl | ⟨rest, rfl, later⟩ := List.prefix_cons_iff.mp front
    · exact List.nil_prefix
    · rw [List.all_cons, Bool.and_eq_true] at names
      exact List.cons_prefix_cons.mpr ⟨rfl, (h rest names.2).1 later⟩
  refine ⟨starts, fun inside => ?_⟩
  obtain front | inside := List.infix_cons_iff.mp inside
  · exact (starts front).isInfix
  · exact List.infix_cons ((h word names).2 inside)

-- A sign that stands for other characters is at the end of every name before it.
theorem Follows.sign (no_name : isNameRest c = false) (front : Text) (h : Follows t u) :
    Follows (c :: t) (front ++ u) := by
  intro word names
  have nothing (starts : word <+: c :: t) : word = [] := by
    obtain rfl | ⟨rest, rfl, -⟩ := List.prefix_cons_iff.mp starts
    · rfl
    · simp [no_name] at names
  constructor
  · intro starts
    rw [nothing starts]
    exact List.nil_prefix
  · intro inside
    obtain starts | inside := List.infix_cons_iff.mp inside
    · rw [nothing starts]
      exact List.nil_infix
    · exact ((h word names).2 inside).trans (List.suffix_append front u).isInfix

theorem NamesAre.within (names : NamesAre P u) (inside : t <:+: u) : NamesAre P t :=
  fun id identifier stands => names id identifier (stands.trans inside)

theorem NamesAre.follows (names : NamesAre P u) (h : Follows t u) : NamesAre P t :=
  fun id identifier stands =>
    names id identifier ((h id (all_isNameRest_of_isIdentifier identifier)).2 stands)

theorem prefix_before_sign {word : Text} (absent : c ∉ word) (starts : word <+: t ++ c :: u) :
    word <+: t := by
  by_cases long : t.length < word.length
  · have further : t ++ [c] <+: word :=
      List.prefix_of_prefix_length_le ⟨u, by simp⟩ starts (by rw [List.length_append]; exact long)
    exact absurd (further.subset (by simp)) absent
  · exact List.prefix_of_prefix_length_le starts (List.prefix_append t _) (Nat.le_of_not_lt long)

theorem infix_around_sign {word : Text} (absent : c ∉ word) (inside : word <:+: t ++ c :: u) :
    word <:+: t ∨ word <:+: u := by
  induction t with
  | nil =>
      obtain starts | inside := List.infix_cons_iff.mp inside
      · exact .inl (prefix_before_sign (t := []) absent starts).isInfix
      · exact .inr inside
  | cons d rest ih =>
      obtain starts | inside := List.infix_cons_iff.mp inside
      · exact .inl (prefix_before_sign (t := d :: rest) absent starts).isInfix
      · exact (ih inside).imp_left List.infix_cons

/-- A sign between two texts keeps their names apart. -/
theorem NamesAre.around (first : NamesAre P t) (second : NamesAre P u)
    (no_name : isNameRest c = false) : NamesAre P (t ++ c :: u) := by
  intro id identifier stands
  have absent : c ∉ id := by
    intro member
    have name := List.all_eq_true.mp (all_isNameRest_of_isIdentifier identifier) c member
    rw [no_name] at name
    contradiction
  obtain stands | stands := infix_around_sign absent stands
  · exact first id identifier stands
  · exact second id identifier stands

theorem NamesAre.nil : NamesAre P [] := by
  intro id identifier stands
  rw [List.infix_nil.mp stands] at identifier
  contradiction

theorem NamesAre.signs {front : Text} (no_names : front.all (fun c => !isNameRest c) = true)
    (names : NamesAre P t) : NamesAre P (front ++ t) := by
  induction front with
  | nil => exact names
  | cons c rest ih =>
      simp only [List.all_cons, Bool.and_eq_true, Bool.not_eq_true'] at no_names
      exact NamesAre.nil.around (ih no_names.2) no_names.1

end Text

namespace Token

open Text (NamesAre Follows)

theorem follows_escaped (c : Char) (h : Follows t u) :
    Follows (escaped c ++ t) ('\\' :: c :: u) := by
  have sign {d : Char} (no_name : isNameRest d = false) : Follows (d :: t) ('\\' :: c :: u) :=
    .sign no_name ['\\', c] h
  unfold escaped
  split
  case h_8 => exact (h.cons c).cons '\\'
  all_goals exact sign (by decide)

theorem follows_of_readQuoted? {quote : Char} {raw : Bool} {value : Text} {length : Nat}
    (h : readQuoted? quote raw t = some (value, length)) : Follows value t := by
  fun_induction readQuoted? quote raw t generalizing value length with
  | case1 => contradiction
  | case2 c rest ih =>
      obtain ⟨⟨inner, count⟩, found, made⟩ := Option.map_eq_some_iff.mp h
      cases made
      split
      · exact ((ih found).cons c).cons '\\'
      · exact follows_escaped c (ih found)
  | case3 c rest other same =>
      cases h
      exact .nil _
  | case4 c rest other differ ih =>
      obtain ⟨⟨inner, count⟩, found, made⟩ := Option.map_eq_some_iff.mp h
      cases made
      exact (ih found).cons c

/-- A condition holds of a token that is a name, and of the names in one that is a formatted text. -/
def NamesAre (P : Text → Prop) (kind : TokenKind) (value : Text) : Prop :=
  (kind = .name → P value) ∧ (kind = .formatted → Text.NamesAre P value)

section Read

variable {rest : Text} {column : Nat} {lexeme : Lexeme}

theorem namesAre_of_readText {style : QuoteStyle} {lead : Nat} {quote : Char}
    (names : Text.NamesAre P rest) (h : readText style lead quote rest column = .ok lexeme) :
    NamesAre P lexeme.kind lexeme.value := by
  rw [readText] at h
  split at h
  · rename_i value length found
    cases h
    refine ⟨fun named => ?_, fun _ => names.follows (follows_of_readQuoted? found)⟩
    cases formatted : style.formatted <;> simp [formatted] at named
  · contradiction

theorem namesAre_of_readNumber (h : readNumber t column = .ok lexeme) :
    NamesAre P lexeme.kind lexeme.value := by
  simp only [readNumber] at h
  split at h
  · contradiction
  · split at h
    · contradiction
    · split at h
      · contradiction
      · cases h
        dsimp only
        split
        · exact ⟨nofun, nofun⟩
        · exact ⟨nofun, nofun⟩

theorem namesAre_of_readOperator (h : readOperator c rest column = .ok lexeme) :
    NamesAre P lexeme.kind lexeme.value := by
  have table : operators.all (fun o => o.2 != .name && o.2 != .formatted) = true := by decide
  rw [readOperator] at h
  split at h
  · rename_i found
    cases h
    have entry := List.all_eq_true.mp table _ (List.mem_of_find?_eq_some found)
    simp only [Bool.and_eq_true, bne_iff_ne] at entry
    exact ⟨fun same => absurd same entry.1, fun same => absurd same entry.2⟩
  · contradiction

theorem namesAre_of_readWord (starts : isNameStart c = true) (letter : isDigit c = false)
    (names : Text.NamesAre P (c :: rest)) (h : readWord c rest column = .ok lexeme) :
    NamesAre P lexeme.kind lexeme.value := by
  have word : NamesAre P (wordKind (c :: rest.takeWhile isNameRest))
      (c :: rest.takeWhile isNameRest) := by
    refine ⟨fun named => names _ ?_ ?_, fun formatted => ?_⟩
    · rw [isIdentifier, letter, starts, named, List.all_takeWhile]
      rfl
    · exact (List.cons_prefix_cons.mpr ⟨rfl, List.takeWhile_prefix _⟩).isInfix
    · have plain := isText_wordKind (c :: rest.takeWhile isNameRest)
      rw [formatted] at plain
      contradiction
  simp only [readWord] at h
  split at h
  · rename_i style quote body _ behind
    split at h
    · refine namesAre_of_readText (names.within ?_) h
      have inside : body <:+: rest.drop (rest.takeWhile isNameRest).length := by
        rw [behind]
        exact (List.suffix_cons quote body).isInfix
      exact List.infix_cons (inside.trans (List.drop_suffix _ _).isInfix)
    · cases h
      exact word
  · cases h
    exact word

theorem namesAre_of_read (names : Text.NamesAre P (c :: rest))
    (h : Token.read c rest column = .ok lexeme) : NamesAre P lexeme.kind lexeme.value := by
  rw [Token.read] at h
  split at h
  · exact namesAre_of_readText (names.within (List.suffix_cons c rest).isInfix) h
  · split at h
    · exact namesAre_of_readNumber h
    · rename_i not_number
      have letter : isDigit c = false := by
        rw [startsNumber, Bool.or_eq_true, not_or] at not_number
        simpa using not_number.1
      split at h
      · rename_i starts
        exact namesAre_of_readWord starts letter names h
      · exact namesAre_of_readOperator h

end Read

/-- The names among the tokens of a text, and in its formatted texts, are names that stand in it. -/
theorem namesAre_of_scanFrom {column : Nat} {tokens : List Token} (names : Text.NamesAre P t)
    (h : scanFrom column t = .ok tokens) :
    ∀ token ∈ tokens, NamesAre P token.kind token.value := by
  replace h := scansTo_of_scanFrom h
  induction h with
  | finish column => exact List.forall_mem_singleton.mpr ⟨by rintro ⟨⟩, by rintro ⟨⟩⟩
  | @layout column c rest tokens blank _ ih =>
      exact ih (names.within (List.suffix_cons c rest).isInfix)
  | @token column c rest lexeme others found _ ih =>
      have later : rest.drop lexeme.more <:+: c :: rest :=
        List.infix_cons (List.drop_suffix _ _).isInfix
      exact List.forall_mem_cons.mpr ⟨namesAre_of_read names found, ih (names.within later)⟩

end Token

end Snippet
