import Mathlib.Algebra.BigOperators.Group.List.Basic
import Snippet.Proofs.Token.Enclosed
import Snippet.Proofs.Token.Relaid

/-!
What is left of the tokens of a text. At every place in front of the end mark there is a token to
take, and the characters that the tokens are read from become fewer with it. A formatted text is
longer than any field in it.
-/

set_option autoImplicit false

namespace Snippet.Token

variable {t source : Text} {column : Nat} {ts rest last : List Token} {token : Token}

/-- The tokens from a place on that is not in front of another one, with the end mark. -/
def Left (ts rest : List Token) : Prop :=
  rest <:+ ts ∧ rest ≠ []

/-- The same where at least one token is taken. -/
def Later (ts rest : List Token) : Prop :=
  Left ts rest ∧ rest.length < ts.length

/-- The tokens of a text from some place on, with the end mark. -/
def IsStream (ts : List Token) : Prop :=
  ∃ t tokens, scan t = .ok tokens ∧ Left tokens ts

/-- How many characters the tokens are read from. -/
def width (ts : List Token) : Nat :=
  (ts.map fun token => token.span.length).sum

/-! ### Places -/

theorem Left.refl (more : ts ≠ []) : Left ts ts :=
  ⟨List.suffix_rfl, more⟩

theorem Left.trans (first : Left ts rest) (next : Left rest last) : Left ts last :=
  ⟨next.1.trans first.1, next.2⟩

theorem Left.later (first : Left ts rest) (next : Later rest last) : Later ts last :=
  ⟨first.trans next.1, Nat.lt_of_lt_of_le next.2 first.1.length_le⟩

theorem Later.left (first : Later ts rest) (next : Left rest last) : Later ts last :=
  ⟨first.1.trans next, Nat.lt_of_le_of_lt next.1.length_le first.2⟩

theorem Later.trans (first : Later ts rest) (next : Later rest last) : Later ts last :=
  first.left next.1

theorem Later.tail (token : Token) (more : rest ≠ []) : Later (token :: rest) rest :=
  ⟨⟨List.suffix_cons token rest, more⟩, Nat.lt_succ_self _⟩

theorem Ended.left (ended : Ended ts) (h : Left ts rest) : Ended rest := by
  induction ended with
  | last end_ =>
      obtain same | nothing := List.suffix_cons_iff.mp h.1
      · rw [same]
        exact .last end_
      · exact absurd (List.suffix_nil.mp nothing) h.2
  | cons inner behind ih =>
      obtain same | further := List.suffix_cons_iff.mp h.1
      · rw [same]
        exact .cons inner behind
      · exact ih ⟨further, h.2⟩

/-! ### Tokens of a text -/

theorem bodyValue_length_le (raw : Bool) (body : Text) :
    (bodyValue raw body).length ≤ body.length := by
  have short (c : Char) : (escaped c).length ≤ 2 := by
    unfold escaped
    split <;> simp
  fun_induction bodyValue raw body with
  | case1 c rest ih =>
      have front : (if raw then ['\\', c] else escaped c).length ≤ 2 := by
        split
        · exact Nat.le_refl 2
        · exact short c
      rw [List.length_append, List.length_cons, List.length_cons]
      omega
  | case2 c rest _ ih =>
      rw [List.length_cons, List.length_cons]
      omega
  | case3 => exact Nat.le_refl 0

theorem Formed.length_pos {kind : TokenKind} {value span : Text} (h : Formed kind value span) :
    0 < span.length := by
  have alone : ∀ d ∈ ([] : Text).head?, isLayout d = true := by simp
  obtain ⟨c, rest, shown, -⟩ := h.reading alone
  rw [shown]
  exact Nat.succ_pos _

theorem width_le_of_scan {tokens : List Token} (scanned : scan t = .ok tokens) :
    width tokens ≤ t.length := by
  have stands := scanned_of_scanFrom scanned
  generalize 1 = column at stands
  clear scanned
  induction stands with
  | finish => exact Nat.le_refl 0
  | layout _ _ ih => exact Nat.le_succ_of_le ih
  | token _ _ ih =>
      rw [width, List.map_cons, List.sum_cons, List.length_append]
      exact Nat.add_le_add_left ih _

theorem width_le_of_left (h : Left ts rest) : width rest ≤ width ts := by
  obtain ⟨front, rfl⟩ := h.1
  rw [width, width, List.map_append, List.sum_append]
  exact Nat.le_add_left _ _

theorem span_length_le (member : token ∈ ts) : token.span.length ≤ width ts := by
  obtain ⟨front, behind, rfl⟩ := List.append_of_mem member
  rw [width, List.map_append, List.sum_append, List.map_cons, List.sum_cons]
  omega

namespace IsStream

theorem of_scan {tokens : List Token} (scanned : scan t = .ok tokens) : IsStream tokens := by
  refine ⟨t, tokens, scanned, Left.refl ?_⟩
  rintro rfl
  cases ended_of_scanFrom scanned

theorem left (stream : IsStream ts) (h : Left ts rest) : IsStream rest := by
  obtain ⟨t, tokens, scanned, here⟩ := stream
  exact ⟨t, tokens, scanned, here.trans h⟩

theorem later (stream : IsStream ts) (h : Later ts rest) : IsStream rest :=
  stream.left h.1

theorem ne_nil (stream : IsStream ts) : ts ≠ [] := by
  obtain ⟨_, _, -, here⟩ := stream
  exact here.2

theorem refl (stream : IsStream ts) : Left ts ts :=
  Left.refl stream.ne_nil

theorem ended (stream : IsStream ts) : Ended ts := by
  obtain ⟨_, _, scanned, here⟩ := stream
  exact (ended_of_scanFrom scanned).left here

-- In front of the end mark something else is next.
theorem tail (stream : IsStream (token :: rest)) (inner : token.kind ≠ .finish) :
    Later (token :: rest) rest := by
  refine Later.tail token ?_
  rintro rfl
  cases stream.ended with
  | last end_ => exact inner end_
  | cons _ nothing => cases nothing

theorem formed (stream : IsStream ts) (member : token ∈ ts) (inner : token.kind ≠ .finish) :
    Formed token.kind token.value token.span := by
  obtain ⟨t, tokens, scanned, here⟩ := stream
  obtain ⟨others, rfl, formed⟩ := formed_of_scanFrom scanned
  obtain among | end_ := List.mem_append.mp (here.1.mem member)
  · exact formed token among
  · rw [List.mem_singleton.mp end_] at inner
    contradiction

/-- The text of a field is shorter than the token it stands in. -/
theorem source_length_lt (stream : IsStream ts) (member : token ∈ ts)
    (formatted : token.kind = .formatted) (inside : source <:+: token.value) :
    source.length < token.span.length := by
  have shows := (stream.formed member (by rw [formatted]; decide)).shows token.column
  rw [formatted] at shows
  obtain ⟨letters, quote, body, style, spelled, -, -, -, value, -⟩ := shows
  have within := inside.length_le
  have read := bodyValue_length_le style.raw body
  simp only at spelled value
  rw [value] at within
  rw [spelled, List.length_append, List.length_cons, List.length_append, List.length_singleton]
  omega

theorem width_lt (stream : IsStream ts) (h : Later ts rest) : width rest < width ts := by
  cases ts with
  | nil => exact absurd rfl stream.ne_nil
  | cons token others =>
      obtain same | behind := List.suffix_cons_iff.mp h.1.1
      · rw [same] at h
        exact absurd h.2 (Nat.lt_irrefl _)
      · cases stream.ended with
        | last => exact absurd (List.suffix_nil.mp behind) h.1.2
        | cons inner _ =>
            have spelled := (stream.formed List.mem_cons_self inner).length_pos
            have fewer := width_le_of_left ⟨behind, h.1.2⟩
            have whole : width (token :: others) = token.span.length + width others := List.sum_cons
            omega

end IsStream

end Snippet.Token
