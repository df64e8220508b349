import Snippet.Line.Classify
import Snippet.Proofs.Text.Lines
import Snippet.Proofs.Token.Lexeme

/-!
Places of a scan that goes over a line one character at a time: outside quotes, inside them, or
behind a backslash there. The quote that is open can be read off the mask alone. So the mask of a
line tells where its comment starts, and what trimming leaves of its mask is the mask of what
trimming leaves of it.
-/

set_option autoImplicit false

namespace Snippet.Line

open Token (isQuote)
open Text (trim)

inductive Place where
  | outside
  | inside (quote : Char)
  | escaped (quote : Char)
  deriving DecidableEq

namespace Place

def after : Place → Char → Place
  | outside, c => if isQuote c then inside c else outside
  | inside q, c => if c = '\\' then escaped q else if c = q then outside else inside q
  | escaped q, _ => inside q

def afterAll (p : Place) (t : Text) : Place :=
  t.foldl after p

def quote? : Place → Option Char
  | outside => none
  | inside q | escaped q => some q

def ofQuote : Option Char → Place
  | none => outside
  | some q => inside q

-- What a mask shows of a character.
def shown : Place → Char → Char
  | outside, c => c
  | inside q, c => if c = q then c else '_'
  | escaped _, _ => '_'

def masked : Place → Text → Text
  | _, [] => []
  | p, c :: rest => p.shown c :: masked (p.after c) rest

def beforeComment : Place → Text → Text
  | _, [] => []
  | p, c :: rest =>
      if p = outside ∧ c = '#' then [] else c :: beforeComment (p.after c) rest

def Valid (p : Place) : Prop :=
  ∀ q ∈ p.quote?, isQuote q = true

theorem valid_outside : outside.Valid := by
  simp [Valid, quote?]

theorem Valid.after {p : Place} (valid : p.Valid) (c : Char) : (p.after c).Valid := by
  cases p with
  | outside =>
      by_cases quoted : isQuote c = true <;> simp [Place.after, Valid, quote?, quoted]
  | inside q =>
      simp only [Place.after]
      split
      · exact valid
      · split
        · exact valid_outside
        · exact valid
  | escaped q => exact valid

theorem Valid.afterAll {p : Place} (valid : p.Valid) (t : Text) : (p.afterAll t).Valid := by
  induction t generalizing p with
  | nil => exact valid
  | cons c rest ih => exact ih (valid.after c)

theorem quote?_eq_none {p : Place} : p.quote? = none ↔ p = outside := by
  cases p <;> simp [quote?]

theorem Valid.ofQuote_quote? {p : Place} (valid : p.Valid) : (ofQuote p.quote?).Valid := by
  cases p <;> exact valid

theorem quoteAfter_underscore {quote : Option Char} (valid : (ofQuote quote).Valid) :
    quoteAfter quote '_' = quote := by
  cases quote with
  | none => rfl
  | some q =>
      have differ : '_' ≠ q := by
        rintro rfl
        exact absurd (valid '_' rfl) (by decide)
      simp [quoteAfter, differ]

-- The mask alone tells which quote is open.
theorem quote?_after {p : Place} (valid : p.Valid) (c : Char) :
    (p.after c).quote? = quoteAfter p.quote? (p.shown c) := by
  cases p with
  | outside =>
      by_cases quoted : isQuote c = true <;> simp [after, quote?, shown, quoteAfter, quoted]
  | inside q =>
      have quoted : isQuote q = true := valid q rfl
      have still : quoteAfter (some q) '_' = some q := quoteAfter_underscore valid
      by_cases closes : c = q
      · subst closes
        simp [after, quote?, shown, quoteAfter, Token.ne_backslash quoted]
      · have hidden : (inside q).shown c = '_' := by simp [shown, closes]
        rw [hidden, quote?, still]
        by_cases escape : c = '\\'
        · simp [after, escape, quote?]
        · simp [after, escape, closes, quote?]
  | escaped q =>
      have still : quoteAfter (some q) '_' = some q := quoteAfter_underscore valid
      simp [after, quote?, shown, still]

theorem quote?_afterAll {p : Place} (valid : p.Valid) (t : Text) :
    (p.afterAll t).quote? = (p.masked t).foldl quoteAfter p.quote? := by
  induction t generalizing p with
  | nil => rfl
  | cons c rest ih =>
      rw [masked, List.foldl_cons, ← quote?_after valid]
      exact ih (valid.after c)

theorem afterAll_append (p : Place) (s t : Text) :
    p.afterAll (s ++ t) = (p.afterAll s).afterAll t :=
  List.foldl_append

theorem masked_append (p : Place) (s t : Text) :
    p.masked (s ++ t) = p.masked s ++ (p.afterAll s).masked t := by
  induction s generalizing p with
  | nil => rfl
  | cons c rest ih => exact congrArg (p.shown c :: ·) (ih (p.after c))

@[simp] theorem length_masked (p : Place) (t : Text) : (p.masked t).length = t.length := by
  induction t generalizing p with
  | nil => rfl
  | cons c rest ih => simp [masked, ih]

end Place

open Place

theorem ofQuote_quoteAfter_none (c : Char) :
    ofQuote (quoteAfter none c) = outside.after c := by
  by_cases quoted : isQuote c = true <;> simp [quoteAfter, after, ofQuote, quoted]

theorem ofQuote_quoteAfter_some (q : Char) {c : Char} (plain : c ≠ '\\') :
    ofQuote (quoteAfter (some q) c) = (inside q).after c := by
  by_cases closes : c = q
  · subst closes
    simp [quoteAfter, after, ofQuote, plain]
  · simp [quoteAfter, after, ofQuote, plain, closes]

-- A backslash that does not take a character with it stands at the end.
theorem eq_nil_of_lone_backslash {c : Char} {rest : Text} (escape : c = '\\')
    (single : ∀ d after, c = '\\' → rest = d :: after → False) : rest = [] := by
  cases rest with
  | nil => rfl
  | cons d after => exact absurd rfl (single d after escape)

theorem maskFrom_eq {quote : Option Char} (valid : (ofQuote quote).Valid) (t : Text) :
    maskFrom quote t
      = ⟨(ofQuote quote).masked t, ((ofQuote quote).afterAll t).quote?.isNone⟩ := by
  fun_induction maskFrom quote t with
  | case1 quote => cases quote <;> rfl
  | case2 q c rest ih =>
      have escape : '\\' ≠ q := (Token.ne_backslash (valid q rfl)).symm
      rw [ih valid]
      simp [Masked.add, ofQuote, masked, afterAll, after, shown, escape]
  | case3 q c rest single ih =>
      by_cases escape : c = '\\'
      · obtain rfl := eq_nil_of_lone_backslash escape single
        have no_close : '\\' ≠ q := (Token.ne_backslash (valid q rfl)).symm
        simp [maskFrom, Masked.add, ofQuote, masked, afterAll, after, shown, quoteAfter, no_close,
          escape, quote?]
      · rw [ofQuote_quoteAfter_some q escape] at ih
        rw [ih (valid.after c)]
        simp [Masked.add, ofQuote, masked, afterAll, shown]
  | case4 c rest ih =>
      rw [ofQuote_quoteAfter_none] at ih
      rw [ih (valid.after c)]
      simp [Masked.add, ofQuote, masked, afterAll, shown]

theorem mask_eq (t : Text) :
    mask t = ⟨outside.masked t, (outside.afterAll t).quote?.isNone⟩ :=
  @maskFrom_eq none valid_outside t

/-- Texts whose masks read the same have the same mask. -/
theorem mask_ext {t u : Text} (same : (mask t).text = (mask u).text) : mask t = mask u := by
  simp only [mask_eq] at same ⊢
  simp [quote?_afterAll valid_outside, same]

theorem withoutCommentFrom_eq (quote : Option Char) (t : Text) :
    withoutCommentFrom quote t = (ofQuote quote).beforeComment t := by
  fun_induction withoutCommentFrom quote t with
  | case1 quote => cases quote <;> rfl
  | case2 q c rest ih => simp [ih, ofQuote, beforeComment, after]
  | case3 q c rest single ih =>
      by_cases escape : c = '\\'
      · obtain rfl := eq_nil_of_lone_backslash escape single
        simp [withoutCommentFrom, ofQuote, beforeComment]
      · rw [ih, ofQuote_quoteAfter_some q escape]
        simp [ofQuote, beforeComment]
  | case4 c rest comment => simp_all [ofQuote, beforeComment]
  | case5 c rest shown ih =>
      have no_comment : c ≠ '#' := by simpa using shown
      rw [ih, ofQuote_quoteAfter_none]
      simp [ofQuote, beforeComment, no_comment]

-- What a mask shows in front of a comment.
def cutComment : Option Char → Text → Text
  | _, [] => []
  | quote, c :: rest =>
      if quote = none ∧ c = '#' then [] else c :: cutComment (quoteAfter quote c) rest

theorem masked_beforeComment {p : Place} (valid : p.Valid) (t : Text) :
    p.masked (p.beforeComment t) = cutComment p.quote? (p.masked t) := by
  induction t generalizing p with
  | nil => rfl
  | cons c rest ih =>
      have same : p.quote? = none ∧ p.shown c = '#' ↔ p = outside ∧ c = '#' := by
        rw [quote?_eq_none]
        constructor <;> rintro ⟨rfl, comment⟩ <;> exact ⟨rfl, comment⟩
      rw [beforeComment, masked, cutComment]
      by_cases comment : p = outside ∧ c = '#'
      · rw [if_pos comment, if_pos (same.mpr comment)]
        rfl
      · rw [if_neg comment, if_neg fun h => comment (same.mp h), masked, ih (valid.after c),
          quote?_after valid]

/-- Masks that are the same stay so when comments are dropped. -/
theorem mask_withoutComment_congr {t u : Text} (same : mask t = mask u) :
    mask (withoutComment t) = mask (withoutComment u) := by
  have cut (t : Text) : (mask (withoutComment t)).text = cutComment none (mask t).text := by
    rw [withoutComment, withoutCommentFrom_eq, mask_eq, mask_eq]
    exact masked_beforeComment valid_outside t
  apply mask_ext
  rw [cut, cut, same]

theorem not_isQuote_of_isBlank {c : Char} (blank : isBlank c = true) : isQuote c = false := by
  apply Bool.eq_false_iff.mpr
  intro quoted
  simp only [isQuote, Bool.or_eq_true, beq_iff_eq] at quoted
  obtain rfl | rfl := quoted <;> exact absurd blank (by decide)

theorem ne_of_isBlank {c d : Char} (blank : isBlank c = true) (shown : isBlank d = false) :
    c ≠ d := by
  rintro rfl
  rw [blank] at shown
  contradiction

theorem beforeComment_blank_append {front : Text} (blank : front.all isBlank = true) (t : Text) :
    outside.beforeComment (front ++ t) = front ++ outside.beforeComment t := by
  induction front with
  | nil => rfl
  | cons c front ih =>
      simp only [List.all_cons, Bool.and_eq_true] at blank
      have no_comment : c ≠ '#' := ne_of_isBlank blank.1 (by decide)
      simp [beforeComment, after, no_comment, not_isQuote_of_isBlank blank.1, ih blank.2]

theorem beforeComment_of_blank {back : Text} (p : Place) (blank : back.all isBlank = true) :
    p.beforeComment back = back := by
  induction back generalizing p with
  | nil => rfl
  | cons c back ih =>
      simp only [List.all_cons, Bool.and_eq_true] at blank
      have no_comment : c ≠ '#' := ne_of_isBlank blank.1 (by decide)
      simp [beforeComment, no_comment, ih _ blank.2]

-- Blanks behind a text are kept, or go with the comment.
theorem beforeComment_append_blank (p : Place) (t : Text) {back : Text}
    (blank : back.all isBlank = true) :
    ∃ kept, kept.all isBlank = true ∧ p.beforeComment (t ++ back) = p.beforeComment t ++ kept := by
  induction t generalizing p with
  | nil => exact ⟨back, blank, beforeComment_of_blank p blank⟩
  | cons c rest ih =>
      by_cases comment : p = outside ∧ c = '#'
      · exact ⟨[], rfl, by simp [beforeComment, comment]⟩
      · obtain ⟨kept, blank_kept, same⟩ := ih (p.after c)
        exact ⟨kept, blank_kept, by simp [beforeComment, comment, same]⟩

/-- Blanks around a line do not matter where its comment is dropped and it is trimmed. -/
theorem trim_withoutComment_trim (t : Text) :
    trim (withoutComment (trim t)) = trim (withoutComment t) := by
  obtain ⟨front, back, whole, blank_front, blank_back⟩ := Text.exists_blanks_around t
  obtain ⟨kept, blank_kept, cut⟩ := beforeComment_append_blank outside (trim t) blank_back
  have around : withoutComment t = front ++ withoutComment (trim t) ++ kept := by
    simp only [withoutComment, withoutCommentFrom_eq]
    conv => lhs; rw [whole, List.append_assoc]
    rw [ofQuote, beforeComment_blank_append blank_front, cut, List.append_assoc]
  rw [around, Text.trim_around _ blank_front blank_kept]

theorem quote?_after_blank {p : Place} (valid : p.Valid) {c : Char} (blank : isBlank c = true) :
    (p.after c).quote? = p.quote? := by
  have unquoted := not_isQuote_of_isBlank blank
  cases p with
  | outside => simp [after, quote?, unquoted]
  | inside q =>
      have open_still : c ≠ q := by
        rintro rfl
        rw [valid c rfl] at unquoted
        contradiction
      by_cases escape : c = '\\' <;> simp [after, quote?, escape, open_still]
  | escaped q => rfl

theorem quote?_afterAll_blank {p : Place} (valid : p.Valid) {t : Text}
    (blank : t.all isBlank = true) : (p.afterAll t).quote? = p.quote? := by
  induction t generalizing p with
  | nil => rfl
  | cons c rest ih =>
      simp only [List.all_cons, Bool.and_eq_true] at blank
      exact (ih (valid.after c) blank.2).trans (quote?_after_blank valid blank.1)

theorem masked_outside_blank {t : Text} (blank : t.all isBlank = true) :
    outside.masked t = t := by
  induction t with
  | nil => rfl
  | cons c rest ih =>
      simp only [List.all_cons, Bool.and_eq_true] at blank
      have still : outside.after c = outside := by
        simp [after, not_isQuote_of_isBlank blank.1]
      rw [masked, still, ih blank.2]
      rfl

-- What is not blank does not look blank under a mask.
theorem isBlank_shown (p : Place) {c : Char} (shown : isBlank c = false) :
    isBlank (p.shown c) = false := by
  cases p with
  | outside => exact shown
  | inside q =>
      rw [Place.shown]
      split
      · exact shown
      · decide
  | escaped q => exact (by decide : isBlank '_' = false)

theorem trim_masked_trim (t : Text) : trim (outside.masked (trim t)) = outside.masked (trim t) := by
  apply Text.trim_eq_self
  · have first := Text.head?_trim t
    cases h : trim t with
    | nil => simp [masked]
    | cons c rest =>
        rw [h] at first
        simpa [masked] using isBlank_shown outside (first c rfl)
  · have last := Text.getLast?_trim t
    obtain h | ⟨front, c, h⟩ := (trim t).eq_nil_or_concat
    · simp [h, masked]
    · rw [h] at last ⊢
      simpa [masked_append, masked] using isBlank_shown _ (last c (by simp))

theorem masked_eq_around {t front back : Text} (whole : t = front ++ trim t ++ back)
    (blank : front.all isBlank = true) :
    outside.masked t
      = front ++ outside.masked (trim t) ++ (outside.afterAll (trim t)).masked back := by
  have still : outside.afterAll front = outside :=
    quote?_eq_none.mp (quote?_afterAll_blank valid_outside blank)
  conv => lhs; rw [whole]
  rw [masked_append, masked_append, afterAll_append, still, masked_outside_blank blank]

theorem quote?_afterAll_trim (t : Text) :
    (outside.afterAll (trim t)).quote? = (outside.afterAll t).quote? := by
  obtain ⟨front, back, whole, blank_front, blank_back⟩ := Text.exists_blanks_around t
  have still : outside.afterAll front = outside :=
    quote?_eq_none.mp (quote?_afterAll_blank valid_outside blank_front)
  conv => rhs; rw [whole]
  rw [afterAll_append, afterAll_append, still]
  exact (quote?_afterAll_blank (valid_outside.afterAll _) blank_back).symm

/-- Trimming opens and closes no quotes. -/
theorem closed_mask_trim (t : Text) : (mask (trim t)).closed = (mask t).closed := by
  simp only [mask_eq, quote?_afterAll_trim]

/-- Where all quotes are closed, trimming drops the same from a line and from its mask. -/
theorem mask_trim {t : Text} (closed : (mask t).closed = true) :
    (mask (trim t)).text = trim (mask t).text := by
  obtain ⟨front, back, whole, blank_front, blank_back⟩ := Text.exists_blanks_around t
  have ends : outside.afterAll (trim t) = outside := by
    apply quote?_eq_none.mp
    rw [quote?_afterAll_trim]
    simpa [mask_eq] using closed
  simp only [mask_eq]
  rw [masked_eq_around whole blank_front, ends, masked_outside_blank blank_back,
    Text.trim_around _ blank_front blank_back, trim_masked_trim]

theorem depthAfter?_append (opening closing : Char) (depth : Nat) (s t : Text) :
    depthAfter? opening closing depth (s ++ t)
      = (depthAfter? opening closing depth s).bind fun inner =>
          depthAfter? opening closing inner t := by
  induction s generalizing depth with
  | nil => rfl
  | cons c rest ih =>
      simp only [List.cons_append, depthAfter?]
      split
      · exact ih (depth + 1)
      · split
        · cases depth with
          | zero => rfl
          | succ depth => exact ih depth
        · exact ih depth

theorem depthAfter?_of_no_brackets {opening closing : Char} {t : Text}
    (plain : ∀ c ∈ t, c ≠ opening ∧ c ≠ closing) (depth : Nat) :
    depthAfter? opening closing depth t = some depth := by
  induction t with
  | nil => rfl
  | cons c rest ih =>
      have here := plain c (List.mem_cons_self ..)
      have later := ih fun d member => plain d (List.mem_cons_of_mem _ member)
      simp [depthAfter?, here.1, here.2, later]

-- A mask shows blanks as they are, or as what a quote hides.
theorem mem_masked_blank {p : Place} {t : Text} (blank : t.all isBlank = true) {c : Char}
    (member : c ∈ p.masked t) : isBlank c = true ∨ c = '_' := by
  induction t generalizing p with
  | nil => simp [masked] at member
  | cons d rest ih =>
      simp only [List.all_cons, Bool.and_eq_true] at blank
      obtain rfl | later := List.mem_cons.mp member
      · cases p with
        | outside => exact .inl blank.1
        | inside q =>
            rw [shown]
            split
            · exact .inl blank.1
            · exact .inr rfl
        | escaped q => exact .inr rfl
      · exact ih blank.2 later

/-- Whether a character can be a bracket: no blank, and not what a mask hides texts behind. -/
def isSign (c : Char) : Bool :=
  !isBlank c && c != '_'

theorem ne_of_isSign {c d : Char} (h : isBlank c = true ∨ c = '_') (sign : isSign d = true) :
    c ≠ d := by
  rintro rfl
  obtain blank | rfl := h
  · simp [isSign, blank] at sign
  · contradiction

/-- Trimming takes no bracket from a mask. -/
theorem depthAfter?_mask_trim {opening closing : Char} (opens : isSign opening = true)
    (closes : isSign closing = true) (depth : Nat) (t : Text) :
    depthAfter? opening closing depth (mask (trim t)).text
      = depthAfter? opening closing depth (mask t).text := by
  obtain ⟨front, back, whole, blank_front, blank_back⟩ := Text.exists_blanks_around t
  have before (depth : Nat) : depthAfter? opening closing depth front = some depth := by
    refine depthAfter?_of_no_brackets (fun c member => ?_) depth
    have blank := List.all_eq_true.mp blank_front c member
    exact ⟨ne_of_isSign (.inl blank) opens, ne_of_isSign (.inl blank) closes⟩
  have behind (p : Place) (depth : Nat) :
      depthAfter? opening closing depth (p.masked back) = some depth := by
    refine depthAfter?_of_no_brackets (fun c member => ?_) depth
    have shown := mem_masked_blank blank_back member
    exact ⟨ne_of_isSign shown opens, ne_of_isSign shown closes⟩
  simp only [mask_eq]
  rw [masked_eq_around whole blank_front, List.append_assoc, depthAfter?_append, before,
    Option.bind_some, depthAfter?_append]
  cases depthAfter? opening closing depth (outside.masked (trim t)) with
  | none => rfl
  | some depth => simp [behind]

theorem isBalanced_mask_trim {opening closing : Char} (opens : isSign opening = true)
    (closes : isSign closing = true) (t : Text) :
    isBalanced opening closing (mask (trim t)).text = isBalanced opening closing (mask t).text := by
  rw [isBalanced, isBalanced, depthAfter?_mask_trim opens closes]

end Snippet.Line
