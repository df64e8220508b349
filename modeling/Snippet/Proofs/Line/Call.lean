import Snippet.Proofs.Line.Names
import Snippet.Proofs.Run.Failure

/-!
What a print or a raise line captures. It is everything between the bracket behind the words and
the bracket at the end of the line, whether these two belong together or not: a bracket in between
may already close the first one.
-/

set_option autoImplicit false

namespace Snippet

/-- The text that a call captures. -/
def LineForm.arguments? : LineForm → Option Text
  | .print arguments | .raise _ arguments => some arguments
  | _ => none

namespace Line

open Place
open Text (trim)
open Token (isPlain isQuote)

section Depth

variable {opening closing : Char}

theorem depthAfter?_succ {depth final : Nat} {t : Text}
    (h : depthAfter? opening closing depth t = some final) :
    depthAfter? opening closing (depth + 1) t = some (final + 1) := by
  induction t generalizing depth with
  | nil =>
      cases h
      rfl
  | cons c rest ih =>
      simp only [depthAfter?] at h ⊢
      split at h
      case isTrue opens =>
        rw [if_pos opens]
        exact ih h
      case isFalse no_opening =>
        rw [if_neg no_opening]
        split at h
        case isFalse no_closing =>
          rw [if_neg no_closing]
          exact ih h
        case isTrue closes =>
          rw [if_pos closes]
          cases depth with
          | zero => contradiction
          | succ depth => exact ih h

-- A depth is lost at a closing bracket, in front of which nothing is open.
theorem exists_of_depthAfter?_none {depth : Nat} {t : Text}
    (h : depthAfter? opening closing depth t = none) :
    ∃ own rest, t = own ++ closing :: rest ∧ depthAfter? opening closing depth own = some 0 := by
  induction t generalizing depth with
  | nil => contradiction
  | cons c rest ih =>
      simp only [depthAfter?] at h
      split at h
      case isTrue opens =>
        obtain ⟨own, behind, rfl, level⟩ := ih h
        exact ⟨c :: own, behind, rfl, by simpa [depthAfter?, opens] using level⟩
      case isFalse no_opening =>
        split at h
        case isFalse no_closing =>
          obtain ⟨own, behind, rfl, level⟩ := ih h
          exact ⟨c :: own, behind, rfl, by simpa [depthAfter?, no_opening, no_closing] using level⟩
        case isTrue closes =>
          cases depth with
          | zero => exact ⟨[], rest, by simp [eq_of_beq closes], rfl⟩
          | succ depth =>
              obtain ⟨own, behind, rfl, level⟩ := ih h
              exact ⟨c :: own, behind, rfl, by simpa [depthAfter?, no_opening, closes] using level⟩

/-- A text that closes a bracket opened in front of it. -/
def ClosesEarly (t : Text) : Prop :=
  ∃ own rest, t = own ++ ')' :: rest ∧ isBalanced '(' ')' own = true

theorem isBalanced_iff_not_closesEarly {t : Text} (inside : depthAfter? '(' ')' 1 t = some 1) :
    isBalanced '(' ')' t = true ↔ ¬ ClosesEarly t := by
  simp only [ClosesEarly, isBalanced, beq_iff_eq]
  constructor
  case mp =>
    rintro balanced ⟨own, rest, rfl, level⟩
    rw [depthAfter?_append, level] at balanced
    contradiction
  case mpr =>
    intro not_early
    cases level : depthAfter? '(' ')' 0 t with
    | none => exact absurd (exists_of_depthAfter?_none level) not_early
    | some final =>
        have same := (depthAfter?_succ level).symm.trans inside
        simpa using same

end Depth

section Written

theorem isPlain_of_isBlank {c : Char} (blank : isBlank c = true) : isPlain c = true := by
  simp [isPlain, not_isQuote_of_isBlank blank, ne_of_isBlank blank (d := '#') (by decide)]

theorem all_isPlain_of_blank {t : Text} (blank : t.all isBlank = true) : t.all isPlain = true :=
  List.all_eq_true.mpr fun c member => isPlain_of_isBlank (List.all_eq_true.mp blank c member)

-- Behind plain characters, a mask is the mask of what is left.
theorem rest_of_mask {t front inner : Text} (masked : mask t = ⟨front ++ inner, true⟩)
    (plain : front.all isPlain = true) : ∃ rest, t = front ++ rest ∧ mask rest = ⟨inner, true⟩ := by
  obtain ⟨rest, rfl⟩ := prefix_of_mask plain (congrArg Masked.text masked)
  rw [mask, maskFrom_plain plain, Masked.add, Masked.mk.injEq] at masked
  exact ⟨rest, rfl, congrArg₂ Masked.mk (List.append_cancel_left masked.1) masked.2⟩

-- A mask that ends in a bracket shows where the bracket stands.
theorem text_of_mask {t front inner : Text} (masked : mask t = ⟨front ++ (inner ++ [')']), true⟩)
    (plain : front.all isPlain = true) :
    ∃ body, t = front ++ (body ++ [')']) ∧ mask body = ⟨inner, true⟩ ∧
      (⟨front.length, inner.length⟩ : Capture).of t = body := by
  obtain ⟨rest, rfl, behind⟩ := rest_of_mask masked plain
  have size : rest.length = inner.length + 1 := by
    rw [← length_mask rest, behind]
    simp
  obtain rfl | ⟨body, last, rfl⟩ := rest.eq_nil_or_concat'
  · simp at size
  have fits : body.length = inner.length := by simpa using size
  have body_masked : mask body = ⟨inner, true⟩ := by
    have stretch := @mask_of_stretch _ [] _ behind nofun
    simpa [Capture.of, ← fits] using stretch
  have ends : outside.afterAll body = outside := by
    have closed := congrArg Masked.closed body_masked
    rw [mask_eq] at closed
    exact quote?_eq_none.mp (Option.isNone_iff_eq_none.mp closed)
  have shown : last = ')' := by
    have texts := congrArg Masked.text (behind.symm.trans (mask_eq _))
    rw [masked_append, ends] at texts
    have lasts := List.append_inj_right' texts rfl
    exact (List.cons.inj lasts).1.symm
  exact ⟨body, by rw [shown], body_masked, by simp [Capture.of, ← fits]⟩

theorem bracketed?_eq_some {whole rest : Text} {c : Capture} :
    bracketed? whole rest = some c ↔ ∃ inner, rest = '(' :: (inner ++ [')']) ∧
      hasBreak inner = false ∧ c = ⟨position whole (inner ++ [')']), inner.length⟩ := by
  constructor
  case mp =>
    intro found
    obtain ⟨inner, rfl, rfl⟩ := bracketed?_some found
    refine ⟨inner, rfl, ?_, rfl⟩
    by_contra broken
    simp [bracketed?, broken] at found
  case mpr =>
    rintro ⟨inner, rfl, one_line, rfl⟩
    simp [bracketed?, one_line]

theorem dropBlanks_append {blanks : Text} (blank : blanks.all isBlank = true) {c : Char}
    (shown : isBlank c = false) (rest : Text) : dropBlanks (blanks ++ c :: rest) = c :: rest := by
  rw [dropBlanks, List.dropWhile_append_of_pos (List.all_eq_true.mp blank),
    List.dropWhile_cons_of_neg (by simp [shown])]

theorem exists_of_dropBlanks {t rest : Text} {c : Char} (h : dropBlanks t = c :: rest) :
    ∃ blanks, blanks.all isBlank = true ∧ t = blanks ++ c :: rest :=
  ⟨t.takeWhile isBlank, List.all_takeWhile, by rw [← h, dropBlanks, List.takeWhile_append_dropWhile]⟩

end Written

/-- A text between the brackets of a call: its quotes are closed, and outside them it stands on one
line. -/
structure Capturable (inner : Text) : Prop where
  closed : (mask inner).closed = true
  one_line : hasBreak (mask inner).text = false

/-- How a line is written that captures the arguments of a call. -/
inductive IsCall : Text → LineForm → Prop
  | print {blanks inner : Text} : blanks.all isBlank = true → Capturable inner →
      IsCall ("print".toList ++ blanks ++ '(' :: (inner ++ [')'])) (.print (trim inner))
  | raise {kind : String} {between blanks inner : Text} : kind ∈ raisableKinds →
      between ≠ [] → between.all isBlank = true → blanks.all isBlank = true → inner ≠ [] →
      Capturable inner →
      IsCall ("raise".toList ++ between ++ kind.toList ++ blanks ++ '(' :: (inner ++ [')']))
        (.raise kind.toList inner)

-- What follows the words of a masked call is its body, captured as it stands in the line.
theorem capturable_of_bracketed? {t masked words rest : Text} {c : Capture}
    (whole : mask t = ⟨masked, true⟩) (plain : words.all isPlain = true)
    (split : masked = words ++ rest) (found : bracketed? masked (dropBlanks rest) = some c) :
    ∃ blanks, blanks.all isBlank = true ∧ Capturable (c.of t) ∧ c.length = (c.of t).length ∧
      t = words ++ blanks ++ '(' :: (c.of t ++ [')']) := by
  obtain ⟨inner, opened, one_line, rfl⟩ := bracketed?_eq_some.mp found
  obtain ⟨blanks, blank, rfl⟩ := exists_of_dropBlanks opened
  have front : words ++ (blanks ++ '(' :: (inner ++ [')']))
      = words ++ blanks ++ ['('] ++ (inner ++ [')']) := by simp
  have front_plain : (words ++ blanks ++ ['(']).all isPlain = true := by
    simp [plain, all_isPlain_of_blank blank, show isPlain '(' = true by decide]
  have place : position masked (inner ++ [')']) = (words ++ blanks ++ ['(']).length := by
    rw [position, split, front]
    simp
    omega
  rw [split, front] at whole
  obtain ⟨body, written, body_masked, captured⟩ := text_of_mask whole front_plain
  rw [place, captured]
  have size : inner.length = body.length := by rw [← length_mask body, body_masked]
  exact ⟨blanks, blank, ⟨by rw [body_masked], by rw [body_masked]; exact one_line⟩, size,
    by simpa using written⟩

theorem isCall_of_print? {t masked : Text} {c : Capture} (whole : mask t = ⟨masked, true⟩)
    (found : print? masked = some c) : IsCall t (.print (trim (c.of t))) := by
  simp only [print?, Option.bind_eq_bind, Option.bind_eq_some_iff] at found
  obtain ⟨rest, word, bracketed⟩ := found
  obtain ⟨blanks, blank, capturable, -, written⟩ :=
    capturable_of_bracketed? whole (by decide) (afterWord?_some word) bracketed
  have call := IsCall.print blank capturable
  rwa [← written] at call

theorem isCall_of_raise? {t masked kind : Text} {c : Capture} (whole : mask t = ⟨masked, true⟩)
    (found : raise? masked = some (kind, c)) : IsCall t (.raise kind (c.of t)) := by
  simp only [raise?, Option.bind_eq_bind, Option.bind_eq_some_iff] at found
  obtain ⟨rest, word, found⟩ := found
  split at found
  case isTrue => contradiction
  case isFalse separated =>
    obtain ⟨name, listed, found⟩ := List.exists_of_findSome?_eq_some found
    simp only [Option.bind_eq_some_iff] at found
    obtain ⟨behind, named, arguments, bracketed, found⟩ := found
    split at found
    case isTrue => contradiction
    case isFalse some_arguments =>
      cases found
      have name_plain : name.toList.all isPlain = true := by
        obtain rfl := List.mem_singleton.mp listed
        decide
      have between_blank : (rest.takeWhile isBlank).all isBlank = true := List.all_takeWhile
      have split : masked
          = "raise".toList ++ rest.takeWhile isBlank ++ name.toList ++ behind := by
        rw [afterWord?_some word, List.append_assoc, List.append_assoc, ← afterWord?_some named,
          dropBlanks, List.takeWhile_append_dropWhile]
      obtain ⟨blanks, blank, capturable, size, written⟩ := capturable_of_bracketed? whole
        (by simp [name_plain, all_isPlain_of_blank between_blank]; decide) split bracketed
      -- What is the same without its blanks in front has none.
      have some_between : rest.takeWhile isBlank ≠ [] := by
        intro none_between
        apply separated
        rw [beq_iff_eq, dropBlanks]
        conv_rhs => rw [← List.takeWhile_append_dropWhile (p := isBlank) (l := rest), none_between]
        rfl
      have some_body : c.of t ≠ [] := by
        intro empty
        simp [size, empty] at some_arguments
      have call := IsCall.raise listed some_between between_blank blank some_body capturable
      rwa [← written] at call

theorem assignmentForm?_ne_print {t masked arguments : Text} :
    assignmentForm? t masked ≠ some (.print arguments) := by
  simp [assignmentForm?, Option.bind_eq_some_iff]

theorem isCall_of_formOf {t masked arguments : Text} {form : LineForm}
    (whole : mask t = ⟨masked, true⟩) (made : formOf t masked = form)
    (captured : form.arguments? = some arguments) : IsCall t form := by
  cases form with
  | print inner =>
      obtain ⟨-, c, found, rfl⟩ : leadingWord? flowKeywords masked = none ∧
          ∃ c, print? masked = some c ∧ trim (c.of t) = inner := by
        simpa [formOf, Option.getD_eq_iff, assignmentForm?_ne_print] using made
      exact isCall_of_print? whole found
  | raise kind inner =>
      obtain ⟨-, -, c, found, rfl⟩ : leadingWord? flowKeywords masked = none ∧
          print? masked = none ∧ ∃ c, raise? masked = some (kind, c) ∧ c.of t = inner := by
        simpa [formOf, Option.getD_eq_iff, assignmentForm?_ne_raise] using made
      exact isCall_of_raise? whole found
  | blank | header | flow | assignment | itemAssignment | expression => contradiction

-- A capturable text has the mask of its own that the line shows.
theorem mask_call (words : Text) {blanks inner : Text} (plain : words.all isPlain = true)
    (blank : blanks.all isBlank = true) (closed : (mask inner).closed = true) :
    mask (words ++ blanks ++ '(' :: (inner ++ [')']))
      = ⟨words ++ blanks ++ '(' :: ((mask inner).text ++ [')']), true⟩ := by
  have front_plain : (words ++ blanks ++ ['(']).all isPlain = true := by
    simp [plain, all_isPlain_of_blank blank, show isPlain '(' = true by decide]
  have ends : outside.afterAll inner = outside := by
    rw [mask_eq] at closed
    exact quote?_eq_none.mp (Option.isNone_iff_eq_none.mp closed)
  have behind : mask (inner ++ [')']) = ⟨(mask inner).text ++ [')'], true⟩ := by
    simp only [mask_eq, masked_append, afterAll_append, ends]
    rfl
  rw [List.append_cons, mask, maskFrom_plain front_plain, ← mask, behind]
  simp [Masked.add]

theorem leadingWord?_of_other (word : String) (letters : word.toList.all isWordChar = true)
    (other : ∀ flow ∈ flowKeywords, ¬ word.toList <+: flow.toList) (rest : Text) :
    leadingWord? flowKeywords (word.toList ++ rest) = none := by
  rw [leadingWord?, List.takeWhile_append_of_pos (List.all_eq_true.mp letters), if_neg]
  intro found
  obtain ⟨flow, listed, same⟩ := List.any_eq_true.mp found
  exact other flow listed ⟨_, (eq_of_beq same).symm⟩

theorem afterWord?_append (word : String) (rest : Text) :
    afterWord? word (word.toList ++ rest) = some rest := by
  rw [afterWord?, if_pos (List.isPrefixOf_iff_prefix.mpr (List.prefix_append ..)),
    ← String.length_toList, List.drop_left]

theorem bracketed?_call (words : Text) {blanks inner : Text} (blank : blanks.all isBlank = true)
    (one_line : hasBreak inner = false) :
    bracketed? (words ++ blanks ++ '(' :: (inner ++ [')']))
        (dropBlanks (blanks ++ '(' :: (inner ++ [')'])))
      = some ⟨(words ++ blanks ++ ['(']).length, inner.length⟩ := by
  rw [dropBlanks_append blank (by decide)]
  refine bracketed?_eq_some.mpr ⟨inner, rfl, one_line, ?_⟩
  simp [position]
  omega

theorem Capture.of_between (front inner back : Text) :
    (⟨front.length, inner.length⟩ : Capture).of (front ++ (inner ++ back)) = inner := by
  simp [Capture.of]

theorem Capture.of_call (words blanks inner : Text) :
    (⟨(words ++ blanks ++ ['(']).length, (mask inner).text.length⟩ : Capture).of
      (words ++ blanks ++ '(' :: (inner ++ [')'])) = inner := by
  rw [length_mask, List.append_cons _ '(' (inner ++ [')'])]
  exact Capture.of_between _ inner _

theorem print?_call {blanks inner : Text} (blank : blanks.all isBlank = true)
    (one_line : hasBreak inner = false) :
    print? ("print".toList ++ blanks ++ '(' :: (inner ++ [')']))
      = some ⟨("print".toList ++ blanks ++ ['(']).length, inner.length⟩ := by
  rw [print?, List.append_assoc, afterWord?_append, ← List.append_assoc]
  exact bracketed?_call _ blank one_line

theorem raise?_call {kind : String} (listed : kind ∈ raisableKinds) {between blanks inner : Text}
    (separated : between ≠ []) (between_blank : between.all isBlank = true)
    (blank : blanks.all isBlank = true) (some_inner : inner ≠ [])
    (one_line : hasBreak inner = false) :
    raise? ("raise".toList ++ between ++ kind.toList ++ blanks ++ '(' :: (inner ++ [')']))
      = some (kind.toList,
          ⟨("raise".toList ++ between ++ kind.toList ++ blanks ++ ['(']).length,
            inner.length⟩) := by
  obtain rfl := List.mem_singleton.mp listed
  have found := bracketed?_call ("raise".toList ++ between ++ "ValueError".toList) blank one_line
  have kind_part (rest : Text) :
      dropBlanks (between ++ ("ValueError".toList ++ rest)) = "ValueError".toList ++ rest :=
    dropBlanks_append between_blank (by decide) _
  have longer (rest : Text) : ¬ rest.length = (between ++ rest).length := by
    simpa using separated
  have some_arguments : ¬ inner.length = 0 := by simpa using some_inner
  simp only [List.append_assoc] at found ⊢
  simp only [raise?, afterWord?_append, Option.bind_eq_bind, Option.bind_some, kind_part,
    beq_iff_eq, longer, if_false, raisableKinds, List.findSome?_cons, found, some_arguments]

theorem formOf_of_isCall {t : Text} {form : LineForm} (call : IsCall t form) :
    formOf t (mask t).text = form := by
  cases call with
  | @print blanks inner blank capturable =>
      have no_flow := leadingWord?_of_other "print" (by decide) (by decide)
        (blanks ++ '(' :: ((mask inner).text ++ [')']))
      rw [← List.append_assoc] at no_flow
      rw [mask_call _ (by decide) blank capturable.closed, formOf, no_flow,
        print?_call blank capturable.one_line]
      exact congrArg (LineForm.print ∘ trim) (Capture.of_call ..)
  | @raise kind between blanks inner listed separated between_blank blank some_inner capturable =>
      have word (rest : Text) : afterWord? "print" ("raise".toList ++ rest) = none := by
        rw [afterWord?, if_neg]
        simp
      have no_flow := leadingWord?_of_other "raise" (by decide) (by decide)
        (between ++ kind.toList ++ blanks ++ '(' :: ((mask inner).text ++ [')']))
      have no_print : print? ("raise".toList
          ++ (between ++ kind.toList ++ blanks ++ '(' :: ((mask inner).text ++ [')']))) = none := by
        rw [print?, word]
        rfl
      have some_masked : (mask inner).text ≠ [] := by
        rw [← List.length_pos_iff, length_mask]
        exact List.length_pos_of_ne_nil some_inner
      have found := raise?_call listed separated between_blank blank some_masked
        capturable.one_line
      have captured := Capture.of_call ("raise".toList ++ between ++ kind.toList) blanks inner
      have plain : ("raise".toList ++ between ++ kind.toList).all isPlain = true := by
        obtain rfl := List.mem_singleton.mp listed
        simp only [List.all_append, all_isPlain_of_blank between_blank]
        decide
      simp only [← List.append_assoc] at no_flow no_print
      rw [mask_call _ plain blank capturable.closed, formOf, no_flow, no_print, found]
      exact congrArg (LineForm.raise kind.toList) captured

section Brackets

variable {opening closing : Char} {words blanks masked : Text}

theorem depthAfter?_words (opens : isSign opening = true) (closes : isSign closing = true)
    (free : opening ∉ words ∧ closing ∉ words) (blank : blanks.all isBlank = true) (depth : Nat) :
    depthAfter? opening closing depth (words ++ blanks) = some depth := by
  refine depthAfter?_of_no_brackets (fun c member => ?_) depth
  obtain word | lies := List.mem_append.mp member
  · constructor
    · rintro rfl
      exact free.1 word
    · rintro rfl
      exact free.2 word
  · have shown := List.all_eq_true.mp blank c lies
    exact ⟨ne_of_isSign (.inl shown) opens, ne_of_isSign (.inl shown) closes⟩

-- The brackets of a call are one pair, so its body ends at the depth at which it begins.
theorem depthAfter?_of_call (free : '(' ∉ words ∧ ')' ∉ words) (blank : blanks.all isBlank = true)
    (balanced : isBalanced '(' ')' (words ++ blanks ++ '(' :: (masked ++ [')'])) = true) :
    depthAfter? '(' ')' 1 masked = some 1 := by
  rw [isBalanced, beq_iff_eq, depthAfter?_append,
    depthAfter?_words (by decide) (by decide) free blank, Option.bind_some] at balanced
  have inside : depthAfter? '(' ')' 1 (masked ++ [')']) = some 0 := balanced
  rw [depthAfter?_append, Option.bind_eq_some_iff] at inside
  obtain ⟨depth, level, ends⟩ := inside
  rw [level]
  cases depth with
  | zero => contradiction
  | succ depth =>
      have same : depth = 0 := by simpa [depthAfter?] using ends
      rw [same]

theorem isBalanced_of_call (opens : isSign opening = true) (closes : isSign closing = true)
    (free : opening ∉ words ∧ closing ∉ words)
    (others : opening ∉ ['(', ')'] ∧ closing ∉ ['(', ')']) (blank : blanks.all isBlank = true)
    (balanced : isBalanced opening closing (words ++ blanks ++ '(' :: (masked ++ [')'])) = true) :
    isBalanced opening closing masked = true := by
  simp only [List.mem_cons, not_or] at others
  obtain ⟨⟨opening_left, opening_right, -⟩, closing_left, closing_right, -⟩ := others
  rw [isBalanced, beq_iff_eq, depthAfter?_append, depthAfter?_words opens closes free blank,
    Option.bind_some] at balanced
  have inside : depthAfter? opening closing 0 (masked ++ [')']) = some 0 := by
    simpa [depthAfter?, Ne.symm opening_left, Ne.symm closing_left] using balanced
  rw [depthAfter?_append, Option.bind_eq_some_iff] at inside
  obtain ⟨depth, level, ends⟩ := inside
  have same : depth = 0 := by
    simpa [depthAfter?, Ne.symm opening_right, Ne.symm closing_right] using ends
  rw [isBalanced, level, same]
  rfl

end Brackets

/-- A line without mistakes is balanced. -/
theorem balanced_of_mistake?_none {masked : Masked} (h : mistake? masked = none) :
    isBalanced '(' ')' masked.text = true ∧ isBalanced '[' ']' masked.text = true ∧
      isBalanced '{' '}' masked.text = true := by
  simp only [mistake?] at h
  split at h
  case isTrue => contradiction
  case isFalse parens =>
    split at h
    case isTrue => contradiction
    case isFalse others => simp_all

-- The words in front of a call hold letters and blanks only.
theorem exists_of_isCall {t arguments : Text} {form : LineForm} (call : IsCall t form)
    (captured : form.arguments? = some arguments) :
    ∃ words blanks inner, t = words ++ blanks ++ '(' :: (inner ++ [')']) ∧
      (∀ c ∈ words, isWordChar c = true ∨ isBlank c = true) ∧ blanks.all isBlank = true ∧
      Capturable inner ∧ (arguments = trim inner ∨ arguments = inner) := by
  cases call with
  | print blank capturable =>
      cases captured
      refine ⟨_, _, _, rfl, ?_, blank, capturable, .inl rfl⟩
      have letters : "print".toList.all isWordChar = true := by decide
      exact fun c member => .inl (List.all_eq_true.mp letters c member)
  | raise listed _ between_blank blank _ capturable =>
      cases captured
      refine ⟨_, _, _, rfl, ?_, blank, capturable, .inr rfl⟩
      obtain rfl := List.mem_singleton.mp listed
      have front : "raise".toList.all isWordChar = true := by decide
      have letters : "ValueError".toList.all isWordChar = true := by decide
      intro c member
      rw [List.mem_append, List.mem_append] at member
      obtain (word | lies) | word := member
      · exact .inl (List.all_eq_true.mp front c word)
      · exact .inr (List.all_eq_true.mp between_blank c lies)
      · exact .inl (List.all_eq_true.mp letters c word)

theorem brackets_of_isCall {t arguments : Text} {form : LineForm} (call : IsCall t form)
    (correct : mistake? (mask t) = none) (captured : form.arguments? = some arguments) :
    (mask arguments).closed = true ∧ isBalanced '[' ']' (mask arguments).text = true ∧
      isBalanced '{' '}' (mask arguments).text = true ∧
      depthAfter? '(' ')' 1 (mask arguments).text = some 1 := by
  obtain ⟨words, blanks, inner, rfl, letters, blank, capturable, made⟩ :=
    exists_of_isCall call captured
  have plain : words.all isPlain = true := List.all_eq_true.mpr fun c member =>
    (letters c member).elim isPlain_of_isWordChar isPlain_of_isBlank
  -- The first bracket of the line is the one that opens the call.
  have free {sign : Char} (no_word : isWordChar sign = false) (no_blank : isBlank sign = false) :
      sign ∉ words := by
    intro member
    obtain word | lies := letters sign member
    · exact ne_of_isWordChar word no_word rfl
    · exact ne_of_isBlank lies no_blank rfl
  obtain ⟨parens, brackets, braces⟩ := balanced_of_mistake?_none correct
  rw [mask_call words plain blank capturable.closed] at parens brackets braces
  have level := depthAfter?_of_call
    ⟨free (by decide) (by decide), free (by decide) (by decide)⟩ blank parens
  have square := isBalanced_of_call (by decide) (by decide)
    ⟨free (by decide) (by decide), free (by decide) (by decide)⟩ (by decide) blank brackets
  have curly := isBalanced_of_call (by decide) (by decide)
    ⟨free (by decide) (by decide), free (by decide) (by decide)⟩ (by decide) blank braces
  obtain rfl | rfl := made
  · rw [closed_mask_trim, isBalanced_mask_trim (by decide) (by decide),
      isBalanced_mask_trim (by decide) (by decide), depthAfter?_mask_trim (by decide) (by decide)]
    exact ⟨capturable.closed, square, curly, level⟩
  · exact ⟨capturable.closed, square, curly, level⟩

/-- A line is a call where it is written as one, and captures everything up to the bracket at its
end. The captured text closes its quotes, square brackets and braces, and its round brackets end at
the depth at which they begin; it is balanced unless it closes the bracket in front of it. -/
theorem call_captures_to_end {raw : Text} {number : Int} {line : Line}
    (read : classify raw number = .ok line) (some_text : line.form ≠ .blank) :
    (∀ form, IsCall line.text form → line.form = form) ∧
      ∀ arguments, line.form.arguments? = some arguments →
        IsCall line.text line.form ∧ (mask arguments).closed = true ∧
          isBalanced '[' ']' (mask arguments).text = true ∧
          isBalanced '{' '}' (mask arguments).text = true ∧
          depthAfter? '(' ')' 1 (mask arguments).text = some 1 ∧
          (isBalanced '(' ')' (mask arguments).text = true
            ↔ ¬ ClosesEarly (mask arguments).text) := by
  obtain ⟨correct, masked, rfl⟩ := correct_of_classify read some_text
  refine ⟨fun form call => formOf_of_isCall call, fun arguments captured => ?_⟩
  have call := isCall_of_formOf masked rfl captured
  obtain ⟨closed, square, curly, level⟩ := brackets_of_isCall call correct captured
  exact ⟨call, closed, square, curly, level, isBalanced_iff_not_closesEarly level⟩

/-- Two groups in one line are captured as one text, which closes the first group. -/
theorem call_captures_to_end_two_groups :
    ∃ line arguments, classify "print(1) + (2)".toList 1 = .ok line ∧ line.form ≠ .blank ∧
      line.form.arguments? = some arguments ∧ arguments = "1) + (2".toList ∧
      IsCall line.text line.form ∧ (mask arguments).closed = true ∧
      depthAfter? '(' ')' 1 (mask arguments).text = some 1 ∧
      ClosesEarly (mask arguments).text := by
  have read : classify "print(1) + (2)".toList 1
      = .ok ⟨1, "print(1) + (2)".toList, .print "1) + (2".toList⟩ := by decide
  obtain ⟨call, closed, -, -, level, -⟩ :=
    (call_captures_to_end read nofun).2 "1) + (2".toList rfl
  exact ⟨_, _, read, nofun, rfl, rfl, call, closed, level, ['1'], " + (2".toList, rfl, rfl⟩

end Line

end Snippet
