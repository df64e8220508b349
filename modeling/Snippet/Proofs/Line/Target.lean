import Snippet.Proofs.Line.Mask
import Snippet.Proofs.Line.Shape
import Snippet.Proofs.Text.Word
import Snippet.Proofs.Token.Spelling

/-!
Names that an assignment binds, against names that an expression reads. A line binds words; an
expression reads a word if its characters are those of names. So some words are bound that nothing
reads, and the names with a character of no word are read but never bound.
-/

set_option autoImplicit false

namespace Snippet.Line

open Token (isNameRest isPlain)

/-- A word that a line may bind. -/
def isTarget : Text → Bool
  | [] => false
  | c :: rest =>
      isWordChar c && !isDecimal c && rest.all isWordChar && !isReserved (c :: rest)

/-- A text whose only token is a name, the text itself. -/
def IsSingleName (t : Text) : Prop :=
  ∃ token last, Token.scan t = .ok [token, Token.finishAt last] ∧ token.symbol = .name t

theorem leadingName?_some {t name rest : Text} (h : leadingName? t = some (name, rest)) :
    ∃ c more, name = c :: more ∧ isWordChar c = true ∧ isDecimal c = false
      ∧ more.all isWordChar = true ∧ t = name ++ rest := by
  cases t with
  | nil => contradiction
  | cons c t =>
      simp only [leadingName?] at h
      split at h
      case isTrue starts =>
        rw [Bool.and_eq_true, Bool.not_eq_true'] at starts
        obtain ⟨rfl, rfl⟩ : _ ∧ _ := by simpa using h
        refine ⟨c, t.takeWhile isWordChar, by simp [starts.1], starts.1, starts.2,
          List.all_takeWhile, (List.takeWhile_append_dropWhile).symm⟩
      case isFalse => contradiction

theorem isTarget_of_leadingName? {t name rest : Text} (h : leadingName? t = some (name, rest))
    (free : isReserved name = false) : isTarget name = true := by
  obtain ⟨c, more, rfl, word, letter, all, -⟩ := leadingName?_some h
  simp [isTarget, word, letter, all, free]

theorem leadingName?_of_moreNames? {turns : Nat} {t rest : Text} {names : List Text}
    (h : moreNames? turns t = some (names, rest)) :
    ∀ name ∈ names, ∃ start behind, leadingName? start = some (name, behind) := by
  induction turns generalizing t names with
  | zero =>
      cases h
      exact nofun
  | succ turns ih =>
      simp only [moreNames?] at h
      split at h
      · simp only [Option.bind_eq_bind, Option.bind_eq_some_iff, Prod.exists] at h
        obtain ⟨name, behind, first, names, last, others, found⟩ := h
        cases found
        rw [List.forall_mem_cons]
        exact ⟨⟨_, _, first⟩, ih others⟩
      · cases h
        exact nofun

/-- An augmented assignment has a word in front, its operator behind that, and then a side. -/
theorem leadingName?_of_augmented? {masked target : Text} {op : BinaryOp} {side : Capture}
    (h : augmented? masked = some (target, op, side)) :
    ∃ rest behind, leadingName? masked = some (target, rest) ∧
      afterWord? (op.symbol ++ "=") (dropBlanks rest) = some behind ∧
      rightSide? masked behind = some side := by
  simp only [augmented?, Option.bind_eq_bind, Option.bind_eq_some_iff, Prod.exists] at h
  obtain ⟨name, rest, leading, found⟩ := h
  obtain ⟨entry, -, found⟩ := List.exists_of_findSome?_eq_some found
  simp only [Option.bind_eq_some_iff] at found
  obtain ⟨behind, word, capture, right, made⟩ := found
  cases made
  exact ⟨rest, behind, leading, word, right⟩

theorem isTarget_of_augmented? {masked target : Text} {op : BinaryOp} {side : Capture}
    (h : augmented? masked = some (target, op, side)) (free : isReserved target = false) :
    isTarget target = true := by
  obtain ⟨_, _, leading, -⟩ := leadingName?_of_augmented? h
  exact isTarget_of_leadingName? leading free

theorem isTarget_of_assignment? {masked : Text} {targets : List Text} {side : Capture}
    (h : assignment? masked = some (targets, side)) (free : targets.any isReserved = false) :
    ∀ t ∈ targets, isTarget t = true := by
  simp only [assignment?, Option.bind_eq_bind, Option.bind_eq_some_iff, Prod.exists] at h
  obtain ⟨first, rest, leading, others, behind, more, _, _, made⟩ := h
  cases made
  rw [List.any_eq_false] at free
  simp only [Bool.not_eq_true] at free
  rw [List.forall_mem_cons] at free ⊢
  refine ⟨isTarget_of_leadingName? leading free.1, fun t member => ?_⟩
  obtain ⟨start, after, found⟩ := leadingName?_of_moreNames? more t member
  exact isTarget_of_leadingName? found (free.2 t member)

theorem isTarget_of_assignmentForm? {text masked side : Text} {targets : List Text}
    {op : Option BinaryOp} (h : assignmentForm? text masked = some (.assignment targets side op)) :
    ∀ t ∈ targets, isTarget t = true := by
  simp only [assignmentForm?, Option.orElse_eq_orElse, Option.orElse_eq_or,
    Option.or_eq_some_iff] at h
  obtain augmented | ⟨-, plain | ⟨-, item⟩⟩ := h
  · obtain ⟨⟨target, operator, side⟩, found, form⟩ := Option.bind_eq_some_iff.mp augmented
    dsimp only at form
    split at form
    · contradiction
    · rename_i free
      cases form
      simpa using isTarget_of_augmented? found (by simpa using free)
  · obtain ⟨⟨names, side⟩, found, form⟩ := Option.bind_eq_some_iff.mp plain
    dsimp only at form
    split at form
    · contradiction
    · rename_i free
      cases form
      exact isTarget_of_assignment? found (by simpa using free)
  · obtain ⟨_, _, form⟩ := Option.map_eq_some_iff.mp item
    contradiction

theorem augmented?_of_assignmentForm? {text masked side : Text} {targets : List Text} {op : BinaryOp}
    (h : assignmentForm? text masked = some (.assignment targets side (some op))) :
    ∃ target c, augmented? masked = some (target, op, c) ∧ targets = [target] ∧ side = c.of text := by
  simp only [assignmentForm?, Option.orElse_eq_orElse, Option.orElse_eq_or,
    Option.or_eq_some_iff] at h
  obtain augmented | ⟨-, plain | ⟨-, item⟩⟩ := h
  · obtain ⟨⟨target, operator, c⟩, found, form⟩ := Option.bind_eq_some_iff.mp augmented
    dsimp only at form
    split at form
    · contradiction
    · cases form
      exact ⟨target, c, found, rfl, rfl⟩
  · obtain ⟨⟨names, c⟩, _, form⟩ := Option.bind_eq_some_iff.mp plain
    dsimp only at form
    split at form <;> cases form
  · obtain ⟨_, _, form⟩ := Option.map_eq_some_iff.mp item
    contradiction

theorem assignmentForm?_of_formOf {text masked side : Text} {targets : List Text}
    {op : Option BinaryOp} (h : formOf text masked = .assignment targets side op) :
    assignmentForm? text masked = some (.assignment targets side op) := by
  rw [formOf, Option.getD_eq_iff] at h
  obtain found | ⟨-, other⟩ := h
  · simp only [Option.orElse_eq_orElse, Option.orElse_eq_or, Option.or_eq_some_iff,
      Option.map_eq_some_iff] at found
    obtain ⟨_, _, form⟩ | ⟨-, ⟨_, _, form⟩ | ⟨-, ⟨_, _, form⟩ | ⟨-, found | ⟨-, _, _, form⟩⟩⟩⟩ := found
    · contradiction
    · contradiction
    · contradiction
    · exact found
    · contradiction
  · contradiction

theorem isTarget_of_classify {raw side : Text} {number : Int} {line : Line} {targets : List Text}
    {op : Option BinaryOp} (h : classify raw number = .ok line)
    (form : line.form = .assignment targets side op) : ∀ t ∈ targets, isTarget t = true := by
  obtain ⟨-, -, rfl⟩ := correct_of_classify h (by rw [form]; nofun)
  exact isTarget_of_assignmentForm? (assignmentForm?_of_formOf form)

theorem wordKind_of_not_reserved {t : Text} (free : isReserved t = false) : wordKind t = .name := by
  rw [wordKind]
  split
  · rename_i word found
    have listed : word.1 ∈ reservedWords := by
      have member := List.mem_map_of_mem (f := Prod.fst) (List.mem_of_find?_eq_some found)
      simp [reservedWords, member]
    have taken : isReserved t = true :=
      List.any_eq_true.mpr ⟨word.1, listed, by simpa using List.find?_some found⟩
    rw [free] at taken
    contradiction
  · rfl

theorem isSingleName_iff {t : Text} : IsSingleName t ↔ isIdentifier t = true :=
  isIdentifier_iff.symm

-- A bound word is read as a name if its characters are those of names.
theorem isSingleName_of_target {t : Text} (target : isTarget t = true) :
    IsSingleName t ↔ t.head?.any isNameStart = true ∧ t.all isNameRest = true := by
  rw [isSingleName_iff]
  cases t with
  | nil => contradiction
  | cons c rest =>
      simp only [isTarget, Bool.and_eq_true, Bool.not_eq_true'] at target
      have kind := wordKind_of_not_reserved target.2
      simp only [isIdentifier, kind, List.head?_cons, Option.any_some, List.all_cons,
        Bool.and_eq_true, Bool.not_eq_true', beq_self_eq_true, and_true]
      constructor
      · rintro ⟨⟨-, start⟩, all⟩
        exact ⟨start, by rw [isNameRest, start, Bool.true_or], all⟩
      · rintro ⟨start, -, all⟩
        exact ⟨⟨not_isDigit_of_isNameStart start, start⟩, all⟩

-- A name is a word that may be bound if none of its characters is wordless.
theorem isTarget_of_single_name {t : Text} (name : IsSingleName t) (free : isReserved t = false) :
    isTarget t = true ↔ ∀ c ∈ t, wordlessRanges.has c = false := by
  rw [isSingleName_iff] at name
  cases t with
  | nil => contradiction
  | cons c rest =>
      simp only [isIdentifier, Bool.and_eq_true, Bool.not_eq_true'] at name
      obtain ⟨⟨⟨no_digit, start⟩, all⟩, -⟩ := name
      have no_decimal : isDecimal c = false := by
        rw [isDigit, Bool.or_eq_false_iff] at no_digit
        exact no_digit.1
      have first : isNameRest c = true := by rw [isNameRest, start, Bool.true_or]
      have words : rest.all isWordChar = true ↔ ∀ d ∈ rest, wordlessRanges.has d = false := by
        rw [List.all_eq_true] at all ⊢
        refine forall₂_congr fun d member => ?_
        rw [isWordChar_of_isNameRest (all d member), Bool.not_eq_true']
      simp only [isTarget, no_decimal, free, Bool.not_false, Bool.and_true, Bool.and_eq_true, words,
        isWordChar_of_isNameRest first, Bool.not_eq_true', List.forall_mem_cons]

section Bound

variable {t : Text}

-- The line that gives a word the value 1.
def setting (t : Text) : Text :=
  t ++ " = 1".toList

theorem words_of_target (target : isTarget t = true) :
    t ≠ [] ∧ t.all isWordChar = true ∧ isReserved t = false := by
  cases t with
  | nil => contradiction
  | cons c rest =>
      simp only [isTarget, Bool.and_eq_true, Bool.not_eq_true'] at target
      exact ⟨List.cons_ne_nil c rest, by simp [target], target.2⟩

-- No sign but an equals sign is in the line.
theorem not_mem_setting (target : isTarget t = true) {sign : Char} (no_word : isWordChar sign = false)
    (other : sign ∉ " = 1".toList) : sign ∉ setting t := by
  obtain ⟨-, all, -⟩ := words_of_target target
  rw [setting, List.mem_append, not_or]
  exact ⟨fun member => ne_of_isWordChar (List.all_eq_true.mp all sign member) no_word rfl, other⟩

theorem plain_setting (target : isTarget t = true) : (setting t).all isPlain = true := by
  obtain ⟨-, all, -⟩ := words_of_target target
  have plain : t.all isPlain = true := by
    rw [List.all_eq_true] at all ⊢
    exact fun c member => isPlain_of_isWordChar (all c member)
  rw [setting, List.all_append, plain]
  rfl

theorem trim_setting (target : isTarget t = true) : Text.trim (setting t) = setting t := by
  obtain ⟨some_text, all, -⟩ := words_of_target target
  apply Text.trim_eq_self
  · cases t with
    | nil => contradiction
    | cons c rest =>
        rintro _ ⟨⟩
        exact not_isBlank_of_isWordChar (List.all_eq_true.mp all c List.mem_cons_self)
  · have last : (setting t).getLast? = some '1' := by
      rw [setting, List.getLast?_append]
      rfl
    rw [last]
    rintro _ ⟨⟩
    decide

theorem bare_setting (target : isTarget t = true) : bare (setting t) = setting t := by
  have whole := withoutCommentFrom_plain (plain_setting target) []
  rw [List.append_nil] at whole
  rw [bare, trim_setting target, withoutComment, whole, withoutCommentFrom, List.append_nil,
    trim_setting target]

theorem mask_setting (target : isTarget t = true) : mask (setting t) = ⟨setting t, true⟩ := by
  have whole := maskFrom_plain (plain_setting target) []
  rw [List.append_nil] at whole
  rw [mask, whole]
  simp [maskFrom, Masked.add]

theorem takeWhile_setting (target : isTarget t = true) : (setting t).takeWhile isWordChar = t := by
  obtain ⟨-, all, -⟩ := words_of_target target
  exact takeWhile_exact all (by rintro _ ⟨⟩; decide)

theorem leadingWord?_setting (target : isTarget t = true) {words : List String}
    (listed : words ⊆ reservedWords) : leadingWord? words (setting t) = none := by
  obtain ⟨-, -, free⟩ := words_of_target target
  rw [leadingWord?, takeWhile_setting target, if_neg]
  intro found
  obtain ⟨word, member, same⟩ := List.any_eq_true.mp found
  have taken : isReserved t = true := List.any_eq_true.mpr ⟨word, listed member, same⟩
  rw [free] at taken
  contradiction

theorem blockKeywords_reserved : blockKeywords ⊆ reservedWords := by
  intro word member
  simp [reservedWords, member]

theorem flowKeywords_reserved : flowKeywords ⊆ reservedWords := by
  intro word member
  simp [reservedWords, member]

theorem hasTripleEquals_of_no_equals {front : Text} (no_equals : '=' ∉ front) (back : Text) :
    hasTripleEquals (front ++ back) = hasTripleEquals back := by
  induction front with
  | nil => rfl
  | cons c front ih =>
      rw [List.mem_cons, not_or] at no_equals
      rw [List.cons_append, hasTripleEquals, ih no_equals.2]
      rintro _ rfl
      exact absurd rfl no_equals.1

theorem isBalanced_setting (target : isTarget t = true) {opening closing : Char}
    (no_word : isWordChar opening = false ∧ isWordChar closing = false)
    (other : opening ∉ " = 1".toList ∧ closing ∉ " = 1".toList) :
    isBalanced opening closing (setting t) = true := by
  have plain : ∀ c ∈ setting t, c ≠ opening ∧ c ≠ closing := by
    intro c member
    constructor
    · rintro rfl
      exact not_mem_setting target no_word.1 other.1 member
    · rintro rfl
      exact not_mem_setting target no_word.2 other.2 member
  rw [isBalanced, depthAfter?_of_no_brackets plain]
  rfl

theorem mistake?_setting (target : isTarget t = true) : mistake? (mask (setting t)) = none := by
  have parens : isBalanced '(' ')' (setting t) = true :=
    isBalanced_setting target (by decide) (by decide)
  have brackets : isBalanced '[' ']' (setting t) = true :=
    isBalanced_setting target (by decide) (by decide)
  have braces : isBalanced '{' '}' (setting t) = true :=
    isBalanced_setting target (by decide) (by decide)
  have single : hasTripleEquals (setting t) = false := by
    obtain ⟨-, all, -⟩ := words_of_target target
    rw [setting, hasTripleEquals_of_no_equals]
    · rfl
    · intro member
      exact ne_of_isWordChar (List.all_eq_true.mp all _ member) (by decide) rfl
  have header := leadingWord?_setting target blockKeywords_reserved
  rw [mask_setting target]
  simp [mistake?, parens, brackets, braces, single, header]

theorem bracketed?_setting (target : isTarget t = true) {rest : Text}
    (inside : rest.Sublist (setting t)) : bracketed? (setting t) rest = none := by
  rw [← Option.not_isSome_iff_eq_none, Option.isSome_iff_exists]
  rintro ⟨c, found⟩
  obtain ⟨inner, rfl, -⟩ := bracketed?_some found
  have opened : '(' ∈ setting t := inside.subset List.mem_cons_self
  exact not_mem_setting target (by decide) (by decide) opened

theorem dropBlanks_sublist {word : String} {t rest : Text} (h : afterWord? word t = some rest) :
    (dropBlanks rest).Sublist t := by
  rw [afterWord?_some h]
  exact (List.dropWhile_sublist _).trans (List.sublist_append_right _ _)

theorem print?_setting (target : isTarget t = true) : print? (setting t) = none := by
  simp only [print?, Option.bind_eq_bind, Option.bind_eq_none_iff]
  intro rest word
  exact bracketed?_setting target (dropBlanks_sublist word)

theorem raise?_setting (target : isTarget t = true) : raise? (setting t) = none := by
  simp only [raise?, Option.bind_eq_bind, Option.bind_eq_none_iff]
  intro rest word
  split
  · rfl
  · rw [List.findSome?_eq_none_iff]
    intro kind _
    simp only [Option.bind_eq_none_iff]
    intro behind named arguments bracketed
    have inside := (dropBlanks_sublist named).trans (dropBlanks_sublist word)
    rw [bracketed?_setting target inside] at bracketed
    contradiction

theorem leadingName?_setting (target : isTarget t = true) :
    leadingName? (setting t) = some (t, " = 1".toList) := by
  have name := takeWhile_setting target
  have rest : (setting t).dropWhile isWordChar = " = 1".toList := by
    have whole := List.takeWhile_append_dropWhile (p := isWordChar) (l := setting t)
    rw [name] at whole
    exact List.append_cancel_left whole
  cases t with
  | nil => contradiction
  | cons c more =>
      simp only [isTarget, Bool.and_eq_true] at target
      have starts := target.1.1
      rw [setting, List.cons_append] at name rest ⊢
      rw [leadingName?, if_pos (by rw [Bool.and_eq_true]; exact starts), name, rest]

theorem augmented?_setting (target : isTarget t = true) : augmented? (setting t) = none := by
  have no_operator : ∀ op ∈ augmentingOps,
      afterWord? (op.symbol ++ "=") (dropBlanks " = 1".toList) = none := by
    decide
  rw [augmented?, leadingName?_setting target]
  simp only [Option.bind_eq_bind, Option.bind_some, List.findSome?_eq_none_iff]
  intro op member
  rw [no_operator op member]
  rfl

theorem assignment?_setting (target : isTarget t = true) :
    assignment? (setting t) = some ([t], ⟨t.length + 3, 1⟩) := by
  have no_more (turns : Nat) : moreNames? turns " = 1".toList = some ([], " = 1".toList) := by
    cases turns <;> rfl
  have side : equalsSide? (setting t) " = 1".toList = some ⟨t.length + 3, 1⟩ := by
    have place : position (setting t) "1".toList = t.length + 3 := by
      simp [position, setting]
    rw [← place]
    rfl
  simp only [assignment?, leadingName?_setting target, Option.bind_eq_bind, Option.bind_some,
    no_more, side]

theorem classify_setting (target : isTarget t = true) (number : Int) :
    classify (setting t) number = .ok ⟨number, setting t, .assignment [t] ['1'] none⟩ := by
  obtain ⟨some_text, -, free⟩ := words_of_target target
  have bare := bare_setting target
  have shown : Line.bare (setting t) ≠ [] := by
    rw [bare, setting]
    simp [some_text]
  have side : (⟨t.length + 3, 1⟩ : Capture).of (setting t) = ['1'] := by
    simp [Capture.of, setting]
  have form : formOf (setting t) (setting t) = .assignment [t] ['1'] none := by
    simp [formOf, assignmentForm?, leadingWord?_setting target flowKeywords_reserved,
      print?_setting target, raise?_setting target, augmented?_setting target,
      assignment?_setting target, free, side]
  rw [classify_of_correct shown (by rw [bare]; exact mistake?_setting target), bare,
    mask_setting target, form]

end Bound

/-- Lines bind words, expressions read names. The targets of assignments are the words that are not
reserved and start with no decimal; one is read as a name if its characters are those of names. A
name that is not reserved is bound if it has no wordless character. -/
theorem targets_against_names (number : Int) :
    (∀ raw line targets side op, classify raw number = .ok line →
      line.form = .assignment targets side op →
        ∀ t ∈ targets, isTarget t = true
          ∧ (IsSingleName t ↔ t.head?.any isNameStart = true ∧ t.all isNameRest = true))
    ∧ (∀ t, isTarget t = true → classify (t ++ " = 1".toList) number
        = .ok ⟨number, t ++ " = 1".toList, .assignment [t] ['1'] none⟩)
    ∧ ∀ t, IsSingleName t → isReserved t = false →
        ((∃ line side op, classify (t ++ " = 1".toList) number = .ok line
            ∧ line.form = .assignment [t] side op)
          ↔ ∀ c ∈ t, wordlessRanges.has c = false) := by
  refine ⟨?bound, fun t target => classify_setting target number, ?names⟩
  case bound =>
    intro raw line targets side op classified form t member
    have target := isTarget_of_classify classified form t member
    exact ⟨target, isSingleName_of_target target⟩
  case names =>
    intro t name free
    rw [← isTarget_of_single_name name free]
    constructor
    · rintro ⟨line, side, op, classified, form⟩
      exact isTarget_of_classify classified form t List.mem_cons_self
    · intro target
      exact ⟨_, _, _, classify_setting target number, rfl⟩

/-- A word with a fraction is bound and not read; the sign of an elliptic function is read and not
bound. -/
theorem targets_against_names_signs :
    (classify "x½ = 1".toList 1 = .ok ⟨1, "x½ = 1".toList, .assignment ["x½".toList] ['1'] none⟩
      ∧ ¬ IsSingleName "x½".toList)
    ∧ IsSingleName "℘".toList ∧ isReserved "℘".toList = false
      ∧ ¬ ∃ line side op, classify ("℘".toList ++ " = 1".toList) 1 = .ok line
          ∧ line.form = .assignment ["℘".toList] side op := by
  obtain ⟨bound, set, names⟩ := targets_against_names 1
  have fraction : isTarget "x½".toList = true := by decide
  have sign : IsSingleName "℘".toList := isSingleName_iff.mpr (by decide)
  have free : isReserved "℘".toList = false := by decide
  have classified := set "x½".toList fraction
  refine ⟨⟨classified, fun name => ?_⟩, sign, free, fun found => ?_⟩
  · have read := (bound _ _ _ _ _ classified rfl _ List.mem_cons_self).2.mp name
    exact absurd read (by decide)
  · have wordless := (names _ sign free).mp found '℘' List.mem_cons_self
    exact absurd wordless (by decide)

end Snippet.Line
