import Snippet.Proofs.Line.Place

/-!
What quoted texts hold does not matter for what a line is. Lines with the same mask are of the same
form, with the same words, and their captured texts are the same stretches of both.
-/

set_option autoImplicit false

namespace Snippet

open Line (Capture)

/-- Forms with the same words whose captured texts are the same stretches of two lines. -/
inductive LineForm.SameShape (t u : Text) : LineForm → LineForm → Prop
  | blank : SameShape t u .blank .blank
  | header (keyword : Text) : SameShape t u (.header keyword) (.header keyword)
  | flow (keyword : Text) : SameShape t u (.flow keyword) (.flow keyword)
  | print (c : Capture) : SameShape t u (.print (c.of t)) (.print (c.of u))
  | raise (kind : Text) (c : Capture) :
      SameShape t u (.raise kind (c.of t)) (.raise kind (c.of u))
  | assignment (targets : List Text) (c : Capture) (op : Option BinaryOp) :
      SameShape t u (.assignment targets (c.of t) op) (.assignment targets (c.of u) op)
  | itemAssignment (target side : Capture) :
      SameShape t u (.itemAssignment (target.of t) (side.of t))
        (.itemAssignment (target.of u) (side.of u))
  | expression (c : Capture) : SameShape t u (.expression (c.of t)) (.expression (c.of u))

namespace Line

open LineForm (SameShape)
open Place
open Text (trim)
open Token (isQuote)

section Rel

variable {α β γ : Type} {r : α → β → Prop}

theorem rel_orElse {a c : Option α} {b d : Option β} (first : Option.Rel r a b)
    (second : Option.Rel r c d) : Option.Rel r (a <|> c) (b <|> d) := by
  cases first with
  | some h => exact .some h
  | none => exact second

theorem rel_map (o : Option γ) {f : γ → α} {g : γ → β} (each : ∀ x ∈ o, r (f x) (g x)) :
    Option.Rel r (o.map f) (o.map g) := by
  cases o with
  | none => exact .none
  | some x => exact .some (each x rfl)

theorem rel_bind (o : Option γ) {f : γ → Option α} {g : γ → Option β}
    (each : ∀ x, Option.Rel r (f x) (g x)) : Option.Rel r (o.bind f) (o.bind g) := by
  cases o with
  | none => exact .none
  | some x => exact each x

theorem rel_getD {a : Option α} {b : Option β} {x : α} {y : β} (h : Option.Rel r a b)
    (default : r x y) : r (a.getD x) (b.getD y) := by
  cases h with
  | some h => exact h
  | none => exact default

end Rel

theorem masked_take {t front behind : Text} (whole : outside.masked t = front ++ behind) :
    outside.masked (t.take front.length) = front ∧
      (outside.afterAll (t.take front.length)).masked (t.drop front.length) = behind := by
  have fits : front.length ≤ t.length := by
    have lengths := congrArg List.length whole
    simp at lengths
    omega
  rw [← List.take_append_drop front.length t, masked_append] at whole
  simpa [fits] using List.append_inj whole (by simp [fits])

theorem foldl_quoteAfter_unquoted {front : Text} (unquoted : ∀ c ∈ front, isQuote c = false) :
    front.foldl quoteAfter none = none := by
  induction front with
  | nil => rfl
  | cons c front ih =>
      have here := unquoted c (List.mem_cons_self ..)
      have later := ih fun d member => unquoted d (List.mem_cons_of_mem _ member)
      simpa [quoteAfter, here] using later

theorem takeWhile_isBlank_masked (t : Text) :
    (outside.masked t).takeWhile isBlank = t.takeWhile isBlank := by
  induction t with
  | nil => rfl
  | cons c rest ih =>
      by_cases blank : isBlank c = true
      · have still : outside.after c = outside := by
          simp [after, not_isQuote_of_isBlank blank]
        simpa [masked, shown, blank, still] using ih
      · simp [masked, shown, blank]

-- Trimming a captured text captures less.
theorem Capture.trim_of (c : Capture) (t : Text) :
    trim (c.of t) =
      Capture.of ⟨c.start + ((c.of t).takeWhile isBlank).length, (trim (c.of t)).length⟩ t := by
  have inside : (c.of t).takeWhile isBlank ++ (trim (c.of t) ++ Text.blanksBehind (c.of t))
      = c.of t := by
    rw [Text.trim_append_blanksBehind, Text.dropStart, List.takeWhile_append_dropWhile]
  have around : c.of t ++ (t.drop c.start).drop c.length = t.drop c.start :=
    List.take_append_drop c.length _
  calc trim (c.of t)
      = (((c.of t).takeWhile isBlank ++ (trim (c.of t) ++ Text.blanksBehind (c.of t))
          ++ (t.drop c.start).drop c.length).drop ((c.of t).takeWhile isBlank).length).take
            (trim (c.of t)).length := by simp
    _ = _ := by
        rw [inside, around, List.drop_drop]
        rfl

theorem mask_trim_congr {t u : Text} (same : mask t = mask u)
    (closed : (mask t).closed = true) : mask (trim t) = mask (trim u) := by
  apply mask_ext
  rw [mask_trim closed, mask_trim (same ▸ closed), same]

theorem afterWord?_some {word : String} {t rest : Text} (h : afterWord? word t = some rest) :
    t = word.toList ++ rest := by
  simp only [afterWord?] at h
  split at h
  case isTrue starts =>
    obtain ⟨after, rfl⟩ := List.isPrefixOf_iff_prefix.mp starts
    cases h
    simp [← String.length_toList]
  case isFalse => contradiction

theorem bracketed?_some {whole rest : Text} {c : Capture} (h : bracketed? whole rest = some c) :
    ∃ inner, rest = '(' :: (inner ++ [')']) ∧
      c = ⟨position whole (inner ++ [')']), inner.length⟩ := by
  simp only [bracketed?] at h
  split at h
  case h_1 inner =>
    split at h
    case h_1 last =>
      obtain ⟨inner, rfl⟩ := List.getLast?_eq_some_iff.mp last
      split at h
      · contradiction
      · cases h
        exact ⟨inner, rfl, by simp⟩
    case h_2 => contradiction
  case h_2 => contradiction

/-- The arguments of a print line stand between unquoted characters and a closing bracket. -/
theorem print?_some {masked : Text} {c : Capture} (h : print? masked = some c) :
    ∃ front inner, masked = front ++ (inner ++ [')']) ∧ c = ⟨front.length, inner.length⟩ ∧
      ∀ d ∈ front, isQuote d = false := by
  simp only [print?, Option.bind_eq_bind, Option.bind_eq_some_iff] at h
  obtain ⟨rest, word, arguments⟩ := h
  obtain ⟨inner, opened, rfl⟩ := bracketed?_some arguments
  have whole : masked = "print".toList ++ rest.takeWhile isBlank ++ ['('] ++ (inner ++ [')']) := by
    rw [afterWord?_some word, List.append_assoc, List.append_assoc, List.singleton_append,
      ← opened, dropBlanks, List.takeWhile_append_dropWhile]
  refine ⟨"print".toList ++ rest.takeWhile isBlank ++ ['('], inner, whole, ?_, ?_⟩
  · rw [position, whole]
    simp
    omega
  · intro d member
    simp only [List.mem_append, List.mem_singleton] at member
    obtain (word | blank) | rfl := member
    · have unquoted : "print".toList.all (fun d => !isQuote d) = true := by decide
      simpa using List.all_eq_true.mp unquoted d word
    · exact not_isQuote_of_isBlank (List.all_eq_true.mp List.all_takeWhile d blank)
    · decide

-- A bracket closes no quotes.
theorem quoteAfter_bracket {quote : Option Char} (valid : (ofQuote quote).Valid)
    (closed : quoteAfter quote ')' = none) : quote = none := by
  cases quote with
  | none => rfl
  | some q =>
      have differ : ')' ≠ q := by
        rintro rfl
        exact absurd (valid ')' rfl) (by decide)
      simp [quoteAfter, differ] at closed

-- Behind unquoted characters and in front of a bracket, a stretch has a mask of its own.
theorem mask_of_stretch {t front inner : Text}
    (masked : mask t = ⟨front ++ (inner ++ [')']), true⟩)
    (unquoted : ∀ d ∈ front, isQuote d = false) :
    mask ((⟨front.length, inner.length⟩ : Capture).of t) = ⟨inner, true⟩ := by
  rw [mask_eq, Masked.mk.injEq] at masked
  obtain ⟨whole, closed⟩ := masked
  obtain ⟨shown_front, shown_rest⟩ := masked_take whole
  have starts : outside.afterAll (t.take front.length) = outside := by
    apply quote?_eq_none.mp
    rw [quote?_afterAll valid_outside, shown_front]
    exact foldl_quoteAfter_unquoted unquoted
  rw [starts] at shown_rest
  obtain ⟨shown_inner, -⟩ := masked_take shown_rest
  let stretch := (t.drop front.length).take inner.length
  have ends : (outside.afterAll stretch).quote? = inner.foldl quoteAfter none := by
    rw [quote?_afterAll valid_outside, shown_inner]
    rfl
  have valid : (ofQuote (inner.foldl quoteAfter none)).Valid := by
    rw [← ends]
    exact (valid_outside.afterAll stretch).ofQuote_quote?
  have still : inner.foldl quoteAfter none = none := by
    apply quoteAfter_bracket valid
    rw [quote?_afterAll valid_outside, whole, quote?, List.foldl_append, List.foldl_append,
      foldl_quoteAfter_unquoted unquoted] at closed
    exact Option.isNone_iff_eq_none.mp closed
  rw [mask_eq, Capture.of, shown_inner, ends, still]
  rfl

-- Where a captured text is trimmed, its mask tells what remains.
theorem trim_of_congr {t u : Text} (c : Capture) (same : mask (c.of t) = mask (c.of u))
    (closed : (mask (c.of t)).closed = true) :
    ∃ d : Capture, trim (c.of t) = d.of t ∧ trim (c.of u) = d.of u := by
  have lead : (c.of t).takeWhile isBlank = (c.of u).takeWhile isBlank := by
    rw [← takeWhile_isBlank_masked (c.of t), ← takeWhile_isBlank_masked (c.of u)]
    simp only [mask_eq, Masked.mk.injEq] at same
    rw [same.1]
  have size : (trim (c.of t)).length = (trim (c.of u)).length := by
    rw [← length_mask (trim (c.of t)), mask_trim_congr same closed, length_mask]
  refine ⟨_, c.trim_of t, ?_⟩
  rw [lead, size]
  exact c.trim_of u

section Forms

variable {t u masked : Text}

theorem rel_print (first : mask t = ⟨masked, true⟩) (second : mask u = ⟨masked, true⟩) :
    Option.Rel (SameShape t u) ((print? masked).map fun c => .print (trim (c.of t)))
      ((print? masked).map fun c => .print (trim (c.of u))) := by
  apply rel_map
  intro c found
  obtain ⟨front, inner, rfl, rfl, unquoted⟩ := print?_some found
  have of_first := mask_of_stretch first unquoted
  have of_second := mask_of_stretch second unquoted
  obtain ⟨d, trimmed_first, trimmed_second⟩ := trim_of_congr (t := t) (u := u)
    ⟨front.length, inner.length⟩ (of_first.trans of_second.symm) (by rw [of_first])
  rw [trimmed_first, trimmed_second]
  exact .print d

theorem rel_assignmentForm? :
    Option.Rel (SameShape t u) (assignmentForm? t masked) (assignmentForm? u masked) := by
  refine rel_orElse (rel_bind _ ?augmented) (rel_orElse (rel_bind _ ?plain) (rel_map _ ?item))
  case augmented =>
    rintro ⟨target, op, side⟩
    dsimp only
    split
    · exact .none
    · exact .some (.assignment [target] side (some op))
  case plain =>
    rintro ⟨targets, side⟩
    dsimp only
    split
    · exact .none
    · exact .some (.assignment targets side none)
  case item =>
    rintro ⟨target, side⟩ -
    exact .itemAssignment target side

theorem Capture.of_whole (t : Text) : (⟨0, t.length⟩ : Capture).of t = t := by
  simp [Capture.of]

/-- Texts with the same mask have forms of the same shape. -/
theorem sameShape_formOf (first : mask t = ⟨masked, true⟩) (second : mask u = ⟨masked, true⟩) :
    SameShape t u (formOf t masked) (formOf u masked) := by
  refine rel_getD (rel_orElse (rel_map _ ?flow) (rel_orElse (rel_print first second)
    (rel_orElse (rel_map _ ?raise) (rel_orElse rel_assignmentForm? (rel_map _ ?header))))) ?other
  case flow => exact fun keyword _ => .flow keyword
  case raise => exact fun ⟨kind, c⟩ _ => .raise kind c
  case header => exact fun keyword _ => .header keyword
  case other =>
    have size : t.length = u.length := by
      rw [← length_mask t, ← length_mask u, first, second]
    have whole := SameShape.expression (t := t) (u := u) ⟨0, t.length⟩
    rwa [Capture.of_whole, size, Capture.of_whole] at whole

end Forms

-- A text whose quotes stay open is one mistake or the other, and its brackets tell which.
theorem mistake?_open {masked : Masked} (opened : masked.closed = false) :
    mistake? masked
      = some (if isBalanced '(' ')' masked.text then .invalidSyntax else .unmatchedParen) := by
  cases balanced : isBalanced '(' ')' masked.text <;> simp [mistake?, balanced, opened]

/-- The comment-free line of a source text, without outer blanks. -/
def bare (raw : Text) : Text :=
  trim (withoutComment (trim raw))

theorem bare_eq (raw : Text) : bare raw = trim (withoutComment raw) :=
  trim_withoutComment_trim raw

theorem classify_of_isEmpty {raw : Text} (empty : bare raw = []) (number : Int) :
    classify raw number = .ok ⟨number, trim raw, .blank⟩ := by
  rw [bare] at empty
  simp [classify, empty]

theorem classify_of_mistake {raw : Text} {mistake : Malformed} (some_text : bare raw ≠ [])
    (h : mistake? (mask (bare raw)) = some mistake) (number : Int) :
    classify raw number = .error mistake := by
  rw [bare] at some_text h
  simp [classify, some_text, h]

theorem classify_of_correct {raw : Text} (some_text : bare raw ≠ [])
    (h : mistake? (mask (bare raw)) = none) (number : Int) :
    classify raw number = .ok ⟨number, bare raw, formOf (bare raw) (mask (bare raw)).text⟩ := by
  rw [bare] at some_text h ⊢
  simp [classify, some_text, h]

theorem classify_of_open {raw : Text} (opened : (mask (withoutComment raw)).closed = false)
    (number : Int) :
    classify raw number
      = .error (if isBalanced '(' ')' (mask (withoutComment raw)).text then .invalidSyntax
          else .unmatchedParen) := by
  have still : (mask (bare raw)).closed = false := by rw [bare_eq, closed_mask_trim, opened]
  have some_text : bare raw ≠ [] := by
    intro empty
    rw [empty] at still
    contradiction
  apply classify_of_mistake some_text
  rw [mistake?_open still, bare_eq, isBalanced_mask_trim (by decide) (by decide)]

theorem closed_of_mistake?_none {masked : Masked} (h : mistake? masked = none) :
    masked.closed = true := by
  cases closed : masked.closed with
  | true => rfl
  | false => simp [mistake?_open closed] at h

/-- A line that is not blank has no mistake, closes its quotes, and has its form from its mask. -/
theorem correct_of_classify {raw : Text} {number : Int} {line : Line}
    (read : classify raw number = .ok line) (some_text : line.form ≠ .blank) :
    mistake? (mask (bare raw)) = none ∧ mask (bare raw) = ⟨(mask (bare raw)).text, true⟩ ∧
      line = ⟨number, bare raw, formOf (bare raw) (mask (bare raw)).text⟩ := by
  by_cases empty : bare raw = []
  · rw [classify_of_isEmpty empty] at read
    cases read
    contradiction
  cases verdict : mistake? (mask (bare raw)) with
  | some mistake =>
      rw [classify_of_mistake empty verdict] at read
      contradiction
  | none =>
      rw [classify_of_correct empty verdict] at read
      cases read
      exact ⟨rfl, congrArg (Masked.mk _) (closed_of_mistake?_none verdict), rfl⟩

/-- Bare lines with the same mask are classified alike. -/
theorem classify_of_bare {first second : Text} (same : mask (bare first) = mask (bare second))
    (number : Int) :
    (∃ mistake, classify first number = .error mistake
      ∧ classify second number = .error mistake) ∨
    ∃ line other, classify first number = .ok line ∧ classify second number = .ok other
      ∧ line.number = number ∧ other.number = number
      ∧ (bare first).length = (bare second).length
      ∧ SameShape (bare first) (bare second) line.form other.form := by
  have size : (bare first).length = (bare second).length := by
    rw [← length_mask (bare first), same, length_mask]
  by_cases empty : bare first = []
  · have empty_second : bare second = [] := by
      apply List.eq_nil_of_length_eq_zero
      rw [← size, empty, List.length_nil]
    exact .inr ⟨_, _, classify_of_isEmpty empty number, classify_of_isEmpty empty_second number,
      rfl, rfl, size, .blank⟩
  have some_text : bare second ≠ [] := by
    intro empty_second
    apply empty
    apply List.eq_nil_of_length_eq_zero
    rw [size, empty_second, List.length_nil]
  cases verdict : mistake? (mask (bare first)) with
  | some mistake =>
      exact .inl ⟨mistake, classify_of_mistake empty verdict number,
        classify_of_mistake some_text (same ▸ verdict) number⟩
  | none =>
      refine .inr ⟨_, _, classify_of_correct empty verdict number,
        classify_of_correct some_text (same ▸ verdict) number, rfl, rfl, size, ?_⟩
      have closed := closed_of_mistake?_none verdict
      rw [← same]
      exact sameShape_formOf (congrArg (Masked.mk _) closed)
        (same.symm.trans (congrArg (Masked.mk _) closed))

/-- What quoted texts hold does not decide what a line is. Two lines with the same mask are
malformed in the same way, or of the same form with the same words, and what is captured of them
are the same stretches of two bare lines of one length. -/
theorem classify_of_mask_eq {first second : Text} (same : mask first = mask second)
    (number : Int) :
    (∃ mistake, classify first number = .error mistake
      ∧ classify second number = .error mistake) ∨
    ∃ line other, classify first number = .ok line ∧ classify second number = .ok other
      ∧ line.number = number ∧ other.number = number
      ∧ (bare first).length = (bare second).length
      ∧ SameShape (bare first) (bare second) line.form other.form := by
  have comment_free := mask_withoutComment_congr same
  cases closed : (mask (withoutComment first)).closed with
  | false =>
      -- Quotes that stay open may hide blanks at the end of one line and not of the other.
      refine .inl ⟨_, classify_of_open closed number, ?_⟩
      rw [comment_free] at closed ⊢
      exact classify_of_open closed number
  | true =>
      apply classify_of_bare
      rw [bare_eq, bare_eq]
      exact mask_trim_congr comment_free closed

/-- An escaped quote and a number sign, both quoted, stand for the same structure. -/
theorem classify_of_mask_eq_escaped_quote :
    mask "print( 'a\\'(' )  # it's".toList = mask "print( '####' )  # it'?".toList
      ∧ ∃ line other,
        classify "print( 'a\\'(' )  # it's".toList 1 = .ok line
          ∧ classify "print( '####' )  # it'?".toList 1 = .ok other
          ∧ line.number = 1 ∧ other.number = 1
          ∧ (bare "print( 'a\\'(' )  # it's".toList).length
              = (bare "print( '####' )  # it'?".toList).length
          ∧ SameShape (bare "print( 'a\\'(' )  # it's".toList)
              (bare "print( '####' )  # it'?".toList) line.form other.form := by
  have same : mask "print( 'a\\'(' )  # it's".toList = mask "print( '####' )  # it'?".toList := by
    decide
  refine ⟨same, (classify_of_mask_eq same 1).resolve_left ?_⟩
  rintro ⟨mistake, read, -⟩
  have well_formed : (classify "print( 'a\\'(' )  # it's".toList 1).toBool = true := by decide
  rw [read] at well_formed
  contradiction

end Line

end Snippet
