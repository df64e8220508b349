import Snippet.Proofs.Expr.Field

/-!
Bodies of formatted texts. A body written from literal texts and fields is read as these. The braces
of a literal text stand twice, and a field is its expression in braces with a conversion behind it.
-/

set_option autoImplicit false

namespace Snippet

namespace Part

/-- A literal text in front of parts. -/
def join : Text → List Part → List Part
  | [], parts => parts
  | t, .text u :: parts => .text (t ++ u) :: parts
  | t, parts => .text t :: parts

/-- The parts with neighbouring literal texts joined, and without the empty ones. -/
def merged : List Part → List Part
  | [] => []
  | .text t :: parts => join t (merged parts)
  | part :: parts => part :: merged parts

theorem join_cons (c : Char) (t : Text) (parts : List Part) :
    join [c] (join t parts) = join (c :: t) parts := by
  cases t with
  | nil => rfl
  | cons d t =>
      cases parts with
      | nil => rfl
      | cons part parts => cases part <;> rfl

end Part

namespace Field

/-- A literal text, or a field without a format. -/
inductive Piece where
  | literal (t : Text)
  | field (source : Text) (conversion : Option Conversion)

def conversionText : Option Conversion → Text
  | none => []
  | some conversion => '!' :: conversion.symbol.toList

namespace Piece

def written : Piece → Text
  | literal t => t.flatMap fun c => if c == '{' || c == '}' then [c, c] else [c]
  | field source conversion => '{' :: (source ++ conversionText conversion ++ ['}'])

def part (readExpr : Text → Except ReadError Expr) : Piece → Except ReadError Part
  | literal t => .ok (.text t)
  | field source conversion => do return .field (← readExpr source) conversion none

end Piece

variable {readExpr : Text → Except ReadError Expr} {column budget : Nat} {parts : List Part}
  {source tail rest : Text} {e : Expr}

/-! ### Literal texts -/

theorem stretches_literal (t rest : Text) :
    stretches ((Piece.literal t).written ++ rest) = t.foldr addLiteral (stretches rest) := by
  induction t with
  | nil => rfl
  | cons c t ih =>
      rw [Piece.written] at ih ⊢
      rw [List.flatMap_cons, List.foldr_cons, ← ih]
      by_cases opening : c = '{'
      · subst opening
        simp [stretches]
      · by_cases closing : c = '}'
        · subst closing
          simp [stretches]
        · simp [opening, closing, stretches]

theorem exists_of_read {source : Text} {part : Part} (h : read readExpr column source = .ok part) :
    ∃ e conversion spec, part = .field e conversion spec := by
  rw [read] at h
  obtain ⟨⟨conversion, spec⟩, -, h⟩ := bind_eq_ok.mp h
  dsimp only at h
  split at h
  · contradiction
  · obtain ⟨e, -, same⟩ := bind_eq_ok.mp h
    cases same
    exact ⟨e, conversion, spec, rfl⟩

theorem mapM_addLiteral {c : Char} {some : List Stretch}
    (read : some.mapM (readStretch readExpr column) = .ok parts) :
    (addLiteral c some).mapM (readStretch readExpr column) = .ok (Part.join [c] parts) := by
  cases some with
  | nil =>
      cases read
      rfl
  | cons stretch some =>
      rw [List.mapM_cons] at read
      obtain ⟨part, first, read⟩ := bind_eq_ok.mp read
      obtain ⟨others, later, same⟩ := bind_eq_ok.mp read
      cases same
      cases stretch with
      | literal t =>
          cases first
          simp [addLiteral, List.mapM_cons, readStretch, later]
          rfl
      | field source =>
          obtain ⟨e, conversion, spec, rfl⟩ := exists_of_read first
          simp [addLiteral, List.mapM_cons, first, later]
          rfl
      | strayBrace | unclosed => contradiction

theorem readBody_nil (column : Nat) : readBody readExpr column [] = .ok [] := by
  rw [readBody, stretches]
  rfl

theorem readBody_literal (t : Text) (read : readBody readExpr column rest = .ok parts) :
    readBody readExpr column ((Piece.literal t).written ++ rest) = .ok (Part.join t parts) := by
  rw [readBody, stretches_literal]
  induction t with
  | nil => exact read
  | cons c t ih =>
      rw [List.foldr_cons, ← Part.join_cons]
      exact mapM_addLiteral ih

/-! ### Fields -/

theorem stretches_opening {t : Text} (single : t.head? ≠ some '{') :
    stretches ('{' :: t) =
      match upToBrace? .start t with
      | none => [.unclosed]
      | some found => .field found.1 :: stretches found.2 := by
  rw [stretches]
  · split
    · rename_i missing
      simp only [missing]
    · rename_i field after found
      simp only [found]
  · rintro rest rfl
    exact single rfl

theorem Standing.single (standing : Standing budget source e) (t : Text) :
    (source ++ t).head? ≠ some '{' := by
  cases source with
  | nil =>
      have shown := standing.shown
      contradiction
  | cons c source => exact standing.starts

/-- What stands behind the expression of a field. -/
def tailText (conversion : Option Conversion) (spec : Option Text) : Text :=
  conversionText conversion ++ (spec.map (':' :: ·)).getD []

section Tail

variable (conversion : Option Conversion) (spec : Option Text)

theorem readTail_tailText (column : Nat) :
    readTail column (tailText conversion spec) = .ok (conversion, spec) := by
  cases conversion with
  | none => cases spec <;> rfl
  | some conversion => cases conversion <;> cases spec <;> rfl

-- It starts with a mark that ends the expression.
theorem splitSource_tailText :
    splitSource .start (tailText conversion spec) = ([], tailText conversion spec) := by
  cases conversion with
  | none => cases spec <;> rfl
  | some conversion => cases conversion <;> cases spec <;> rfl

theorem passing_tailText :
    Nesting.start.passing (tailText conversion spec) = Nesting.start.passing (spec.getD []) := by
  cases conversion with
  | none => cases spec <;> rfl
  | some conversion => cases conversion <;> cases spec <;> rfl

variable {spec}

theorem not_mem_tailText (braceless : ∀ t ∈ spec, '}' ∉ t) : '}' ∉ tailText conversion spec := by
  have front : '}' ∉ conversionText conversion := by
    cases conversion with
    | none => exact List.not_mem_nil
    | some conversion => cases conversion <;> decide
  cases spec with
  | none => simpa [tailText] using front
  | some t => simpa [tailText] using ⟨front, braceless t rfl⟩

end Tail

section Behind

variable (standing : Standing budget source e) (conversion : Option Conversion)
  {spec : Option Text} (braceless : ∀ t ∈ spec, '}' ∉ t)
include standing braceless

-- No brace of the expression or behind it ends the field too early.
theorem upToBrace?_field (after : Text) :
    upToBrace? .start (source ++ (tailText conversion spec ++ after))
      = (upToBrace? (Nesting.start.passing (spec.getD [])) after).map
          fun found => (source ++ (tailText conversion spec ++ found.1), found.2) := by
  have crosses := standing.crosses
  have inside (front back : Text) (same : tailText conversion spec = front ++ '}' :: back) :
      (Nesting.start.passing front).atTop = false :=
    absurd (by simp [same]) (not_mem_tailText conversion braceless)
  have front := upToBrace?_append (n := .start) crosses.quiet.inside
    (tailText conversion spec ++ after)
  rw [show Nesting.start.passing source = .start from crosses.reaches, upToBrace?_append inside,
    Option.map_map, passing_tailText] at front
  exact front

omit braceless in
theorem read_field (column : Nat) :
    read (Grammar.readField (Grammar.readAt budget)) column (source ++ tailText conversion spec)
      = .ok (.field e conversion spec) := by
  have crosses := standing.crosses
  have split := splitSource_quiet (n := .start) crosses.quiet (tailText conversion spec)
  rw [show Nesting.start.passing source = .start from crosses.reaches, splitSource_tailText,
    List.append_nil] at split
  rw [read, split]
  dsimp only
  rw [readTail_tailText]
  show (if (Text.trim source).isEmpty then _ else _) = _
  rw [standing.shown]
  show (Grammar.readField (Grammar.readAt budget) source >>= fun e => pure _) = _
  rw [standing.read]
  rfl

theorem readBody_field (top : (Nesting.start.passing (spec.getD [])).atTop = true)
    (others : readBody (Grammar.readField (Grammar.readAt budget)) column rest = .ok parts) :
    readBody (Grammar.readField (Grammar.readAt budget)) column
        ('{' :: (source ++ (tailText conversion spec ++ '}' :: rest)))
      = .ok (.field e conversion spec :: parts) := by
  have found := upToBrace?_field standing conversion braceless ('}' :: rest)
  rw [upToBrace?, if_pos (by rw [top]; rfl)] at found
  rw [readBody] at others
  rw [readBody, stretches_opening (standing.single _), found]
  simp only [Option.map_some, List.append_nil]
  rw [List.mapM_cons, others, readStretch, read_field standing conversion]
  rfl

theorem readBody_field_open (open_ : (Nesting.start.passing (spec.getD [])).atTop = false)
    (column : Nat) :
    readBody (Grammar.readField (Grammar.readAt budget)) column
        ('{' :: (source ++ (tailText conversion spec ++ ['}']))) = .error (.unclosedField column) := by
  have missing := upToBrace?_field standing conversion braceless ['}']
  rw [upToBrace?, if_neg (by simp [open_])] at missing
  rw [readBody, stretches_opening (standing.single _), missing]
  rfl

end Behind

/-- A body is read as the pieces that it is written from. -/
theorem readBody_pieces {pieces : List Piece} (column : Nat)
    (plain : ∀ source conversion, .field source conversion ∈ pieces →
      '\\' ∉ source ∧ source.head? ≠ some '{')
    (read : pieces.mapM (Piece.part (Grammar.readField (Grammar.readAt budget))) = .ok parts) :
    readBody (Grammar.readField (Grammar.readAt budget)) column (pieces.flatMap Piece.written)
      = .ok (Part.merged parts) := by
  -- What is read of a piece is joined with what is read behind it.
  induction pieces generalizing parts with
  | nil =>
      cases read
      exact readBody_nil column
  | cons piece pieces ih =>
      rw [List.mapM_cons] at read
      obtain ⟨part, first, read⟩ := bind_eq_ok.mp read
      obtain ⟨others, later, same⟩ := bind_eq_ok.mp read
      cases same
      have behind := ih (fun source conversion member =>
        plain source conversion (List.mem_cons_of_mem _ member)) later
      rw [List.flatMap_cons]
      cases piece with
      | literal t =>
          cases first
          exact readBody_literal t behind
      | field source conversion =>
          obtain ⟨e, readable, same⟩ := bind_eq_ok.mp first
          cases same
          obtain ⟨unescaped, starts⟩ := plain source conversion List.mem_cons_self
          have standing : Standing budget source e := ⟨readable, unescaped, starts⟩
          have unformatted : ∀ t ∈ (none : Option Text), '}' ∉ t := nofun
          have field := readBody_field standing conversion unformatted rfl behind
          rw [Part.merged]
          · simpa [Piece.written, tailText] using field
          · nofun

-- Braces of literal texts next to those of fields, a dictionary with a colon and a brace in its
-- texts, a slice beside an unequal sign, and a formatted text with a format inside of another one.
theorem readBody_pieces_nested :
    let lookup := " \x7b'k': ':\x7d'\x7d['k']".toList
    let differs := "x[1:] != y".toList
    let nested := "f'\x7bz!s:>3\x7d'".toList
    ∃ first second third,
      Expr.read lookup = .ok first ∧ Expr.read differs = .ok second ∧ Expr.read nested = .ok third ∧
        readBody Expr.read 5 (['a', '{', '{', '{'] ++ lookup ++ ['}', '}', '}', '}', '}', '{']
            ++ differs ++ ['!', 'r', '}', '{'] ++ nested ++ ['!', 's', '}', '{', '{'])
          = .ok [.text ['a', '{'], .field first none none, .text ['}', '}'],
            .field second (some .quoted) none, .field third (some .plain) none, .text ['{']] := by
  intro lookup differs nested
  have readable : (Expr.read lookup).isOk = true ∧ (Expr.read differs).isOk = true ∧
      (Expr.read nested).isOk = true := by
    decide +kernel
  obtain ⟨first, read_first⟩ := exists_of_isOk readable.1
  obtain ⟨second, read_second⟩ := exists_of_isOk readable.2.1
  obtain ⟨third, read_third⟩ := exists_of_isOk readable.2.2
  refine ⟨first, second, third, read_first, read_second, read_third, ?_⟩
  let pieces : List Piece := [.literal ['a', '{'], .field lookup none, .literal ['}'], .literal [],
    .literal ['}'], .field differs (some .quoted), .field nested (some .plain), .literal ['{']]
  have read : pieces.mapM (Piece.part Expr.read) = .ok [.text ['a', '{'], .field first none none,
      .text ['}'], .text [], .text ['}'], .field second (some .quoted) none,
      .field third (some .plain) none, .text ['{']] := by
    simp only [pieces, List.mapM_cons, Piece.part, read_first, read_second, read_third]
    rfl
  have plain : ∀ source conversion, .field source conversion ∈ pieces →
      '\\' ∉ source ∧ source.head? ≠ some '{' := by
    intro source conversion member
    have one : source = lookup ∨ source = differs ∨ source = nested := by
      simp only [pieces, List.mem_cons, List.not_mem_nil, Piece.field.injEq, reduceCtorEq,
        false_or, or_false] at member
      exact member.imp And.left (Or.imp And.left And.left)
    obtain rfl | rfl | rfl := one <;> decide
  exact @readBody_pieces Grammar.readBudget _ pieces 5 plain read

/-! ### Formats -/

/-- What a text shows outside of quotes, unless a quote of it is left open. -/
def unquoted? : Option Char → Text → Option Text
  | none, [] => some []
  | some _, [] => none
  | some quote, c :: t => unquoted? (if c == quote then none else some quote) t
  | none, c :: t =>
      if Token.isQuote c then unquoted? (some c) t else (unquoted? none t).map (c :: ·)

/-- Whether a text closes its quotes, and closes as many brackets outside of them as it opens. -/
def settles (t : Text) : Bool :=
  match unquoted? none t with
  | some shown => shown.countP opens == shown.countP closes
  | none => false

theorem not_closes_of_opens {c : Char} (h : opens c = true) : closes c = false := by
  simp only [opens, Bool.or_eq_true, beq_iff_eq] at h
  obtain (rfl | rfl) | rfl := h <;> rfl

theorem passing_eq (d : Int) (quote : Option Char) (t : Text) :
    match unquoted? quote t with
    | some shown =>
        Nesting.passing ⟨d, quote⟩ t = ⟨d + shown.countP opens - shown.countP closes, none⟩
    | none => (Nesting.passing ⟨d, quote⟩ t).quote.isNone = false := by
  fun_induction unquoted? quote t generalizing d with
  | case1 => simp [Nesting.passing]
  | case2 => rfl
  | case3 quote c t ih =>
      have after : Nesting.after ⟨d, some quote⟩ c
          = ⟨d, if c == quote then none else some quote⟩ := by
        by_cases same : c = quote <;> simp [Nesting.after, same]
      rw [Nesting.passing, List.foldl_cons, after]
      exact ih d
  | case4 c t quoted ih =>
      have after : Nesting.after ⟨d, none⟩ c = ⟨d, some c⟩ := by simp [Nesting.after, quoted]
      rw [Nesting.passing, List.foldl_cons, after]
      exact ih d
  | case5 c t unquoted ih =>
      have after : Nesting.after ⟨d, none⟩ c
          = ⟨d + [c].countP opens - [c].countP closes, none⟩ := by
        cases opening : opens c with
        | true => simp [Nesting.after, unquoted, opening, not_closes_of_opens opening]
        | false => cases closing : closes c <;> simp [Nesting.after, unquoted, opening, closing]
      have later := ih (d + [c].countP opens - [c].countP closes)
      rw [Nesting.passing, List.foldl_cons, after]
      cases found : unquoted? none t with
      | none =>
          rw [found] at later
          exact later
      | some shown =>
          rw [found] at later
          show Nesting.passing _ t
            = ⟨d + ([c] ++ shown).countP opens - ([c] ++ shown).countP closes, none⟩
          rw [later, List.countP_append, List.countP_append]
          congr 1
          omega

theorem atTop_passing (t : Text) : (Nesting.start.passing t).atTop = settles t := by
  have reached := passing_eq 0 none t
  rw [settles]
  cases found : unquoted? none t with
  | none =>
      rw [found] at reached
      rw [Nesting.atTop, show (Nesting.start.passing t).quote.isNone = false from reached]
      rfl
  | some shown =>
      rw [found] at reached
      rw [show Nesting.start.passing t = _ from reached, Nesting.atTop, Bool.eq_iff_iff]
      simp only [Option.isNone_none, Bool.true_and, beq_iff_eq]
      omega

/-- A format behind an expression is read whole, as long as it closes its quotes and as many brackets
as it opens. Otherwise the brace behind it does not end the field. -/
theorem readBody_format (column : Nat)
    (read : Grammar.readField (Grammar.readAt budget) source = .ok e) (plain : '\\' ∉ source)
    (starts : source.head? ≠ some '{') (conversion : Option Conversion) {spec : Text}
    (braceless : ∀ c ∈ spec, c ≠ '{' ∧ c ≠ '}') :
    readBody (Grammar.readField (Grammar.readAt budget)) column
        ('{' :: (source ++ (conversionText conversion ++ ':' :: spec ++ ['}']))) =
      if settles spec then .ok [.field e conversion (some spec)]
      else .error (.unclosedField column) := by
  have standing : Standing budget source e := ⟨read, plain, starts⟩
  have no_brace : ∀ t ∈ some spec, '}' ∉ t := by
    rintro _ ⟨⟩ member
    exact (braceless _ member).2 rfl
  have settled := atTop_passing spec
  show readBody _ column ('{' :: (source ++ (tailText conversion (some spec) ++ ['}']))) = _
  split
  · rename_i closed
    exact readBody_field standing conversion no_brace (settled.trans closed) (readBody_nil column)
  · rename_i not_closed
    rw [Bool.not_eq_true] at not_closed
    exact readBody_field_open standing conversion no_brace (settled.trans not_closed) column

-- A format that closes a bracket before it opens one is read. A quote as the fill character of a
-- width hides the end of the field.
theorem readBody_format_quote :
    ∃ e, Expr.read ['x'] = .ok e ∧
      readBody Expr.read 1 "\x7bx!r:]'('[\x7d".toList
        = .ok [.field e (some .quoted) (some "]'('[".toList)] ∧
      readBody Expr.read 1 "\x7bx:'>10\x7d".toList = .error (.unclosedField 1) := by
  have readable : (Expr.read ['x']).isOk = true := by decide +kernel
  obtain ⟨e, read⟩ := exists_of_isOk readable
  have closed : ∀ c ∈ "]'('[".toList, c ≠ '{' ∧ c ≠ '}' := by simp
  have open_ : ∀ c ∈ "'>10".toList, c ≠ '{' ∧ c ≠ '}' := by simp
  exact ⟨e, read, readBody_format 1 read (by decide) (by decide) (some .quoted) closed,
    readBody_format 1 read (by decide) (by decide) none open_⟩

end Field

end Snippet
