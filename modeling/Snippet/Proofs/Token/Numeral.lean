import Snippet.Proofs.Token.Literal
import Snippet.Proofs.Token.Relaid

/-!
Numbers that are alone in a text. An integer is read exactly if it is a literal. The underscores of
a float are looked at less closely in front of its exponent, and none may be in the exponent.
-/

set_option autoImplicit false

namespace Snippet.Token

/-- What numbers are written with. -/
def numeralChars : Text :=
  "0123456789_.eE+-".toList

/-- Nothing but one token of a kind is read, up to the end. -/
def IsRead (kind : TokenKind) (t : Text) : Prop :=
  ∃ token last, scan t = .ok [token, last] ∧ token.kind = kind ∧ last.kind = .finish

/-- The rest of a number from its exponent mark on. -/
def scaleOf (t : Text) : Text :=
  t.dropWhile fun c => c != 'e' && c != 'E'

/-- As far as the underscores of a number are looked at: none is in front of its digits or behind
them, and no two are together. -/
structure Loose (t : Text) : Prop where
  begins : t.head? ≠ some '_'
  behind_point : ∀ rest, t = '.' :: rest → rest.head? ≠ some '_'
  ends : t.getLast? ≠ some '_'
  single : t.IsChain fun a b => a = '_' → b ≠ '_'

variable {t u whole fraction exponent digits value : Text} {c : Char} {column : Nat}
  {tokens : List Token} {token last : Token} {kind : TokenKind}

/-! ### One token -/

theorem Scanned.ne_nil (h : Scanned column t tokens) : tokens ≠ [] := by
  induction h with
  | finish => nofun
  | layout _ _ ih => exact ih
  | token => nofun

-- Without layout, a token and the end are of the whole text.
theorem Scanned.span_eq (h : Scanned column t [token, last])
    (plain : ∀ c ∈ t, isLayout c = false) : token.span = t := by
  cases h with
  | layout layout _ =>
      rw [plain _ List.mem_cons_self] at layout
      contradiction
  | @token _ after _ _ behind =>
      cases after with
      | nil => rw [List.append_nil]
      | cons c rest =>
          -- Only a token can begin at what is left, and it would be a third one.
          have shown := plain c (by simp)
          generalize token.column + token.span.length = start at behind
          generalize same : c :: rest = after at behind
          cases behind with
          | finish => contradiction
          | layout layout _ =>
              cases same
              rw [shown] at layout
              contradiction
          | token _ behind => exact absurd rfl behind.ne_nil

theorem formed_of_scan (plain : ∀ c ∈ t, isLayout c = false) (h : scan t = .ok [token, last]) :
    Formed token.kind token.value t := by
  obtain ⟨inner, whole, formed⟩ := formed_of_scanFrom h
  obtain ⟨rfl, -⟩ : [token] = inner ∧ _ := List.append_inj' whole rfl
  have same := (scanned_of_scanFrom h).span_eq plain
  rw [← same]
  exact formed token List.mem_cons_self

theorem isRead_iff (plain : ∀ c ∈ t, isLayout c = false) :
    IsRead kind t ↔ ∃ value, Formed kind value t := by
  constructor
  · rintro ⟨token, last, scanned, rfl, -⟩
    exact ⟨token.value, formed_of_scan plain scanned⟩
  · rintro ⟨value, formed⟩
    have alone : ∀ d ∈ ([] : Text).head?, isLayout d = true := nofun
    obtain ⟨token, same, scanned⟩ := scanFrom_reading (formed.reading alone) 1
    rw [List.append_nil, scanFrom_nil] at scanned
    exact ⟨token, _, scanned, congrArg Symbol.kind same, rfl⟩

-- Only a number is of the kind of one.
theorem Formed.numberParts (h : Formed kind value t) (numeral : kind = .number ∨ kind = .float) :
    ∃ whole fraction exponent, t = whole ++ fraction ++ exponent ∧
      NumberParts whole fraction exponent ∧ value = joined t ∧
      (kind = .float ↔ fraction ≠ [] ∨ exponent ≠ []) := by
  have other (itself : isItself kind = true) : False := by
    obtain rfl | rfl := numeral <;> contradiction
  cases h with
  | word => exact absurd (isItself_wordKind _) other
  | operator listed => exact absurd (isItself_operator listed) other
  | text => split at numeral <;> simp at numeral
  | @number whole fraction exponent parts =>
      refine ⟨whole, fraction, exponent, rfl, parts, rfl, ?_⟩
      cases fraction <;> cases exponent <;> simp

theorem isRead_number_iff (plain : ∀ c ∈ t, isLayout c = false) :
    IsRead .number t ↔ NumberParts t [] [] := by
  rw [isRead_iff plain]
  constructor
  · rintro ⟨value, formed⟩
    obtain ⟨whole, fraction, exponent, rfl, parts, -, float⟩ := formed.numberParts (.inl rfl)
    have none : ¬ (fraction ≠ [] ∨ exponent ≠ []) := by simp [← float]
    obtain ⟨rfl, rfl⟩ : fraction = [] ∧ exponent = [] := by simpa using none
    simpa using parts
  · intro parts
    have formed := Formed.number parts
    simp only [List.append_nil] at formed
    exact ⟨_, formed⟩

theorem isRead_float_iff (plain : ∀ c ∈ t, isLayout c = false) :
    IsRead .float t ↔ ∃ whole fraction exponent, t = whole ++ fraction ++ exponent ∧
      NumberParts whole fraction exponent ∧ (fraction ≠ [] ∨ exponent ≠ []) := by
  rw [isRead_iff plain]
  constructor
  · rintro ⟨value, formed⟩
    obtain ⟨whole, fraction, exponent, rfl, parts, -, float⟩ := formed.numberParts (.inr rfl)
    exact ⟨whole, fraction, exponent, rfl, parts, float.mp rfl⟩
  · rintro ⟨whole, fraction, exponent, rfl, parts, float⟩
    have formed := Formed.number parts
    have pointed : (!fraction.isEmpty || !exponent.isEmpty) = true := by simpa using float
    rw [if_pos pointed] at formed
    exact ⟨_, formed⟩

/-! ### Characters of a number -/

theorem not_isLayout_of_mem (member : c ∈ numeralChars) : isLayout c = false := by
  have table : numeralChars.all (!isLayout ·) = true := by decide
  simpa using List.all_eq_true.mp table c member

theorem isDigit_eq (member : c ∈ numeralChars) : isDigit c = c.isDigit := by
  have table : numeralChars.all (fun c => isDigit c == c.isDigit) = true := by decide
  simpa using List.all_eq_true.mp table c member

theorem isGrouped_iff (member : c ∈ numeralChars) :
    isGrouped c = true ↔ c.isDigit = true ∨ c = '_' := by
  rw [isGrouped, isDigit_eq member, Bool.or_eq_true, beq_iff_eq]

theorem isDigit_of_plain (digit : c.isDigit = true) : isDigit c = true := by
  have decimal := isDecimal_of_isDigit digit
  rw [isDecimal] at decimal
  rw [isDigit, decimal, Bool.true_or]

theorem single_iff :
    hasDoubleUnderscore t = false ↔ t.IsChain fun a b => a = '_' → b ≠ '_' := by
  fun_induction hasDoubleUnderscore t with
  | case1 rest => simp [List.isChain_cons_cons]
  | case2 c rest other ih =>
      rw [ih, List.isChain_cons, iff_and_self]
      rintro - d first rfl rfl
      obtain ⟨rest, rfl⟩ := List.head?_eq_some_iff.mp first
      exact other rest rfl rfl
  | case3 => simp

theorem Separated.single (h : Separated t) : t.IsChain fun a b => a = '_' → b ≠ '_' :=
  h.inside.imp fun _ _ digit same => ne_underscore_of_isDigit (digit.1 same)

-- Between digits and underscores only, it is enough that no two underscores are together.
theorem Separated.of_single (begins : t.head? ≠ some '_') (ends : t.getLast? ≠ some '_')
    (single : t.IsChain fun a b => a = '_' → b ≠ '_')
    (made : ∀ c ∈ t, c.isDigit = true ∨ c = '_') : Separated t := by
  refine ⟨begins, ends, single.imp_of_mem_imp fun a b first next apart => ?_⟩
  refine ⟨fun same => ?_, fun same => ?_⟩
  · exact (made b next).resolve_right (apart same)
  · exact (made a first).resolve_right fun both => apart both same

theorem all_isGrouped (drawn : t ⊆ numeralChars) (made : ∀ c ∈ joined t, c.isDigit = true) :
    t.all isGrouped = true := by
  refine List.all_eq_true.mpr fun c member => (isGrouped_iff (drawn member)).mpr ?_
  by_cases same : c = '_'
  · exact .inr same
  · exact .inl (made c (List.mem_filter.mpr ⟨member, by simpa using same⟩))

theorem isDigit_of_mem_joined (drawn : t ⊆ numeralChars) (grouped : t.all isGrouped = true) :
    ∀ c ∈ joined t, c.isDigit = true := by
  intro c member
  obtain ⟨inside, other⟩ := List.mem_filter.mp member
  have made := (isGrouped_iff (drawn inside)).mp (List.all_eq_true.mp grouped c inside)
  exact made.resolve_right (by simpa using other)

/-! ### Integers -/

theorem hasLeadingZeros_iff {d : Char} {rest : Text} :
    hasLeadingZeros (d :: rest) = false ↔ d = '0' → ∀ c ∈ rest, c = '0' ∨ c = '_' := by
  by_cases zero : d = '0'
  · subst zero
    simp [hasLeadingZeros, or_iff_not_imp_left]
  · simp [hasLeadingZeros, zero]

theorem integerLiteral_of_numberParts (drawn : t ⊆ numeralChars) (parts : NumberParts t [] []) :
    IntegerLiteral t := by
  obtain ⟨d, rest, shown, starts⟩ := parts.starts
  have ends := parts.ends
  have single := parts.single
  simp only [List.append_nil] at shown ends single
  subst shown
  have made : ∀ c ∈ d :: rest, c.isDigit = true ∨ c = '_' := fun c member =>
    (isGrouped_iff (drawn member)).mp (List.all_eq_true.mp parts.grouped c member)
  have begins : (d :: rest).head? ≠ some '_' := by
    rintro ⟨⟩
    exact absurd starts (by simp [startsNumber, isDigit_eq (drawn List.mem_cons_self)])
  have separated := Separated.of_single begins ends (single_iff.mp single) made
  have digits := separated.digitPart (List.cons_ne_nil d rest) made
  by_cases zero : d = '0'
  · have zeros := hasLeadingZeros_iff.mp (parts.unpadded rfl rfl) zero
    exact .zero digits (List.forall_mem_cons.mpr ⟨.inl zero, zeros⟩)
  · exact .nonzero digits zero

theorem IntegerLiteral.digitPart (literal : IntegerLiteral t) : DigitPart t := by
  cases literal with
  | zero digits => exact digits
  | nonzero digits => exact digits

theorem IntegerLiteral.unpadded {d : Char} {rest : Text} (literal : IntegerLiteral (d :: rest)) :
    hasLeadingZeros (d :: rest) = false := by
  refine hasLeadingZeros_iff.mpr fun zero => ?_
  cases literal with
  | zero _ zeros => exact (List.forall_mem_cons.mp zeros).2
  | nonzero _ shown => exact absurd zero shown

theorem numberParts_of_integerLiteral (drawn : t ⊆ numeralChars) (literal : IntegerLiteral t) :
    NumberParts t [] [] := by
  have digits := literal.digitPart
  obtain ⟨d, rest, rfl, digit⟩ := digits.begins
  have separated := digits.separated
  have starts : startsNumber d rest = true := by
    rw [startsNumber, isDigit_of_plain digit, Bool.true_or]
  exact {
    grouped := all_isGrouped drawn ((digitPart_iff.mp digits).1.all_isDigit (not_mem_joined _))
    pointed := .inl rfl
    scaled := .inl rfl
    starts := ⟨d, rest, by simp, starts⟩
    ends := by simpa using separated.ends
    single := by simpa using single_iff.mpr separated.single
    unpadded := fun _ _ => literal.unpadded }

theorem numberParts_iff_integerLiteral (drawn : t ⊆ numeralChars) :
    NumberParts t [] [] ↔ IntegerLiteral t :=
  ⟨integerLiteral_of_numberParts drawn, numberParts_of_integerLiteral drawn⟩

/-! ### Floats -/

theorem scaleOf_append {front : Text} (unmarked : ∀ c ∈ front, c ≠ 'e' ∧ c ≠ 'E')
    (marked : ∀ c ∈ exponent.head?, c = 'e' ∨ c = 'E') :
    scaleOf (front ++ exponent) = exponent := by
  rw [scaleOf, List.dropWhile_append_of_pos (by simpa using unmarked)]
  cases exponent with
  | nil => rfl
  | cons c rest => exact List.dropWhile_cons_of_neg (by simpa [imp_iff_not_or] using marked c rfl)

-- Nothing, or a point and grouped digits.
def Pointed (fraction : Text) : Prop :=
  fraction = [] ∨ ∃ digits, fraction = '.' :: digits ∧ digits.all isGrouped = true

theorem unmarked_of_grouped (grouped : whole.all isGrouped = true) (pointed : Pointed fraction) :
    ∀ c ∈ whole ++ fraction, c ≠ 'e' ∧ c ≠ 'E' := by
  have other (c : Char) (h : isGrouped c = true) : c ≠ 'e' ∧ c ≠ 'E' := by
    refine ⟨?_, ?_⟩ <;>
    · rintro rfl
      exact absurd h (by decide)
  intro c member
  obtain front | behind := List.mem_append.mp member
  · exact other c (List.all_eq_true.mp grouped c front)
  · obtain rfl | ⟨digits, rfl, all⟩ := pointed
    · cases behind
    · obtain rfl | behind := List.mem_cons.mp behind
      · decide
      · exact other c (List.all_eq_true.mp all c behind)

theorem startsNumber_point {rest : Text} (starts : startsNumber '.' rest = true) :
    ∃ d more, rest = d :: more ∧ isDigit d = true := by
  have point : isDigit '.' = false := by decide
  cases rest with
  | nil => simp [startsNumber, point] at starts
  | cons d more => exact ⟨d, more, rfl, by simpa [startsNumber, point] using starts⟩

theorem not_isDigit_underscore : isDigit '_' = false := by
  decide

theorem digitPart_joined (inside : digits ⊆ numeralChars) (grouped : digits.all isGrouped = true)
    (begins : ∃ d rest, digits = d :: rest ∧ isDigit d = true) : DigitPart (joined digits) := by
  obtain ⟨d, rest, rfl, digit⟩ := begins
  rw [isDigit_eq (inside List.mem_cons_self)] at digit
  refine .of_all ?_ (isDigit_of_mem_joined inside grouped)
  rw [joined_cons (ne_underscore_of_isDigit digit)]
  nofun

namespace NumberParts

variable (parts : NumberParts whole fraction exponent)
  (drawn : whole ++ fraction ++ exponent ⊆ numeralChars)

include parts

theorem loose : Loose (whole ++ fraction ++ exponent) := by
  obtain ⟨c, rest, shown, starts⟩ := parts.starts
  refine ⟨?_, fun behind same first => ?_, parts.ends, single_iff.mp parts.single⟩
  · rw [shown]
    rintro ⟨⟩
    simp [startsNumber, not_isDigit_underscore] at starts
  · rw [shown] at same
    cases same
    obtain ⟨d, more, rfl, digit⟩ := startsNumber_point starts
    cases first
    rw [not_isDigit_underscore] at digit
    contradiction

theorem marked : ∀ c ∈ exponent.head?, c = 'e' ∨ c = 'E' := by
  obtain rfl | ⟨mark, sign, digits, rfl, marks, -⟩ := parts.scaled
  · nofun
  · rintro _ ⟨⟩
    exact marks

theorem not_startsNumber_exponent {c : Char} {rest : Text} (shown : exponent = c :: rest)
    (more : Text) : startsNumber c more = false := by
  subst shown
  obtain rfl | rfl := parts.marked c rfl <;> rfl

theorem whole_ne_nil (plain : fraction = []) : whole ≠ [] := by
  rintro rfl
  subst plain
  obtain ⟨c, rest, shown, starts⟩ := parts.starts
  rw [parts.not_startsNumber_exponent shown] at starts
  contradiction

theorem scaleOf_eq : scaleOf (whole ++ fraction ++ exponent) = exponent :=
  scaleOf_append (unmarked_of_grouped parts.grouped parts.pointed) parts.marked

include drawn

theorem scale : exponent = [] ∨ ScalePart exponent ∧ '_' ∉ exponent := by
  obtain rfl | ⟨mark, sign, digits, rfl, marks, signed, some_digit, all⟩ := parts.scaled
  · exact .inl rfl
  · have digit : ∀ c ∈ digits, c.isDigit = true := fun c member => by
      rw [← isDigit_eq (drawn (by simp [member]))]
      exact List.all_eq_true.mp all c member
    refine .inr ⟨.mk marks signed (.of_all some_digit digit), fun member => ?_⟩
    obtain rfl | member := List.mem_cons.mp member
    · simp at marks
    · obtain member | member := List.mem_append.mp member
      · obtain rfl | rfl | rfl := signed <;> simp at member
      · exact ne_underscore_of_isDigit (digit _ member) rfl

theorem whole_digits : whole = [] ∨ DigitPart (joined whole) := by
  obtain ⟨d, more, shown, starts⟩ := parts.starts
  have inside : whole ⊆ numeralChars := fun c member => drawn (by simp [member])
  have grouped := parts.grouped
  cases whole with
  | nil => exact .inl rfl
  | cons c rest =>
      obtain rfl : c = d := (List.cons.inj shown).1
      refine .inr (digitPart_joined inside grouped ⟨c, rest, rfl, ?_⟩)
      have point : c ≠ '.' := by
        rintro rfl
        exact absurd (List.all_eq_true.mp grouped '.' List.mem_cons_self) (by decide)
      simpa [startsNumber, point] using starts

-- With nothing in front of it, a point has digits behind it.
theorem fraction_digits (shown : fraction = '.' :: digits) :
    DigitPart (joined digits) ∨ joined digits = [] ∧ whole ≠ [] := by
  subst shown
  have inside : digits ⊆ numeralChars := fun c member => drawn (by simp [member])
  have grouped : digits.all isGrouped = true := by simpa using parts.pointed
  by_cases none : joined digits = []
  · refine .inr ⟨none, ?_⟩
    rintro rfl
    obtain ⟨c, rest, same, starts⟩ := parts.starts
    obtain ⟨rfl, behind⟩ := List.cons.inj same
    obtain ⟨d, more, rfl, digit⟩ := startsNumber_point starts
    cases digits with
    | nil =>
        have stops := parts.not_startsNumber_exponent behind []
        rw [startsNumber, digit] at stops
        contradiction
    | cons e digits =>
        obtain ⟨rfl, -⟩ := List.cons.inj behind
        exact (digitPart_joined inside grouped ⟨e, digits, rfl, digit⟩).ne_nil none
  · exact .inl (.of_all none (isDigit_of_mem_joined inside grouped))

theorem floatLiteral (float : fraction ≠ [] ∨ exponent ≠ []) :
    FloatLiteral (joined (whole ++ fraction ++ exponent)) := by
  have front : DigitPart (joined whole) ∧ fraction = [] ∨
      PointFloat (joined (whole ++ fraction)) := by
    have begins := parts.whole_digits drawn
    obtain rfl | ⟨digits, rfl, -⟩ := parts.pointed
    · exact .inl ⟨begins.resolve_left (parts.whole_ne_nil rfl), rfl⟩
    · rw [joined_append, joined_cons (by decide)]
      obtain behind | ⟨none, some_digit⟩ := parts.fraction_digits drawn rfl
      · refine .inr (.fraction (begins.imp_left ?_) behind)
        rintro rfl
        rfl
      · rw [none]
        exact .inr (.point (begins.resolve_left some_digit))
  obtain rfl | ⟨scale, plain⟩ := parts.scale drawn
  · rw [List.append_nil]
    obtain ⟨-, rfl⟩ | front := front
    · simp at float
    · exact .point front
  · rw [joined_append, joined_eq_self plain]
    refine .scaled ?_ scale
    obtain ⟨front, rfl⟩ | front := front
    · exact .inl (by rwa [List.append_nil])
    · exact .inr front

end NumberParts

theorem PointFloat.parts (h : PointFloat t) (plain : '_' ∉ t) :
    ∃ whole digits, t = whole ++ '.' :: digits ∧ (∀ c ∈ whole, c.isDigit = true) ∧
      ∀ c ∈ digits, c.isDigit = true := by
  cases h with
  | @fraction whole digits front behind =>
      refine ⟨whole, digits, rfl, ?_, behind.all_isDigit fun member => plain (by simp [member])⟩
      obtain rfl | front := front
      · nofun
      · exact front.all_isDigit fun member => plain (by simp [member])
  | @point whole front =>
      exact ⟨whole, [], rfl, front.all_isDigit fun member => plain (by simp [member]), nofun⟩

theorem cut_of_pointFloat (drawn : t ⊆ numeralChars) (h : PointFloat (joined t)) :
    ∃ whole digits, t = whole ++ '.' :: digits ∧ whole.all isGrouped = true ∧
      digits.all isGrouped = true := by
  obtain ⟨_, _, shown, before, after⟩ := h.parts (not_mem_joined t)
  obtain ⟨whole, back, rfl, rfl, rest, apart⟩ := cut_of_joined shown
  obtain ⟨digits, rfl, rfl⟩ := cons_of_joined apart rest
  exact ⟨whole, digits, rfl, all_isGrouped (fun c member => drawn (by simp [member])) before,
    all_isGrouped (fun c member => drawn (by simp [member])) after⟩

theorem cut_of_floatLiteral (drawn : t ⊆ numeralChars) (h : FloatLiteral (joined t))
    (plain : '_' ∉ scaleOf t) :
    ∃ whole fraction exponent, t = whole ++ fraction ++ exponent ∧ whole.all isGrouped = true ∧
      Pointed fraction ∧ (exponent = [] ∨ ScalePart exponent ∧ '_' ∉ exponent) ∧
      (fraction ≠ [] ∨ exponent ≠ []) := by
  generalize shown : joined t = u at h
  cases h with
  | point number =>
      subst shown
      obtain ⟨whole, digits, rfl, grouped, all⟩ := cut_of_pointFloat drawn number
      have pointed : Pointed ('.' :: digits) := .inr ⟨digits, rfl, all⟩
      exact ⟨whole, _, [], (List.append_nil _).symm, grouped, pointed, .inl rfl, .inl nofun⟩
  | scaled number behind =>
      obtain ⟨front, scale, rfl, rfl, rfl, apart⟩ := cut_of_joined shown
      have inside : front ⊆ numeralChars := fun c member => drawn (List.mem_append_left _ member)
      obtain ⟨whole, fraction, rfl, grouped, pointed⟩ : ∃ whole fraction,
          front = whole ++ fraction ∧ whole.all isGrouped = true ∧ Pointed fraction := by
        obtain number | number := number
        · have all := all_isGrouped inside (number.all_isDigit (not_mem_joined front))
          exact ⟨front, [], by simp, all, .inl rfl⟩
        · obtain ⟨whole, digits, rfl, grouped, all⟩ := cut_of_pointFloat inside number
          exact ⟨whole, _, rfl, grouped, .inr ⟨digits, rfl, all⟩⟩
      obtain ⟨mark, rest, same, marks⟩ := behind.begins
      rw [scaleOf_append (unmarked_of_grouped grouped pointed)] at plain
      · rw [joined_eq_self plain] at behind same
        have shown : scale ≠ [] := by simp [same]
        exact ⟨whole, fraction, scale, rfl, grouped, pointed, .inr ⟨behind, plain⟩, .inr shown⟩
      · intro c first
        rw [← head?_joined apart, same] at first
        cases first
        exact marks

-- Begins with a digit, or with a point and one.
def BeginsNumber (t : Text) : Prop :=
  ∃ c rest, t = c :: rest ∧
    (c.isDigit = true ∨ c = '.' ∧ ∃ d more, rest = d :: more ∧ d.isDigit = true)

theorem DigitPart.beginsNumber (h : DigitPart t) (behind : Text) : BeginsNumber (t ++ behind) := by
  obtain ⟨c, rest, rfl, digit⟩ := h.begins
  exact ⟨c, rest ++ behind, rfl, .inl digit⟩

theorem PointFloat.beginsNumber (h : PointFloat t) (behind : Text) :
    BeginsNumber (t ++ behind) := by
  cases h with
  | fraction front after =>
      obtain rfl | front := front
      · obtain ⟨d, more, rfl, digit⟩ := after.begins
        exact ⟨'.', _, rfl, .inr ⟨rfl, d, _, rfl, digit⟩⟩
      · rw [List.append_assoc]
        exact front.beginsNumber _
  | point front =>
      rw [List.append_assoc]
      exact front.beginsNumber _

theorem FloatLiteral.beginsNumber (h : FloatLiteral t) : BeginsNumber t := by
  cases h with
  | point number =>
      rw [← List.append_nil t]
      exact number.beginsNumber []
  | scaled number => exact number.elim (·.beginsNumber _) (·.beginsNumber _)

theorem Loose.startsNumber (h : Loose t) (literal : FloatLiteral (joined t)) :
    ∃ c rest, t = c :: rest ∧ startsNumber c rest = true := by
  obtain ⟨c, more, shown, starts⟩ := literal.beginsNumber
  obtain ⟨rest, rfl, rfl⟩ := cons_of_joined h.begins shown
  refine ⟨c, rest, rfl, ?_⟩
  obtain digit | ⟨rfl, d, more, shown, digit⟩ := starts
  · simp [Token.startsNumber, isDigit_of_plain digit]
  · obtain ⟨rest, rfl, -⟩ := cons_of_joined (h.behind_point _ rfl) shown
    simp [Token.startsNumber, isDigit_of_plain digit]

theorem numberParts_of_loose (loose : Loose (whole ++ fraction ++ exponent))
    (literal : FloatLiteral (joined (whole ++ fraction ++ exponent)))
    (grouped : whole.all isGrouped = true) (pointed : Pointed fraction)
    (scaled : exponent = [] ∨ ScalePart exponent ∧ '_' ∉ exponent)
    (float : fraction ≠ [] ∨ exponent ≠ []) : NumberParts whole fraction exponent where
  grouped := grouped
  pointed := pointed
  scaled := by
    refine scaled.imp_right ?_
    rintro ⟨@⟨mark, sign, digits, marks, signed, behind⟩, plain⟩
    have all := behind.all_isDigit fun member => plain (by simp [member])
    exact ⟨mark, sign, digits, rfl, marks, signed, behind.ne_nil,
      List.all_eq_true.mpr fun c member => isDigit_of_plain (all c member)⟩
  starts := loose.startsNumber literal
  ends := loose.ends
  single := single_iff.mpr loose.single
  unpadded no_fraction no_exponent := by simp [no_fraction, no_exponent] at float

theorem numberParts_iff_floatLiteral (drawn : t ⊆ numeralChars) :
    (∃ whole fraction exponent, t = whole ++ fraction ++ exponent ∧
      NumberParts whole fraction exponent ∧ (fraction ≠ [] ∨ exponent ≠ [])) ↔
    FloatLiteral (joined t) ∧ Loose t ∧ '_' ∉ scaleOf t := by
  constructor
  · rintro ⟨whole, fraction, exponent, rfl, parts, float⟩
    refine ⟨parts.floatLiteral drawn float, parts.loose, ?_⟩
    rw [parts.scaleOf_eq]
    obtain rfl | ⟨-, plain⟩ := parts.scale drawn
    · nofun
    · exact plain
  · rintro ⟨literal, loose, plain⟩
    -- The parts of the literal are parts of the text, each with the underscores behind it.
    obtain ⟨whole, fraction, exponent, rfl, grouped, pointed, scaled, float⟩ :=
      cut_of_floatLiteral drawn literal plain
    have parts := numberParts_of_loose loose literal grouped pointed scaled float
    exact ⟨whole, fraction, exponent, rfl, parts, float⟩

theorem Separated.loose (h : Separated t) : Loose t where
  begins := h.begins
  behind_point rest same := by
    subst same
    exact (h.tail rfl).begins
  ends := h.ends
  single := h.single

/-- Alone in a text of numeral characters, an integer is read exactly if it is a literal. A float is
read exactly if it is a literal without its underscores, none of these is in the exponent, and those
in front of it are loose. So of the literals those with an underscore in the exponent are not read,
and what is read is a literal exactly if its underscores separate its digits. The value of a number
is its text without underscores. -/
theorem numerals_against_grammar (drawn : t ⊆ numeralChars) :
    (IsRead .number t ↔ IntegerLiteral t) ∧
    (IsRead .float t ↔ FloatLiteral (joined t) ∧ Loose t ∧ '_' ∉ scaleOf t) ∧
    (FloatLiteral t → (IsRead .float t ↔ '_' ∉ scaleOf t)) ∧
    (IsRead .float t → (FloatLiteral t ↔ Separated t)) ∧
    ∀ token last, scan t = .ok [token, last] → token.kind = .number ∨ token.kind = .float →
      token.value = joined t := by
  have plain : ∀ c ∈ t, isLayout c = false := fun c member => not_isLayout_of_mem (drawn member)
  have float : IsRead .float t ↔ FloatLiteral (joined t) ∧ Loose t ∧ '_' ∉ scaleOf t :=
    (isRead_float_iff plain).trans (numberParts_iff_floatLiteral drawn)
  refine ⟨(isRead_number_iff plain).trans (numberParts_iff_integerLiteral drawn), float, ?_, ?_, ?_⟩
  · intro literal
    obtain ⟨joins, separated⟩ := floatLiteral_iff.mp literal
    simp [float, joins, separated.loose]
  · intro read
    exact floatLiteral_iff.trans (and_iff_right (float.mp read).1)
  · intro token last scanned numeral
    obtain ⟨_, _, _, -, -, value, -⟩ := (formed_of_scan plain scanned).numberParts numeral
    exact value

-- A literal with an underscore in its exponent is not read; an underscore at a point is read.
theorem numerals_against_grammar_scale :
    "1e1_0".toList ⊆ numeralChars ∧ FloatLiteral "1e1_0".toList ∧ ¬ IsRead .float "1e1_0".toList ∧
    IsRead .float "1_.5".toList ∧ ¬ FloatLiteral "1_.5".toList := by
  have drawn : "1e1_0".toList ⊆ numeralChars := by decide
  have one : DigitPart ['1'] := .single rfl
  have literal : FloatLiteral "1e1_0".toList :=
    .scaled (.inl one) (.mk (.inl rfl) (.inl rfl) (.grouped rfl (.single rfl)))
  obtain ⟨-, -, refused, -⟩ := numerals_against_grammar drawn
  obtain ⟨-, accepted, -, exact, -⟩ := numerals_against_grammar (t := "1_.5".toList) (by decide)
  have joins : FloatLiteral (joined "1_.5".toList) := .point (.fraction (.inr one) (.single rfl))
  have loose : Loose "1_.5".toList := ⟨by decide, by simp, by decide, by decide⟩
  have read : IsRead .float "1_.5".toList := accepted.mpr ⟨joins, loose, by decide⟩
  refine ⟨drawn, literal, (refused literal).not.mpr (by decide), read, (exact read).not.mpr ?_⟩
  exact fun separated => absurd separated.inside (by decide)

end Snippet.Token
