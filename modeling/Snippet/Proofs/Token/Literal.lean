import Mathlib.Data.List.Chain
import Mathlib.Data.List.Induction
import Snippet.Token.Scan

/-!
The grammar of decimal numbers. Digits stand in groups with single underscores between them; an
integer has no zero in front unless it is zero; a float has a point, an exponent, or both. A text is
such a number exactly if it is one without its underscores and each of these is between two digits.
-/

set_option autoImplicit false

namespace Snippet.Token

/-- Digits, with at most one underscore between two of them. -/
inductive DigitPart : Text → Prop
  | single {d : Char} (digit : d.isDigit = true) : DigitPart [d]
  | next {d : Char} {rest : Text} (digit : d.isDigit = true) (more : DigitPart rest) :
      DigitPart (d :: rest)
  | grouped {d : Char} {rest : Text} (digit : d.isDigit = true) (more : DigitPart rest) :
      DigitPart (d :: '_' :: rest)

inductive IntegerLiteral : Text → Prop
  | zero {t : Text} (digits : DigitPart t) (zeros : ∀ c ∈ t, c = '0' ∨ c = '_') : IntegerLiteral t
  | nonzero {d : Char} {rest : Text} (digits : DigitPart (d :: rest)) (shown : d ≠ '0') :
      IntegerLiteral (d :: rest)

inductive PointFloat : Text → Prop
  | fraction {whole digits : Text} (front : whole = [] ∨ DigitPart whole)
      (behind : DigitPart digits) : PointFloat (whole ++ '.' :: digits)
  | point {whole : Text} (front : DigitPart whole) : PointFloat (whole ++ ['.'])

inductive ScalePart : Text → Prop
  | mk {mark : Char} {sign digits : Text} (marks : mark = 'e' ∨ mark = 'E')
      (signed : sign = [] ∨ sign = ['+'] ∨ sign = ['-']) (behind : DigitPart digits) :
      ScalePart (mark :: (sign ++ digits))

inductive FloatLiteral : Text → Prop
  | point {t : Text} (number : PointFloat t) : FloatLiteral t
  | scaled {front scale : Text} (number : DigitPart front ∨ PointFloat front)
      (behind : ScalePart scale) : FloatLiteral (front ++ scale)

/-- A text without its underscores. -/
def joined (t : Text) : Text :=
  t.filter (· != '_')

/-- Each underscore is between two digits. -/
structure Separated (t : Text) : Prop where
  begins : t.head? ≠ some '_'
  ends : t.getLast? ≠ some '_'
  inside : t.IsChain fun a b => (a = '_' → b.isDigit = true) ∧ (b = '_' → a.isDigit = true)

variable {t u a b : Text} {c : Char}

theorem ne_underscore_of_isDigit (digit : c.isDigit = true) : c ≠ '_' := by
  rintro rfl
  contradiction

/-! ### Without underscores -/

@[simp] theorem joined_append (a b : Text) : joined (a ++ b) = joined a ++ joined b :=
  List.filter_append ..

theorem joined_cons (other : c ≠ '_') (rest : Text) : joined (c :: rest) = c :: joined rest :=
  List.filter_cons_of_pos (by simpa using other)

theorem joined_eq_self (plain : '_' ∉ t) : joined t = t :=
  List.filter_eq_self.mpr fun _ member => bne_iff_ne.mpr (ne_of_mem_of_not_mem member plain)

theorem not_mem_joined (t : Text) : '_' ∉ joined t := by
  simp [joined]

theorem head?_joined (begins : t.head? ≠ some '_') : (joined t).head? = t.head? := by
  cases t with
  | nil => rfl
  | cons c rest => rw [joined_cons (by simpa using begins)]; rfl

theorem eq_nil_of_joined (begins : t.head? ≠ some '_') (none : joined t = []) : t = [] := by
  rw [← List.head?_eq_none_iff, ← head?_joined begins, none, List.head?_nil]

theorem cons_of_joined (begins : t.head? ≠ some '_') (shown : joined t = c :: u) :
    ∃ rest, t = c :: rest ∧ joined rest = u := by
  cases t with
  | nil => contradiction
  | cons d rest =>
      rw [joined_cons (by simpa using begins)] at shown
      obtain ⟨rfl, rfl⟩ := List.cons.inj shown
      exact ⟨rest, rfl, rfl⟩

-- Where a text is cut without its underscores, it is cut with them; those at the cut go in front.
theorem cut_of_joined (h : joined t = a ++ b) :
    ∃ front back, t = front ++ back ∧ joined front = a ∧ joined back = b ∧
      back.head? ≠ some '_' := by
  induction t generalizing a with
  | nil =>
      obtain ⟨rfl, rfl⟩ := List.append_eq_nil_iff.mp h.symm
      exact ⟨[], [], rfl, rfl, rfl, nofun⟩
  | cons c rest ih =>
      by_cases same : c = '_'
      · subst same
        obtain ⟨front, back, rfl, rfl, rfl, apart⟩ := ih h
        exact ⟨'_' :: front, back, rfl, rfl, rfl, apart⟩
      · cases a with
        | nil => exact ⟨[], c :: rest, rfl, rfl, h, by simpa using same⟩
        | cons d a =>
            rw [joined_cons same] at h
            obtain ⟨rfl, later⟩ := List.cons.inj h
            obtain ⟨front, back, rfl, rfl, rfl, apart⟩ := ih later
            exact ⟨c :: front, back, rfl, joined_cons same front, rfl, apart⟩

/-! ### Underscores between digits -/

namespace Separated

theorem singleton (other : c ≠ '_') : Separated [c] :=
  ⟨by simpa using other, by simpa using other, List.isChain_singleton c⟩

theorem append (front : Separated a) (back : Separated b) : Separated (a ++ b) := by
  refine ⟨?_, ?_, front.inside.append back.inside fun x last y first => ⟨?_, ?_⟩⟩
  · cases a with
    | nil => exact back.begins
    | cons => exact front.begins
  · rw [List.getLast?_append]
    cases last : b.getLast? with
    | none => exact front.ends
    | some d => simpa [last] using back.ends
  · rintro rfl
    exact absurd last front.ends
  · rintro rfl
    exact absurd first back.begins

theorem cons (other : c ≠ '_') (h : Separated t) : Separated (c :: t) :=
  (singleton other).append h

theorem grouped {d : Char} (digit : c.isDigit = true) (next : d.isDigit = true)
    (h : Separated (d :: t)) : Separated (c :: '_' :: d :: t) := by
  refine ⟨by simpa using ne_underscore_of_isDigit digit, by simpa using h.ends, ?_⟩
  simp [List.isChain_cons_cons, digit, next, ne_underscore_of_isDigit, h.inside]

theorem back (h : Separated (a ++ b)) (begins : b.head? ≠ some '_') : Separated b := by
  refine ⟨begins, fun last => h.ends ?_, h.inside.right_of_append⟩
  rw [List.getLast?_append, last, Option.some_or]

theorem tail (h : Separated (c :: t)) (other : c.isDigit = false) : Separated t := by
  refine back (a := [c]) h fun first => ?_
  have digit := (List.isChain_cons.mp h.inside).1 '_' first
  rw [digit.2 rfl] at other
  contradiction

-- What is in front of no digit ends in no underscore.
theorem front (h : Separated (a ++ b)) (stops : ∀ d ∈ b.head?, d.isDigit = false) :
    Separated a := by
  refine ⟨fun first => h.begins ?_, fun last => ?_, h.inside.left_of_append⟩
  · rw [List.head?_append, first, Option.some_or]
  · cases b with
    | nil => exact h.ends (by rwa [List.append_nil])
    | cons d rest =>
        have digit := ((List.isChain_append.mp h.inside).2.2 '_' last d rfl).1 rfl
        rw [stops d rfl] at digit
        contradiction

theorem eq_nil (h : Separated t) (none : joined t = []) : t = [] :=
  eq_nil_of_joined h.begins none

theorem digitPart (h : Separated t) (some_digit : t ≠ [])
    (made : ∀ c ∈ t, c.isDigit = true ∨ c = '_') : DigitPart t := by
  -- A digit has behind it a part of its own, or an underscore and then one.
  induction t using List.twoStepInduction with
  | nil => exact absurd rfl some_digit
  | singleton d =>
      have other : d ≠ '_' := by simpa using h.begins
      exact .single ((made d (by simp)).resolve_right other)
  | cons_cons d e rest two one =>
      have other : d ≠ '_' := by simpa using h.begins
      have digit := (made d (by simp)).resolve_right other
      obtain next | rfl := made e (by simp)
      · have behind : Separated (e :: rest) :=
          back (a := [d]) h (by simpa using ne_underscore_of_isDigit next)
        exact .next digit (one e behind nofun (List.forall_mem_cons.mp made).2)
      · obtain _ | ⟨f, more⟩ := rest
        · exact absurd rfl h.ends
        · have next : f.isDigit = true := by
            have := h.inside
            simp only [List.isChain_cons_cons] at this
            exact this.2.1.1 trivial
          have behind : Separated (f :: more) :=
            back (a := [d, '_']) h (by simpa using ne_underscore_of_isDigit next)
          exact .grouped digit (two behind nofun fun c member => made c (by simp [member]))

end Separated

/-! ### Parts of a number -/

namespace DigitPart

theorem begins (h : DigitPart t) : ∃ d rest, t = d :: rest ∧ d.isDigit = true := by
  cases h with
  | single digit => exact ⟨_, _, rfl, digit⟩
  | next digit => exact ⟨_, _, rfl, digit⟩
  | grouped digit => exact ⟨_, _, rfl, digit⟩

theorem ne_nil (h : DigitPart t) : t ≠ [] := by
  obtain ⟨d, rest, rfl, -⟩ := h.begins
  nofun

theorem made (h : DigitPart t) : ∀ c ∈ t, c.isDigit = true ∨ c = '_' := by
  induction h with
  | single digit => simp [digit]
  | next digit _ ih => simpa [digit] using ih
  | grouped digit _ ih => simpa [digit] using ih

theorem separated (h : DigitPart t) : Separated t := by
  induction h with
  | single digit => exact .singleton (ne_underscore_of_isDigit digit)
  | next digit _ ih => exact ih.cons (ne_underscore_of_isDigit digit)
  | grouped digit more ih =>
      obtain ⟨d, rest, rfl, next⟩ := more.begins
      exact ih.grouped digit next

theorem of_all (some_digit : t ≠ []) (all : ∀ c ∈ t, c.isDigit = true) : DigitPart t := by
  induction t with
  | nil => exact absurd rfl some_digit
  | cons d rest ih =>
      obtain ⟨digit, later⟩ := List.forall_mem_cons.mp all
      obtain rfl | more := eq_or_ne rest []
      · exact .single digit
      · exact .next digit (ih more later)

theorem all_isDigit (h : DigitPart t) (plain : '_' ∉ t) : ∀ c ∈ t, c.isDigit = true :=
  fun c member => (h.made c member).resolve_right (ne_of_mem_of_not_mem member plain)

end DigitPart

theorem digitPart_iff : DigitPart t ↔ DigitPart (joined t) ∧ Separated t := by
  refine ⟨fun h => ⟨.of_all ?_ fun c member => ?_, h.separated⟩, fun ⟨h, separated⟩ => ?_⟩
  · exact fun none => h.ne_nil (h.separated.eq_nil none)
  · obtain ⟨inside, other⟩ := List.mem_filter.mp member
    exact (h.made c inside).resolve_right (by simpa using other)
  · refine separated.digitPart ?_ fun c member => ?_
    · rintro rfl
      exact h.ne_nil rfl
    · by_cases same : c = '_'
      · exact .inr same
      · exact h.made c (List.mem_filter.mpr ⟨member, by simpa using same⟩)

theorem pointFloat_iff : PointFloat t ↔ PointFloat (joined t) ∧ Separated t := by
  have point : '.' ≠ '_' := by decide
  constructor
  · rintro (⟨front, behind⟩ | ⟨front⟩)
    · obtain ⟨digits, separated⟩ := digitPart_iff.mp behind
      rw [joined_append, joined_cons point]
      obtain rfl | front := front
      · exact ⟨.fraction (.inl rfl) digits, separated.cons point⟩
      · obtain ⟨whole, before⟩ := digitPart_iff.mp front
        exact ⟨.fraction (.inr whole) digits, before.append (separated.cons point)⟩
    · obtain ⟨whole, before⟩ := digitPart_iff.mp front
      rw [joined_append, joined_cons point]
      exact ⟨.point whole, before.append (.singleton point)⟩
  · rintro ⟨h, separated⟩
    -- The point stands at one place of the joined text; the underscores lie on either side of it.
    generalize shown : joined t = u at h
    cases h with
    | fraction front behind =>
        obtain ⟨whole, back, rfl, rfl, after, apart⟩ := cut_of_joined shown
        obtain ⟨digits, rfl, rfl⟩ := cons_of_joined apart after
        have before := separated.front (by rintro _ ⟨⟩; rfl)
        refine .fraction (front.imp before.eq_nil fun front => digitPart_iff.mpr ⟨front, before⟩)
          (digitPart_iff.mpr ⟨behind, (separated.back apart).tail rfl⟩)
    | point front =>
        obtain ⟨whole, back, rfl, rfl, after, apart⟩ := cut_of_joined shown
        obtain ⟨digits, rfl, none⟩ := cons_of_joined apart after
        have before := separated.front (by rintro _ ⟨⟩; rfl)
        obtain rfl := ((separated.back apart).tail rfl).eq_nil none
        exact .point (digitPart_iff.mpr ⟨front, before⟩)

theorem ScalePart.begins (h : ScalePart t) : ∃ mark rest, t = mark :: rest ∧
    (mark = 'e' ∨ mark = 'E') := by
  obtain ⟨marks, -, -⟩ := h
  exact ⟨_, _, rfl, marks⟩

theorem not_isDigit_of_mark (marks : c = 'e' ∨ c = 'E') : c.isDigit = false := by
  obtain rfl | rfl := marks <;> rfl

theorem ne_underscore_of_mark (marks : c = 'e' ∨ c = 'E') : c ≠ '_' := by
  obtain rfl | rfl := marks <;> decide

theorem scalePart_iff : ScalePart t ↔ ScalePart (joined t) ∧ Separated t := by
  constructor
  · rintro ⟨marks, signed, behind⟩
    obtain ⟨digits, separated⟩ := digitPart_iff.mp behind
    have other := ne_underscore_of_mark marks
    rw [joined_cons other, joined_append]
    obtain rfl | rfl | rfl := signed
    · exact ⟨.mk marks (.inl rfl) digits, separated.cons other⟩
    · exact ⟨.mk marks (.inr (.inl rfl)) digits, (separated.cons (by decide)).cons other⟩
    · exact ⟨.mk marks (.inr (.inr rfl)) digits, (separated.cons (by decide)).cons other⟩
  · rintro ⟨h, separated⟩
    generalize shown : joined t = u at h
    obtain @⟨mark, sign, digits, marks, signed, behind⟩ := h
    obtain ⟨rest, rfl, after⟩ := cons_of_joined separated.begins shown
    have later := separated.tail (not_isDigit_of_mark marks)
    by_cases unsigned : sign = []
    · subst unsigned
      obtain rfl : joined rest = digits := after
      exact .mk marks signed (digitPart_iff.mpr ⟨behind, later⟩)
    · obtain ⟨s, rfl, not_digit⟩ : ∃ s, sign = [s] ∧ s.isDigit = false := by
        obtain rfl | rfl := signed.resolve_left unsigned
        · exact ⟨'+', rfl, rfl⟩
        · exact ⟨'-', rfl, rfl⟩
      obtain ⟨digits, rfl, rfl⟩ := cons_of_joined later.begins after
      exact .mk marks signed (digitPart_iff.mpr ⟨behind, later.tail not_digit⟩)

/-- A float is one without its underscores, and these separate its digits. -/
theorem floatLiteral_iff : FloatLiteral t ↔ FloatLiteral (joined t) ∧ Separated t := by
  constructor
  · rintro (number | ⟨number, behind⟩)
    · obtain ⟨number, separated⟩ := pointFloat_iff.mp number
      exact ⟨.point number, separated⟩
    · obtain ⟨scale, after⟩ := scalePart_iff.mp behind
      rw [joined_append]
      obtain number | number := number
      · obtain ⟨digits, before⟩ := digitPart_iff.mp number
        exact ⟨.scaled (.inl digits) scale, before.append after⟩
      · obtain ⟨number, before⟩ := pointFloat_iff.mp number
        exact ⟨.scaled (.inr number) scale, before.append after⟩
  · rintro ⟨h, separated⟩
    generalize shown : joined t = u at h
    cases h with
    | point number => exact .point (pointFloat_iff.mpr ⟨shown ▸ number, separated⟩)
    | scaled number behind =>
        obtain ⟨front, scale, rfl, rfl, rfl, apart⟩ := cut_of_joined shown
        have before : Separated front := separated.front fun d first => by
          obtain ⟨mark, rest, same, marks⟩ := behind.begins
          rw [← head?_joined apart, same] at first
          cases first
          exact not_isDigit_of_mark marks
        exact .scaled (number.imp (fun number => digitPart_iff.mpr ⟨number, before⟩)
          fun number => pointFloat_iff.mpr ⟨number, before⟩)
          (scalePart_iff.mpr ⟨behind, separated.back apart⟩)

end Snippet.Token
