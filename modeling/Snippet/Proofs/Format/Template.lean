import Snippet.Format.Spec
import Snippet.Format.Template
import Snippet.Proofs.Number.Digits
import Snippet.Proofs.Eval.Free

/-!
How the directives of a template are written, whatever values they are filled with: an optional
key, flags, a width and a precision, each spelled out or taken from the values, and a code. A
template in which no four decimals stand in a row spells out no size of more than three digits.
-/

set_option autoImplicit false

namespace Snippet.Format

open Eval (Yields)

/-- More than three decimals stand in a row. -/
def HasLongRun (t : Text) : Prop :=
  ∃ run, run <:+: t ∧ (∀ c ∈ run, isDecimal c = true) ∧ 3 < run.length

section LongRun

variable {t : Text}

-- A run of so many decimals is continued by those at the start of a text.
def Continues (before : Nat) (t : Text) : Prop :=
  ∃ run, run <+: t ∧ (∀ c ∈ run, isDecimal c = true) ∧ 3 < before + run.length

theorem Continues.hasLongRun (run : Continues 0 t) : HasLongRun t := by
  obtain ⟨digits, starts, decimal, long⟩ := run
  exact ⟨digits, starts.isInfix, decimal, by omega⟩

theorem Continues.mono {before more : Nat} (run : Continues before t) (le : before ≤ more) :
    Continues more t := by
  obtain ⟨digits, starts, decimal, long⟩ := run
  exact ⟨digits, starts, decimal, by omega⟩

theorem continues_cons {before : Nat} {c : Char} {rest : Text} :
    Continues before (c :: rest) ↔
      3 < before ∨ isDecimal c = true ∧ Continues (before + 1) rest := by
  constructor
  · rintro ⟨run, starts, decimal, long⟩
    obtain rfl | ⟨more, rfl, behind⟩ := List.prefix_cons_iff.mp starts
    · exact .inl long
    · obtain ⟨here, later⟩ := List.forall_mem_cons.mp decimal
      rw [List.length_cons] at long
      exact .inr ⟨here, more, behind, later, by omega⟩
  · rintro (long | ⟨here, run, starts, later, long⟩)
    · exact ⟨[], List.nil_prefix, nofun, long⟩
    · refine ⟨c :: run, List.cons_prefix_cons.mpr ⟨rfl, starts⟩,
        List.forall_mem_cons.mpr ⟨here, later⟩, ?_⟩
      rw [List.length_cons]
      omega

theorem hasLongRun_cons {c : Char} {rest : Text} :
    HasLongRun (c :: rest) ↔ Continues 0 (c :: rest) ∨ HasLongRun rest := by
  simp only [HasLongRun, Continues, List.infix_cons_iff, or_and_right, exists_or, Nat.zero_add]

theorem longRun_iff (before : Nat) (t : Text) :
    hasLongNumber.longRun before t = true ↔ Continues before t ∨ HasLongRun t := by
  induction t generalizing before with
  | nil => simp [hasLongNumber.longRun, Continues, HasLongRun, Nat.succ_le_iff]
  | cons c rest ih =>
      rw [hasLongNumber.longRun, Bool.or_eq_true, ih, hasLongRun_cons, continues_cons,
        continues_cons, decide_eq_true_iff, ge_iff_le, Nat.succ_le_iff]
      have widen (run : Continues 1 rest) : Continues (before + 1) rest := run.mono (by omega)
      have short : ¬ 3 < 0 := by decide
      by_cases decimal : isDecimal c = true
      · rw [if_pos decimal]
        tauto
      · have run (fresh : Continues 0 rest) : HasLongRun rest := fresh.hasLongRun
        rw [if_neg decimal]
        tauto

theorem hasLongNumber_iff : hasLongNumber t = true ↔ HasLongRun t := by
  rw [hasLongNumber, longRun_iff]
  exact ⟨fun run => run.elim Continues.hasLongRun id, .inr⟩

end LongRun

/-- A size of a directive: spelled out, or taken from the values. -/
inductive Size where
  | literal (digits : Text)
  | taken
  deriving Repr, DecidableEq

/-- A directive as it is written. -/
structure Specifier where
  key : Option Text
  width : Option Size
  precision : Option Size
  code : Char
  deriving Repr, DecidableEq

def splitSize (t : Text) : Option Size × Text :=
  match t with
  | '*' :: rest => (some .taken, rest)
  | _ =>
      match t.takeWhile Char.isDigit with
      | [] => (none, t)
      | digits => (some (.literal digits), t.drop digits.length)

/-- A full stop, then a size, which may be left out. -/
def splitPoint (t : Text) : Option Size × Text :=
  match t with
  | '.' :: rest => splitSize rest
  | _ => (none, t)

def splitName? (t : Text) : Option (Option Text × Text) :=
  match t with
  | '(' :: rest => (splitKey? 0 rest).map fun (key, after) => (some key, after)
  | _ => some (none, t)

/-- The directive behind a percent sign, and what follows it. -/
def specifier? (t : Text) : Option (Specifier × Text) := do
  let (key, t) ← splitName? t
  let (width, t) := splitSize (readFlags .plain t).2
  let (precision, t) := splitPoint t
  match dropLengthMark t with
  | [] => none
  | code :: rest => some (⟨key, width, precision, code⟩, rest)

def specifiersFrom : Nat → Text → List Specifier
  | 0, _ => []
  | turns + 1, t =>
      match t with
      | [] => []
      | '%' :: '%' :: rest => specifiersFrom turns rest
      | '%' :: rest =>
          match specifier? rest with
          | some (specifier, rest) => specifier :: specifiersFrom turns rest
          | none => []
      | _ => specifiersFrom turns (t.dropWhile (· != '%'))

/-- The directives of a template, up to one that is broken off. -/
def specifiers (t : Text) : List Specifier :=
  specifiersFrom (t.length + 1) t

/-- The digits of the sizes that a directive spells out. -/
def Specifier.literals (s : Specifier) : List Text :=
  [s.width, s.precision].filterMap fun size =>
    match size with
    | some (.literal digits) => some digits
    | _ => none

section Written

variable {t rest : Text}

theorem readFlags_suffix (d : Directive) (t : Text) : (readFlags d t).2 <:+ t := by
  fun_induction readFlags d t with
  | case1 _ _ ih | case2 _ _ ih | case3 _ _ ih | case4 _ _ ih | case5 _ _ ih =>
      exact ih.trans (List.suffix_cons ..)
  | case6 => exact List.suffix_rfl

theorem splitKey?_suffix {depth : Nat} {key : Text} (h : splitKey? depth t = some (key, rest)) :
    rest <:+ t := by
  induction t generalizing depth key with
  | nil => contradiction
  | cons c t ih =>
      rw [splitKey?] at h
      split at h
      · cases h
        exact List.suffix_cons ..
      · obtain ⟨⟨more, after⟩, found, same⟩ := Option.map_eq_some_iff.mp h
        cases same
        exact (ih found).trans (List.suffix_cons ..)

theorem splitName?_suffix {key : Option Text} (h : splitName? t = some (key, rest)) :
    rest <:+ t := by
  unfold splitName? at h
  split at h
  · obtain ⟨⟨name, after⟩, found, same⟩ := Option.map_eq_some_iff.mp h
    cases same
    exact (splitKey?_suffix found).trans (List.suffix_cons ..)
  · cases h
    exact List.suffix_rfl

theorem dropLengthMark_suffix (t : Text) : dropLengthMark t <:+ t := by
  fun_cases dropLengthMark t with
  | case1 => exact List.suffix_cons ..
  | case2 | case3 => exact List.suffix_rfl

-- What a size spells out are digits of the text.
theorem splitSize_spec (t : Text) :
    (splitSize t).2 <:+ t ∧ ∀ digits, (splitSize t).1 = some (.literal digits) →
      digits <:+: t ∧ ∀ c ∈ digits, isDecimal c = true := by
  unfold splitSize
  split
  case h_1 rest => exact ⟨List.suffix_cons .., nofun⟩
  case h_2 =>
    split
    case h_1 => exact ⟨List.suffix_rfl, nofun⟩
    case h_2 digits more read =>
      refine ⟨List.drop_suffix .., ?_⟩
      rintro _ ⟨⟩
      refine ⟨(List.takeWhile_prefix _).isInfix, fun c member => ?_⟩
      exact isDecimal_of_isDigit (List.all_eq_true.mp List.all_takeWhile c member)

theorem splitPoint_spec (t : Text) :
    (splitPoint t).2 <:+ t ∧ ∀ digits, (splitPoint t).1 = some (.literal digits) →
      digits <:+: t ∧ ∀ c ∈ digits, isDecimal c = true := by
  unfold splitPoint
  split
  case h_1 rest =>
    obtain ⟨suffix, literal⟩ := splitSize_spec rest
    refine ⟨suffix.trans (List.suffix_cons ..), fun digits size => ?_⟩
    obtain ⟨inside, decimal⟩ := literal digits size
    exact ⟨inside.trans (List.suffix_cons ..).isInfix, decimal⟩
  case h_2 => exact ⟨List.suffix_rfl, nofun⟩

theorem specifier?_spec {s : Specifier} (h : specifier? t = some (s, rest)) :
    rest <:+ t ∧ ∀ digits ∈ s.literals, digits <:+: t ∧ ∀ c ∈ digits, isDecimal c = true := by
  obtain ⟨⟨key, named⟩, name, h⟩ := Option.bind_eq_some_iff.mp h
  obtain ⟨width_suffix, width_literal⟩ := splitSize_spec (readFlags .plain named).2
  obtain ⟨point_suffix, point_literal⟩ := splitPoint_spec (splitSize (readFlags .plain named).2).2
  have sizes : (readFlags .plain named).2 <:+ t :=
    (readFlags_suffix .plain named).trans (splitName?_suffix name)
  have points : (splitSize (readFlags .plain named).2).2 <:+ t := width_suffix.trans sizes
  have marks := dropLengthMark_suffix (splitPoint (splitSize (readFlags .plain named).2).2).2
  dsimp only at h
  split at h
  case h_1 => contradiction
  case h_2 code after coded =>
    cases h
    rw [coded] at marks
    refine ⟨(List.suffix_cons ..).trans (marks.trans (point_suffix.trans points)), ?_⟩
    intro digits member
    obtain ⟨size, listed, shown⟩ := List.mem_filterMap.mp member
    split at shown
    case h_2 => contradiction
    case h_1 spelled =>
      cases shown
      simp only [List.mem_cons, List.not_mem_nil, or_false] at listed
      obtain width | precision := listed
      · obtain ⟨inside, decimal⟩ := width_literal digits width.symm
        exact ⟨inside.trans sizes.isInfix, decimal⟩
      · obtain ⟨inside, decimal⟩ := point_literal digits precision.symm
        exact ⟨inside.trans points.isInfix, decimal⟩

theorem literal_of_specifiersFrom {turns : Nat} {s : Specifier} (member : s ∈ specifiersFrom turns t) :
    ∀ digits ∈ s.literals, digits <:+: t ∧ ∀ c ∈ digits, isDecimal c = true := by
  fun_induction specifiersFrom turns t with
  | case1 => contradiction
  | case2 => contradiction
  | case3 turns rest ih =>
      intro digits spelled
      obtain ⟨inside, decimal⟩ := ih member digits spelled
      exact ⟨inside.trans ⟨['%', '%'], [], by simp⟩, decimal⟩
  | case4 turns rest _ first behind read ih =>
      intro digits spelled
      obtain ⟨suffix, literal⟩ := specifier?_spec read
      obtain rfl | later := List.mem_cons.mp member
      · obtain ⟨inside, decimal⟩ := literal digits spelled
        exact ⟨inside.trans (List.suffix_cons ..).isInfix, decimal⟩
      · obtain ⟨inside, decimal⟩ := ih later digits spelled
        exact ⟨inside.trans (suffix.trans (List.suffix_cons ..)).isInfix, decimal⟩
  | case5 => contradiction
  | case6 turns t _ _ _ ih =>
      intro digits spelled
      obtain ⟨inside, decimal⟩ := ih member digits spelled
      exact ⟨inside.trans (List.dropWhile_suffix _).isInfix, decimal⟩

/-- A template spells out no size of more than three digits unless decimals stand in a row. -/
theorem length_literal_le {s : Specifier} (member : s ∈ specifiers t) (short : ¬ HasLongRun t)
    {digits : Text} (spelled : digits ∈ s.literals) : digits.length ≤ 3 := by
  obtain ⟨inside, decimal⟩ := literal_of_specifiersFrom member digits spelled
  by_contra long
  exact short ⟨digits, inside, decimal, by omega⟩

end Written

section Read

variable {t : Text}

/-- The number that a spelled out size is. -/
def Size.number? : Option Size → Option Nat
  | some (.literal digits) => some (Numeral.ofDigits 10 digits)
  | _ => none

theorem asciiNumber_eq (no_star : ∀ rest, t ≠ '*' :: rest) :
    asciiNumber t = (Size.number? (splitSize t).1, (splitSize t).2) := by
  have read : asciiNumber t = match t.takeWhile Char.isDigit with
      | [] => (none, t)
      | digits => (some (Numeral.ofDigits 10 digits), t.drop digits.length) := rfl
  have written : splitSize t = match t.takeWhile Char.isDigit with
      | [] => (none, t)
      | digits => (some (.literal digits), t.drop digits.length) := by
    unfold splitSize
    split
    · exact absurd rfl (no_star _)
    · rfl
  rw [read, written]
  split <;> rfl

-- Both sizes are read as they are written.
theorem yields_readWidth (d : Directive) (supply : Supply) (t : Text) :
    Yields (readWidth d supply t) fun r => r.2.2 = (splitSize t).2 ∧
      ((splitSize t).1 ≠ some .taken → r.1.width = Size.number? (splitSize t).1) := by
  unfold readWidth
  split
  case h_1 rest =>
    exact Yields.bind_any fun taken => Yields.pure ⟨rfl, fun other => absurd rfl other⟩
  case h_2 _ no_star =>
    rw [asciiNumber_eq no_star]
    exact Yields.pure ⟨rfl, fun _ => rfl⟩

theorem yields_readPrecision (d : Directive) (supply : Supply) (t : Text) :
    Yields (readPrecision d supply t) fun r => r.2.2 = (splitPoint t).2 ∧
      ∀ digits, (splitPoint t).1 = some (.literal digits) →
        r.1.precision = some (Numeral.ofDigits 10 digits) := by
  unfold readPrecision
  split
  case h_1 rest => exact Yields.bind_any fun taken => Yields.pure ⟨rfl, nofun⟩
  case h_2 rest no_star =>
    have behind : ∀ after, rest ≠ '*' :: after := by
      rintro after rfl
      exact no_star after rfl
    rw [asciiNumber_eq behind]
    refine Yields.pure ⟨rfl, fun digits spelled => ?_⟩
    rw [splitPoint] at spelled
    simp only [spelled, Size.number?, Option.getD_some]
  case h_3 _ no_point =>
    have none_ : splitPoint t = (none, t) := by
      unfold splitPoint
      split
      · exact absurd rfl (no_point _)
      · rfl
    rw [none_]
    exact Yields.pure ⟨rfl, nofun⟩

theorem specifier?_eq {key : Option Text} {named rest : Text} {code : Char}
    (name : splitName? t = some (key, named))
    (coded : dropLengthMark (splitPoint (splitSize (readFlags .plain named).2).2).2 = code :: rest) :
    specifier? t = some (⟨key, (splitSize (readFlags .plain named).2).1,
      (splitPoint (splitSize (readFlags .plain named).2).2).1, code⟩, rest) := by
  rw [specifier?, name]
  simp only [Option.bind_eq_bind, Option.bind_some, coded]

/-- A directive that is filled is read as it is written. -/
theorem yields_fillDirective (t : Text) (supply : Supply) :
    Yields (fillDirective t supply) fun r =>
      ∃ specifier, specifier? t = some (specifier, r.2.1) := by
  unfold fillDirective
  extract_lets filled
  -- What follows the key, or follows at once where there is none.
  have behind (key : Option Text) (p : Supply × Text) (name : splitName? t = some (key, p.2)) :
      Yields (filled p) fun r => ∃ specifier, specifier? t = some (specifier, r.2.1) := by
    refine (yields_readWidth _ _ _).bind fun ⟨d, supply, sizes⟩ ⟨after_width, _⟩ => ?_
    refine (yields_readPrecision _ _ _).bind fun ⟨d, supply, points⟩ ⟨after_point, _⟩ => ?_
    dsimp only at after_width after_point ⊢
    split
    case h_1 => exact Yields.throw _
    case h_2 code rest coded =>
      refine Yields.bind_any fun taken => Yields.bind_any fun body => ?_
      split
      · exact Yields.throw _
      · rw [after_point, after_width] at coded
        exact Yields.bind_any fun piece => Yields.pure ⟨_, specifier?_eq name coded⟩
  clear_value filled
  split
  case h_1 rest =>
    split
    · exact Yields.throw _
    · split
      case h_1 key after found =>
        refine Yields.bind_any fun chosen => ?_
        exact behind (some key) _ (by simp [splitName?, found])
      case h_2 => exact Yields.throw _
  case h_2 _ no_key =>
    refine behind none _ ?_
    unfold splitName?
    split
    · exact absurd rfl (no_key _)
    · rfl

end Read

end Snippet.Format
