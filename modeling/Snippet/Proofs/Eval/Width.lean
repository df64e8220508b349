import Snippet.Proofs.Eval.Accepted
import Snippet.Proofs.Eval.Closed
import Snippet.Proofs.Format.Template

/-!
When a template is refused because of a width. The guard looks for decimals in a row anywhere in
the template, before anything else is done; nothing that fills a template refuses a width. So the
text between directives may refuse a template, and a width taken from the values never does.
-/

set_option autoImplicit false

namespace Snippet

variable {α β : Type}

namespace Eval

/-- Never fails because a format is too wide. -/
def Unguarded (m : Eval α) : Prop :=
  ∀ s s', m s ≠ .error (.cause .formatTooWide) s'

theorem unguarded_pure (a : α) : Unguarded (pure a : Eval α) :=
  nofun

theorem unguarded_bind {m : Eval α} {k : α → Eval β} (first : Unguarded m)
    (next : ∀ a, Unguarded (k a)) : Unguarded (m >>= k) := by
  intro s s' ran
  rw [bind_eq] at ran
  split at ran
  case h_1 a after here => exact next a after s' ran
  case h_2 fault after here =>
    cases ran
    exact first s s' here

theorem unguarded_throw {fault : Fault} (other : fault ≠ .cause .formatTooWide) :
    Unguarded (throw fault : Eval α) := by
  rintro s s' ⟨⟩
  exact other rfl

theorem unguarded_fail {c : Cause} (other : c ≠ .formatTooWide) : Unguarded (fail c : Eval α) :=
  unguarded_throw fun same => other (Fault.cause.inj same)

theorem unguarded_breach (b : Breach) : Unguarded (breach b : Eval α) :=
  unguarded_throw nofun

theorem unguarded_get : Unguarded (get : Eval Store) :=
  nofun

theorem unguarded_newTag : Unguarded newTag :=
  nofun

/-- What never refuses a width is a kind. -/
theorem isClosed_unguarded : IsClosed Unguarded where
  pure := unguarded_pure
  bind := unguarded_bind
  breach := unguarded_breach
  missingKey _ := unguarded_throw nofun
  get := unguarded_get
  newTag := unguarded_newTag

end Eval

open Eval (Unguarded)

namespace Value

theorem unguarded_checkWeight (v : Value) : Unguarded v.checkWeight := by
  refine Eval.unguarded_bind Eval.unguarded_get fun s => ?_
  split
  · exact Eval.unguarded_fail nofun
  · exact Eval.unguarded_pure _

theorem unguarded_checked (v : Value) : Unguarded v.checked := by
  have given : Unguarded (pure v : Eval Value) := Eval.unguarded_pure v
  unfold checked
  split
  · split
    · exact Eval.unguarded_bind (Eval.unguarded_fail nofun) fun _ => given
    · exact given
  · exact Eval.unguarded_bind (unguarded_checkWeight _) fun _ => given

end Value

namespace Format

/-- A width that is taken from the values may be any machine word. -/
theorem readWidth_taken (d : Directive) {supply : Supply} {v : Value} {more : List Value} {n : Int}
    (pending : supply.pending = v :: more) (whole : v.int? = some n) (least : -(2 ^ 63) ≤ n)
    (most : n < 2 ^ 63) (rest : Text) :
    readWidth d supply ('*' :: rest)
      = pure ({ d with width := some n.natAbs, leftAligned := d.leftAligned || n < 0 },
          { supply with pending := more }, rest) := by
  have bound : Nat.pow 2 63 = 2 ^ 63 := rfl
  have fits : (decide (n ≥ (Nat.pow 2 63 : Nat))
      || decide (n < -((Nat.pow 2 63 : Nat) : Int))) = false := by
    rw [bound]
    simp
    omega
  simp only [readWidth, takeSize, Supply.take, pending, pure_bind, whole, fits]
  rfl

end Format

namespace Operator

open Format (HasLongRun specifiers)
open Value (checked isContainer weight)

theorem unguarded_fill (base : Value) (template : Text) (operand : Value) :
    Unguarded (fill base template operand) := by
  have template_filled := Eval.isClosed_unguarded.fillTemplate template operand
  refine Eval.unguarded_bind template_filled fun filled => ?_
  split
  · exact Eval.unguarded_pure base
  · exact Eval.unguarded_pure filled

section Template

variable {a b : Value} {t : Text} {s : Store}

theorem mod_of_long_run (template : a.text? = some t) (run : HasLongRun t) :
    mod a b s = .error (.cause .formatTooWide) s := by
  rw [mod, template, Option.any_some, Format.hasLongNumber_iff.mpr run]
  rfl

theorem mod_of_short_runs (template : a.text? = some t) (short : ¬ HasLongRun t)
    (light : isContainer b = true → weight s maxLength b ≤ maxLength) :
    mod a b s = (fill a t b >>= checked) s := by
  have passed : Value.checkWeight b s = .ok () s := Value.checkWeight_eq_ok.mpr ⟨rfl, light⟩
  have free : Format.hasLongNumber t = false := by
    rw [Bool.eq_false_iff]
    exact fun run => short (Format.hasLongNumber_iff.mp run)
  rw [mod, template, Option.any_some, free]
  show (Value.checkWeight b >>= fun _ => fill a t b >>= checked) s = _
  rw [bind_eq, passed]

/-- A template is refused for a width where more than three decimals stand in a row in it, wherever
they stand and whatever the operand is. Otherwise it is filled, and what is filled is checked; then
each size that a directive spells out has three digits at most, while one that is taken from the
operand may be any. -/
theorem template_refused_iff (template : a.text? = some t)
    (light : isContainer b = true → weight s maxLength b ≤ maxLength) :
    ((∃ s', mod a b s = .error (.cause .formatTooWide) s') ↔ HasLongRun t) ∧
      (HasLongRun t → mod a b s = .error (.cause .formatTooWide) s) ∧
      (¬ HasLongRun t → mod a b s = (fill a t b >>= checked) s ∧
        ∀ specifier ∈ specifiers t, ∀ digits ∈ specifier.literals, digits.length ≤ 3) := by
  refine ⟨⟨?refused, fun run => ⟨s, mod_of_long_run template run⟩⟩, mod_of_long_run template, ?filled⟩
  case refused =>
    rintro ⟨s', ran⟩
    by_contra short
    rw [mod_of_short_runs template short light] at ran
    exact Eval.unguarded_bind (unguarded_fill a t b) Value.unguarded_checked s s' ran
  case filled =>
    intro short
    refine ⟨mod_of_short_runs template short light, fun specifier member digits spelled => ?_⟩
    exact Format.length_literal_le member short spelled

end Template

/-- The length of the text that an evaluation gives. -/
def lengthGiven? (m : Eval Value) (s : Store) : Option Nat :=
  (answer? m s).bind fun (v, _) => v.text?.map List.length

/-- A year in front of a directive refuses the template. A width of four digits that is taken from
the operand does not, and is filled. -/
theorem template_refused_iff_year :
    (HasLongRun "2024: %d".toList ∧ (specifiers "2024: %d".toList).map (·.literals) = [[]] ∧
      mod (.text 2 "2024: %d".toList) (.int 3 5) Store.empty
        = .error (.cause .formatTooWide) Store.empty) ∧
    ¬ HasLongRun "%*d".toList ∧ (specifiers "%*d".toList).map (·.width) = [some .taken] ∧
      (∀ s', mod (.text 2 "%*d".toList) (.tuple 3 [.int 4 1000, .int 5 1]) Store.empty
        ≠ .error (.cause .formatTooWide) s') ∧
      lengthGiven? (mod (.text 2 "%*d".toList) (.tuple 3 [.int 4 1000, .int 5 1])) Store.empty
        = some 1000 := by
  have year : HasLongRun "2024: %d".toList :=
    ⟨"2024".toList, ⟨[], ": %d".toList, rfl⟩, List.all_eq_true.mp (by decide), by decide⟩
  have short : ¬ HasLongRun "%*d".toList := by
    rw [← Format.hasLongNumber_iff]
    decide
  obtain ⟨-, refused, -⟩ := @template_refused_iff (.text 2 "2024: %d".toList) (.int 3 5) _
    Store.empty rfl nofun
  obtain ⟨passed, -, -⟩ := @template_refused_iff (.text 2 "%*d".toList)
    (.tuple 3 [.int 4 1000, .int 5 1]) _ Store.empty rfl (fun _ => by decide)
  exact ⟨⟨year, by decide, refused year⟩, short, by decide, fun s' ran => short (passed.mp ⟨s', ran⟩),
    by decide +kernel⟩

end Operator

end Snippet
