import Mathlib.Algebra.BigOperators.Group.List.Basic
import Mathlib.Algebra.Ring.Nat
import Snippet.Expr.Grammar

/-!
The parts of an expression, and what is gathered from all of them: how many subtractions an
expression holds, and how long its longest text is.
-/

set_option autoImplicit false

namespace Snippet

def Part.expr? : Part → Option Expr
  | .text _ => none
  | .field e _ _ => some e

theorem Part.forall_fields {P : Expr → Prop} {ps : List Part}
    (fields : ∀ e conversion spec, .field e conversion spec ∈ ps → P e) :
    ∀ e ∈ ps.filterMap Part.expr?, P e := by
  rw [List.forall_mem_filterMap]
  intro p member e same
  cases p with
  | text t => cases same
  | field inner conversion spec =>
      cases same
      exact fields e conversion spec member

namespace Expr

/-- The expressions that an expression is put together from. -/
def parts : Expr → List Expr
  | .literal .. | .name .. => []
  | .formatted _ ps => ps.filterMap Part.expr?
  | .list _ items | .tuple _ items => items
  | .dict _ es => es.flatMap fun e => [e.2, e.1]
  | .unary _ _ e | .member _ e _ => [e]
  | .binary _ _ l r | .bool _ _ l r => [l, r]
  | .compare _ first links => first :: links.map (·.2)
  | .conditional _ test body orelse => [test, body, orelse]
  | .call _ func args => func :: args.map (·.2)
  | .index _ base (.item e) => [base, e]
  | .index _ base (.slice _ lower upper step) =>
      base :: (lower.toList ++ upper.toList ++ step.toList)

section Sizes

variable {p : Expr}

theorem sizeOf_lt_of_mem_fields {ps : List Part} (member : p ∈ ps.filterMap Part.expr?) :
    sizeOf p < sizeOf ps := by
  obtain ⟨part, of_part, same⟩ := List.mem_filterMap.mp member
  have below := List.sizeOf_lt_of_mem of_part
  cases part with
  | text t => cases same
  | field e conversion spec =>
      cases same
      simp only [Part.field.sizeOf_spec] at below
      omega

theorem sizeOf_lt_of_mem_entries {es : List (Expr × Expr)}
    (member : p ∈ es.flatMap fun e => [e.2, e.1]) : sizeOf p < sizeOf es := by
  obtain ⟨⟨key, value⟩, of_entry, member⟩ := List.mem_flatMap.mp member
  have below := List.sizeOf_lt_of_mem of_entry
  simp only [Prod.mk.sizeOf_spec] at below
  obtain rfl | rfl : p = value ∨ p = key := by simpa using member
  all_goals omega

-- The links of a comparison and the arguments of a call.
theorem sizeOf_lt_of_mem_seconds {α : Type} [SizeOf α] {pairs : List (α × Expr)}
    (member : p ∈ pairs.map (·.2)) : sizeOf p < sizeOf pairs := by
  obtain ⟨⟨first, e⟩, of_pair, rfl⟩ := List.mem_map.mp member
  have below := List.sizeOf_lt_of_mem of_pair
  simp only [Prod.mk.sizeOf_spec] at below
  show sizeOf e < sizeOf pairs
  omega

theorem eq_base_or_sizeOf_lt {column : Nat} {base : Expr} {sub : Subscript}
    (member : p ∈ (Expr.index column base sub).parts) : p = base ∨ sizeOf p < sizeOf sub := by
  cases sub with
  | item e =>
      obtain rfl | rfl : p = base ∨ p = e := by simpa [parts] using member
      · exact .inl rfl
      · simp
  | slice start lower upper step =>
      obtain rfl | rfl | rfl | rfl : p = base ∨ lower = some p ∨ upper = some p ∨ step = some p :=
        by simpa [parts] using member
      · exact .inl rfl
      all_goals
        simp only [Subscript.slice.sizeOf_spec, Option.some.sizeOf_spec]
        omega

theorem sizeOf_lt_of_mem_parts {e : Expr} (member : p ∈ e.parts) : sizeOf p < sizeOf e := by
  cases e with
  | literal | name => cases member
  | formatted column ps =>
      have below := sizeOf_lt_of_mem_fields member
      simp only [formatted.sizeOf_spec]
      omega
  | list column items | tuple column items =>
      have below : sizeOf p < sizeOf items := List.sizeOf_lt_of_mem member
      simp only [list.sizeOf_spec, tuple.sizeOf_spec]
      omega
  | dict column es =>
      have below := sizeOf_lt_of_mem_entries member
      simp only [dict.sizeOf_spec]
      omega
  | unary column op e | member column e id =>
      obtain rfl : p = e := by simpa [parts] using member
      simp only [unary.sizeOf_spec, Expr.member.sizeOf_spec]
      omega
  | binary column op l r | bool column op l r =>
      obtain rfl | rfl : p = l ∨ p = r := by simpa [parts] using member
      all_goals
        simp only [binary.sizeOf_spec, bool.sizeOf_spec]
        omega
  | conditional column test body orelse =>
      obtain rfl | rfl | rfl : p = test ∨ p = body ∨ p = orelse := by simpa [parts] using member
      all_goals
        simp only [conditional.sizeOf_spec]
        omega
  | compare column first pairs | call column first pairs =>
      simp only [compare.sizeOf_spec, call.sizeOf_spec]
      obtain rfl | behind := List.mem_cons.mp member
      · omega
      · have below := sizeOf_lt_of_mem_seconds behind
        omega
  | index column base sub =>
      simp only [index.sizeOf_spec]
      obtain rfl | below := eq_base_or_sizeOf_lt member
      all_goals omega

end Sizes

/-- Holds of an expression and of all that it is put together from. -/
inductive Everywhere (P : Expr → Prop) : Expr → Prop where
  | intro {e : Expr} (here : P e) (parts : ∀ p ∈ e.parts, Everywhere P p) : Everywhere P e

namespace Everywhere

variable {P Q : Expr → Prop} {e : Expr}

theorem here (h : e.Everywhere P) : P e := by
  cases h with
  | intro here parts => exact here

theorem of_parts (h : e.Everywhere P) : ∀ p ∈ e.parts, p.Everywhere P := by
  cases h with
  | intro here parts => exact parts

theorem imp (weaker : ∀ e, P e → Q e) (h : e.Everywhere P) : e.Everywhere Q := by
  induction h with
  | intro here parts ih => exact .intro (weaker _ here) ih

end Everywhere

theorem everywhere_iff {P : Expr → Prop} {e : Expr} :
    e.Everywhere P ↔ P e ∧ ∀ p ∈ e.parts, p.Everywhere P :=
  ⟨fun h => ⟨h.here, h.of_parts⟩, fun ⟨here, parts⟩ => .intro here parts⟩

/-- What an expression and all that it is put together from have of their own, joined. -/
def gather (join : Nat → Nat → Nat) (own : Expr → Nat) (e : Expr) : Nat :=
  (e.parts.attach.map fun p => gather join own p.1).foldr join (own e)
termination_by sizeOf e
decreasing_by exact sizeOf_lt_of_mem_parts p.2

theorem gather_eq (join : Nat → Nat → Nat) (own : Expr → Nat) (e : Expr) :
    e.gather join own = (e.parts.map (gather join own)).foldr join (own e) := by
  rw [gather, List.attach_map_val]

def isSubtraction : Expr → Bool
  | .binary _ .sub _ _ => true
  | _ => false

/-- The subtractions of two operands; a minus sign in front of one is none. -/
def subtractions (e : Expr) : Nat :=
  e.gather (· + ·) fun e => e.isSubtraction.toNat

theorem subtractions_eq (e : Expr) :
    e.subtractions = e.isSubtraction.toNat + (e.parts.map subtractions).sum := by
  have summed (ns : List Nat) (n : Nat) : ns.foldr (· + ·) n = n + ns.sum := by
    induction ns with
    | nil => rfl
    | cons m rest ih =>
        rw [List.foldr_cons, ih, List.sum_cons]
        omega
  rw [subtractions, gather_eq, summed]
  rfl

def textLength : Expr → Nat
  | .literal _ (.text t) | .literal _ (.joined t) => t.length
  | _ => 0

/-- The length of the longest text that stands in an expression. -/
def longestText (e : Expr) : Nat :=
  e.gather max textLength

theorem longestText_eq (e : Expr) :
    e.longestText = (e.parts.map longestText).foldr max e.textLength :=
  gather_eq max textLength e

theorem le_foldr_max (ns : List Nat) (n : Nat) :
    n ≤ ns.foldr max n ∧ ∀ m ∈ ns, m ≤ ns.foldr max n := by
  induction ns with
  | nil => exact ⟨Nat.le_refl n, nofun⟩
  | cons m rest ih =>
      rw [List.foldr_cons]
      have later : rest.foldr max n ≤ max m (rest.foldr max n) := Nat.le_max_right _ _
      refine ⟨Nat.le_trans ih.1 later, List.forall_mem_cons.mpr ⟨Nat.le_max_left _ _, ?_⟩⟩
      exact fun k member => Nat.le_trans (ih.2 k member) later

theorem textLength_le_longestText (e : Expr) : e.textLength ≤ e.longestText := by
  rw [longestText_eq]
  exact (le_foldr_max _ _).1

theorem longestText_le_of_mem_parts {e p : Expr} (member : p ∈ e.parts) :
    p.longestText ≤ e.longestText := by
  rw [longestText_eq e]
  exact (le_foldr_max _ _).2 _ (List.mem_map_of_mem member)

end Expr

end Snippet
