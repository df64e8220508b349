import Mathlib.Data.List.Count
import Mathlib.Algebra.BigOperators.Group.List.Basic
import Snippet.Proofs.Value.Weight

/-!
Values that weigh something whatever happens to the lists and dicts: neither empty texts, nor lists
and dicts, whose items may be replaced by empty texts, nor tuples of such values only. A container
within its limit holds no more of them than it weighs.
-/

set_option autoImplicit false

namespace Snippet.Value

mutual

/-- Weighs something in every store. -/
def isSolid : Value → Bool
  | text _ t | raw _ t => !t.isEmpty
  | tuple _ items => items.isEmpty || anySolid items
  | list _ | dict _ => false
  | _ => true

def anySolid : List Value → Bool
  | [] => false
  | x :: xs => isSolid x || anySolid xs

end

/-- How many of the items are solid. -/
def solids (items : List Value) : Nat :=
  items.countP isSolid

def isSolidEntry (e : Value × Value) : Bool :=
  isSolid e.1 || isSolid e.2

/-- How many of the entries have a solid key or a solid value. -/
def solidEntries (entries : Entries) : Nat :=
  entries.countP isSolidEntry

variable {s : Store} {limit room : Nat}

mutual

theorem le_weighWith {inner : Weigher} (mono : ∀ path v total, total ≤ inner path v total)
    (path : List Value) (v : Value) (total : Nat) :
    total ≤ weighWith limit inner path v total := by
  cases v with
  | tuple tag items =>
      rw [weighWith]
      split
      · exact Nat.le_succ total
      · exact le_weighItems mono _ items total
  | list r => exact mono path _ total
  | dict r => exact mono path _ total
  | _ => exact Nat.le_add_right _ _

theorem le_weighItems {inner : Weigher} (mono : ∀ path v total, total ≤ inner path v total)
    (path : List Value) (items : List Value) (total : Nat) :
    total ≤ weighItems limit inner path items total := by
  cases items with
  | nil => exact Nat.le_refl total
  | cons x rest =>
      have later := le_weighItems mono path rest total
      rw [weighItems]
      split
      · exact later
      · exact later.trans (le_weighWith mono path x _)

end

theorem le_weighAll {weigh : Value → Nat → Nat} (mono : ∀ v total, total ≤ weigh v total)
    (items : List Value) (total : Nat) : total ≤ weighAll limit weigh items total := by
  induction items with
  | nil => exact Nat.le_refl total
  | cons x rest ih =>
      rw [weighAll_cons]
      split
      · exact ih
      · exact ih.trans (mono x _)

theorem le_weighAt (s : Store) (limit room : Nat) (path : List Value) (v : Value) (total : Nat) :
    total ≤ weighAt s limit room path v total := by
  induction room generalizing path v total with
  | zero =>
      rw [weighAt]
      exact le_weighWith (fun _ _ total => Nat.le_succ total) path v total
  | succ room ih =>
      rw [weighAt]
      refine le_weighWith (fun path v total => ?_) path v total
      dsimp only
      split
      · exact Nat.le_succ total
      · exact le_weighAll (fun w t => ih (v :: path) w t) _ total

mutual

theorem solid_weighWith {inner : Weigher} (mono : ∀ path v total, total ≤ inner path v total)
    (path : List Value) (v : Value) (total : Nat) (solid : v.isSolid = true)
    (within : weighWith limit inner path v total ≤ limit) :
    total + 1 ≤ weighWith limit inner path v total := by
  cases v with
  | tuple tag items =>
      rw [weighWith] at within ⊢
      split
      · exact Nat.le_refl _
      · rename_i opened
        rw [if_neg opened] at within
        refine solid_weighItems mono _ items total ?_ within
        simp only [Bool.or_eq_true, not_or] at opened
        simpa [isSolid, opened.1] using solid
  | list r | dict r => cases solid
  | text tag t | raw tag t =>
      rw [weighWith, leafWeight]
      · refine Nat.add_le_add_left (List.length_pos_iff.mpr ?_) total
        simpa [isSolid] using solid
      all_goals exact nofun
  | int tag n =>
      rw [weighWith, leafWeight, intWeight]
      · split <;> omega
      all_goals exact nofun
  | _ => exact Nat.le_refl _

theorem solid_weighItems {inner : Weigher} (mono : ∀ path v total, total ≤ inner path v total)
    (path : List Value) (items : List Value) (total : Nat) (solid : anySolid items = true)
    (within : weighItems limit inner path items total ≤ limit) :
    total + 1 ≤ weighItems limit inner path items total := by
  cases items with
  | nil => cases solid
  | cons x rest =>
      have before : total ≤ weighItems limit inner path rest total :=
        le_weighItems mono path rest total
      rw [weighItems] at within ⊢
      split at within
      · omega
      · rename_i passed
        rw [if_neg passed]
        rw [anySolid, Bool.or_eq_true] at solid
        obtain here | later := solid
        · exact (Nat.add_le_add_right before 1).trans
            (solid_weighWith mono path x _ here within)
        · exact (solid_weighItems mono path rest total later (Nat.le_of_not_gt passed)).trans
            (le_weighWith mono path x _)

end

theorem solid_weighAt (path : List Value) (v : Value) (total : Nat) (solid : v.isSolid = true)
    (within : weighAt s limit room path v total ≤ limit) :
    total + 1 ≤ weighAt s limit room path v total := by
  cases room with
  | zero =>
      rw [weighAt] at within ⊢
      exact solid_weighWith (fun _ _ total => Nat.le_succ total) path v total solid within
  | succ room =>
      rw [weighAt] at within ⊢
      refine solid_weighWith (fun path v total => ?_) path v total solid within
      dsimp only
      split
      · exact Nat.le_succ total
      · exact le_weighAll (fun w t => le_weighAt s limit room (v :: path) w t) _ total

theorem solids_eq_sum (items : List Value) :
    solids items = (items.map fun v => if v.isSolid then 1 else 0).sum := by
  induction items with
  | nil => rfl
  | cons x rest ih =>
      rw [solids] at ih
      rw [solids, List.countP_cons, ih, List.map_cons, List.sum_cons, Nat.add_comm]

-- Within the limit each solid item adds to the total.
theorem solids_le_weighAll {path : List Value} {items : List Value} {total : Nat}
    (within : weighAll limit (weighAt s limit room path) items total ≤ limit) :
    total + solids items ≤ weighAll limit (weighAt s limit room path) items total := by
  rw [solids_eq_sum]
  refine weighAll_ge (fun v _ t fits => ?_) within
  split
  · rename_i solid
    exact solid_weighAt path v t solid fits
  · exact le_weighAt s limit room path v t

-- What a container holds, against its weight.
theorem solids_le_weight {v : Value} (open_ : v.isLeaf = false)
    (within : weight s limit v ≤ limit) : solids (inside s v) ≤ weight s limit v := by
  by_cases empty : (inside s v).isEmpty = true
  · rw [List.isEmpty_iff.mp empty]
    exact Nat.zero_le _
  · have held : (inside s v).isEmpty = false := by simpa using empty
    obtain ⟨less, -, weighed⟩ := weighAt_inside (roomy_nil s) open_ held rfl
    rw [weight, weighed] at within ⊢
    have counted := solids_le_weighAll within
    omega

theorem solidEntries_le_solids (entries : Entries) :
    solidEntries entries ≤ solids (entries.flatMap fun e => [e.1, e.2]) := by
  induction entries with
  | nil => exact Nat.le_refl _
  | cons e rest ih =>
      simp only [solidEntries, solids] at ih
      simp only [solidEntries, solids, List.countP_cons, List.flatMap_cons, List.cons_append,
        List.nil_append, isSolidEntry]
      by_cases key : e.1.isSolid = true <;> by_cases value : e.2.isSolid = true <;>
        simp only [key, value, Bool.or_true, Bool.true_or, Bool.or_self, Bool.false_eq_true,
          if_true, if_false] <;> omega

theorem solidEntries_le_weight {r : Ref} (within : weight s limit (dict r) ≤ limit) :
    solidEntries (s.entries r) ≤ weight s limit (dict r) :=
  (solidEntries_le_solids _).trans (solids_le_weight rfl within)

theorem solids_le_length (items : List Value) : solids items ≤ items.length :=
  List.countP_le_length

end Snippet.Value
