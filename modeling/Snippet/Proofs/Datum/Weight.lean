import Snippet.Proofs.Datum
import Snippet.Proofs.Value.Weight

/-!
The weight of data. A value weighs what its datum weighs, wherever it is kept; past a limit it only
weighs more than the limit.
-/

set_option autoImplicit false

namespace Snippet.Datum

open Value (Roomy weighAt weighAll weighAll_le_sum weighAll_ge_sum weighAt_inside weighAt_shut
  weighAt_leaf inside roomy_nil)

variable {s : Store} {path : Value.Path} {d : Datum} {v : Value} {room limit total : Nat}
  {costs : List Nat}

-- A container that is not open weighs one, or what is within it together.
theorem weighAt_closed (roomy : Roomy s path room) (open_ : v.isLeaf = false)
    (closed : path.any (Value.same v) = false) (long : costs.length = (inside s v).length) :
    (costs = [] ∧ ∀ limit total, weighAt s limit room path v total = total + 1) ∨
      ∃ less, Roomy s (v :: path) less ∧ together costs = costs.sum ∧
        ∀ limit total, weighAt s limit room path v total =
          weighAll limit (weighAt s limit less (v :: path)) (inside s v) total := by
  cases held : inside s v with
  | nil =>
      rw [held] at long
      exact .inl ⟨List.length_eq_zero_iff.mp long,
        fun _ _ => weighAt_shut open_ (.inl (List.isEmpty_iff.mpr held))⟩
  | cons x rest =>
      have some_ : costs.isEmpty = false := by
        rw [held] at long
        cases costs with
        | nil => cases long
        | cons cost costs => rfl
      obtain ⟨less, roomy', weighed⟩ := weighAt_inside roomy open_ (by rw [held]; rfl) closed
      rw [held] at weighed
      exact .inr ⟨less, roomy', by rw [together, some_]; rfl, weighed⟩

theorem weighAt_le_together (roomy : Roomy s path room) (open_ : v.isLeaf = false)
    (closed : path.any (Value.same v) = false)
    (each : ∀ less, Roomy s (v :: path) less → List.Forall₂
      (fun cost x => ∀ t, weighAt s limit less (v :: path) x t ≤ t + cost) costs (inside s v)) :
    weighAt s limit room path v total ≤ total + together costs := by
  obtain ⟨rfl, weighed⟩ | ⟨less, rest, sum, weighed⟩ := weighAt_closed roomy open_ closed
    (each room (roomy.cons v)).length_eq
  · exact (weighed limit total).le
  · rw [weighed, sum]
    exact weighAll_le_sum (each less rest)

theorem weighAt_ge_together (roomy : Roomy s path room) (open_ : v.isLeaf = false)
    (closed : path.any (Value.same v) = false)
    (each : ∀ less, Roomy s (v :: path) less → List.Forall₂
      (fun cost x => ∀ t, weighAt s limit less (v :: path) x t ≤ limit →
        t + cost ≤ weighAt s limit less (v :: path) x t) costs (inside s v))
    (within : weighAt s limit room path v total ≤ limit) :
    total + together costs ≤ weighAt s limit room path v total := by
  obtain ⟨rfl, weighed⟩ | ⟨less, rest, sum, weighed⟩ := weighAt_closed roomy open_ closed
    (each room (roomy.cons v)).length_eq
  · exact (weighed limit total).ge
  · rw [weighed] at within ⊢
    rw [sum]
    exact weighAll_ge_sum (each less rest) within

-- What holds of the items holds of the keys and values in turn.
theorem forall₂_entries {R : Nat → Value → Prop} {entries : List (Datum × Datum)}
    {held : Entries} (long : entries.length = held.length)
    (keys : ∀ d e, (d, e) ∈ entries.zip held → R d.1.weight e.1)
    (values : ∀ d e, (d, e) ∈ entries.zip held → R d.2.weight e.2) :
    List.Forall₂ R (entries.flatMap fun e => [e.1.weight, e.2.weight])
      (held.flatMap fun e => [e.1, e.2]) := by
  have both : List.Forall₂ (fun (d : Datum × Datum) e => R d.1.weight e.1 ∧ R d.2.weight e.2)
      entries held :=
    List.forall₂_iff_zip.mpr ⟨long, fun member => ⟨keys _ _ member, values _ _ member⟩⟩
  exact List.rel_flatMap both fun d e pair => .cons pair.1 (.cons pair.2 .nil)

theorem forall₂_items {R : Nat → Value → Prop} {items : List Datum} {held : List Value}
    (long : items.length = held.length) (each : ∀ d v, (d, v) ∈ items.zip held → R d.weight v) :
    List.Forall₂ R (items.map weight) held :=
  List.forall₂_map_left_iff.mpr
    (List.forall₂_iff_zip.mpr ⟨long, fun member => each _ _ member⟩)

theorem Is.weighAt_le (is : d.Is s path v) (limit : Nat) (roomy : Roomy s path room) (total : Nat) :
    weighAt s limit room path v total ≤ total + d.weight := by
  induction is generalizing room total with
  | none | bool | int | text => exact (weighAt_leaf rfl).le
  | list closed long each ih =>
      rw [weight_list]
      exact weighAt_le_together roomy rfl closed fun less rest =>
        forall₂_items long fun d v member => ih d v member rest
  | tuple closed long each ih =>
      rw [weight_tuple]
      exact weighAt_le_together roomy rfl closed fun less rest =>
        forall₂_items long fun d v member => ih d v member rest
  | dict closed long keys values ihKeys ihValues =>
      rw [weight_dict]
      exact weighAt_le_together roomy rfl closed fun less rest => forall₂_entries long
        (fun d e member => ihKeys d e member rest) (fun d e member => ihValues d e member rest)

theorem Is.weighAt_ge (is : d.Is s path v) (roomy : Roomy s path room)
    (within : weighAt s limit room path v total ≤ limit) :
    total + d.weight ≤ weighAt s limit room path v total := by
  induction is generalizing room total with
  | none => exact (weighAt_leaf (v := .none) rfl).ge
  | bool path b => exact (weighAt_leaf (v := .bool b) rfl).ge
  | int path tag n => exact (weighAt_leaf (v := .int tag n) rfl).ge
  | text path tag t => exact (weighAt_leaf (v := .text tag t) rfl).ge
  | list closed long each ih =>
      rw [weight_list]
      exact weighAt_ge_together roomy rfl closed (fun less rest =>
        forall₂_items long fun d v member t => ih d v member rest) within
  | tuple closed long each ih =>
      rw [weight_tuple]
      exact weighAt_ge_together roomy rfl closed (fun less rest =>
        forall₂_items long fun d v member t => ih d v member rest) within
  | dict closed long keys values ihKeys ihValues =>
      rw [weight_dict]
      exact weighAt_ge_together roomy rfl closed (fun less rest => forall₂_entries long
        (fun d e member t => ihKeys d e member rest)
        (fun d e member t => ihValues d e member rest)) within

theorem Is.weight_le (is : d.Is s [] v) (limit : Nat) : Value.weight s limit v ≤ d.weight :=
  (is.weighAt_le limit (roomy_nil s) 0).trans_eq (Nat.zero_add _)

/-- What the weight of a value tells of its datum, if it is within the limit. -/
theorem Is.weight_eq (is : d.Is s [] v) (within : Value.weight s limit v ≤ limit) :
    Value.weight s limit v = d.weight :=
  Nat.le_antisymm (is.weight_le limit)
    ((Nat.zero_add _).symm.trans_le (is.weighAt_ge (roomy_nil s) within))

end Snippet.Datum
