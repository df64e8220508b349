import Mathlib.Algebra.Ring.Nat
import Mathlib.Data.Finset.Card
import Mathlib.Data.Finset.Sum
import Mathlib.Data.List.Forall2
import Snippet.Value.Weight

/-!
What the weight of a value says of its parts. The walk never runs out of room for lists and dicts,
and a weight that stays within its limit counts every part.
-/

set_option autoImplicit false

namespace Snippet.Value

variable {s : Store} {path : List Value} {room limit total : Nat}

/-- The items weighed from the last to the first, until the limit is passed. -/
def weighAll (limit : Nat) (weigh : Value → Nat → Nat) (items : List Value) (total : Nat) : Nat :=
  items.foldr (fun x total => if total > limit then total else weigh x total) total

section WeighAll

variable {weigh : Value → Nat → Nat} {cost : Value → Nat} {items : List Value}

theorem weighAll_cons (x : Value) (rest : List Value) :
    weighAll limit weigh (x :: rest) total =
      if weighAll limit weigh rest total > limit then weighAll limit weigh rest total
      else weigh x (weighAll limit weigh rest total) := rfl

-- Within the limit no item is left out.
theorem weighAll_ge_sum {costs : List Nat}
    (each : List.Forall₂ (fun cost x => ∀ t, weigh x t ≤ limit → t + cost ≤ weigh x t) costs items)
    (within : weighAll limit weigh items total ≤ limit) :
    total + costs.sum ≤ weighAll limit weigh items total := by
  induction each with
  | nil => exact Nat.le_refl _
  | @cons cost x costs rest here _ ih =>
      rw [weighAll_cons] at within ⊢
      split at within
      · omega
      · rename_i passed
        have later := ih (Nat.le_of_not_gt passed)
        have here := here _ within
        rw [if_neg passed, List.sum_cons]
        omega

theorem weighAll_le_sum {costs : List Nat}
    (each : List.Forall₂ (fun cost x => ∀ t, weigh x t ≤ t + cost) costs items) :
    weighAll limit weigh items total ≤ total + costs.sum := by
  induction each with
  | nil => exact Nat.le_refl _
  | @cons cost x costs rest here _ later =>
      have here := here (weighAll limit weigh rest total)
      rw [weighAll_cons, List.sum_cons]
      split <;> omega

theorem weighAll_ge (each : ∀ x ∈ items, ∀ t, weigh x t ≤ limit → t + cost x ≤ weigh x t)
    (within : weighAll limit weigh items total ≤ limit) :
    total + (items.map cost).sum ≤ weighAll limit weigh items total :=
  weighAll_ge_sum (List.forall₂_map_left_iff.mpr (List.forall₂_same.mpr each)) within

theorem weighAll_le (each : ∀ x ∈ items, ∀ t, weigh x t ≤ t + cost x) :
    weighAll limit weigh items total ≤ total + (items.map cost).sum :=
  weighAll_le_sum (List.forall₂_map_left_iff.mpr (List.forall₂_same.mpr each))

end WeighAll

theorem weighItems_eq (limit : Nat) (inner : Weigher) (path items : List Value) (total : Nat) :
    weighItems limit inner path items total =
      weighAll limit (weighWith limit inner path) items total := by
  induction items with
  | nil => rfl
  | cons x rest ih => rw [weighItems, ih, weighAll_cons]

theorem weighAt_eq_weighWith (s : Store) (limit room : Nat) :
    ∃ inner, weighAt s limit room = weighWith limit inner := by
  cases room with
  | zero => exact ⟨_, by rw [weighAt]⟩
  | succ room => exact ⟨_, by rw [weighAt]⟩

theorem weighAt_tuple (tag : Tag) (items : List Value) :
    weighAt s limit room path (tuple tag items) total =
      if items.isEmpty || path.any (same (tuple tag items)) then total + 1
      else weighAll limit (weighAt s limit room (tuple tag items :: path)) items total := by
  obtain ⟨inner, same⟩ := weighAt_eq_weighWith s limit room
  simp only [same, weighWith, weighItems_eq]

/-- Lists and dicts, which take room. -/
def isStored : Value → Bool
  | list _ | dict _ => true
  | _ => false

theorem weighAt_stored {v : Value} (stored : v.isStored = true) :
    weighAt s limit (room + 1) path v total =
      if (children s v).isEmpty || path.any (same v) then total + 1
      else weighAll limit (weighAt s limit room (v :: path)) (children s v) total := by
  cases v with
  | list r => rw [weighAt, weighWith]; rfl
  | dict r => rw [weighAt, weighWith]; rfl
  | _ => cases stored

theorem weighAt_no_room {v : Value} (stored : v.isStored = true) :
    weighAt s limit 0 path v total = total + 1 := by
  cases v with
  | list r => rw [weighAt, weighWith]
  | dict r => rw [weighAt, weighWith]
  | _ => cases stored

/-- Neither a tuple nor a list nor a dict. -/
def isLeaf : Value → Bool
  | tuple .. | list _ | dict _ => false
  | _ => true

theorem weighAt_leaf {v : Value} (leaf : v.isLeaf = true) :
    weighAt s limit room path v total = total + leafWeight v := by
  obtain ⟨inner, same⟩ := weighAt_eq_weighWith s limit room
  cases v with
  | tuple tag items => cases leaf
  | list r => cases leaf
  | dict r => cases leaf
  | _ => simp only [same, weighWith]

/-! ### Room for lists and dicts -/

/-- Where a list or a dict is kept. -/
def place? : Value → Option (Nat ⊕ Nat)
  | list r => some (.inl r)
  | dict r => some (.inr r)
  | _ => Option.none

/-- The places of a store that nothing on a path is kept at. -/
def closedPlaces (s : Store) (path : List Value) : Finset (Nat ⊕ Nat) :=
  ((Finset.range s.lists.size).disjSum (Finset.range s.dicts.size)).filter
    fun place => ∀ v ∈ path, v.place? ≠ some place

/-- There is room for all lists and dicts that are not open on the path. -/
def Roomy (s : Store) (path : List Value) (room : Nat) : Prop :=
  (closedPlaces s path).card ≤ room

theorem roomy_nil (s : Store) : Roomy s [] (s.lists.size + s.dicts.size) := by
  refine (Finset.card_filter_le _ _).trans ?_
  rw [Finset.card_disjSum, Finset.card_range, Finset.card_range]

theorem closedPlaces_cons_subset (s : Store) (v : Value) (path : List Value) :
    closedPlaces s (v :: path) ⊆ closedPlaces s path := by
  intro place member
  simp only [closedPlaces, Finset.mem_filter, List.forall_mem_cons] at member ⊢
  exact ⟨member.1, member.2.2⟩

theorem Roomy.cons (roomy : Roomy s path room) (v : Value) : Roomy s (v :: path) room :=
  (Finset.card_le_card (closedPlaces_cons_subset s v path)).trans roomy

theorem same_of_place {u v : Value} {place : Nat ⊕ Nat} (left : u.place? = some place)
    (right : v.place? = some place) : same u v = true := by
  cases u <;> cases left <;> cases v <;> cases right <;> simp [same]

-- The place of a list or a dict that holds something is in the store.
theorem place_mem {v : Value} (stored : v.isStored = true) (held : (children s v).isEmpty = false)
    (closed : path.any (same v) = false) : ∃ place, v.place? = some place ∧
      place ∈ closedPlaces s path := by
  have apart {place : Nat ⊕ Nat} (here : v.place? = some place) :
      ∀ u ∈ path, u.place? ≠ some place := by
    intro u member there
    have open_ : path.any (same v) = true :=
      List.any_eq_true.mpr ⟨u, member, same_of_place here there⟩
    rw [open_] at closed
    cases closed
  cases v with
  | list r =>
      have inside : r < s.lists.size := by
        apply Classical.byContradiction
        intro outside
        simp [children, Store.items, outside] at held
      refine ⟨.inl r, rfl, ?_⟩
      simp only [closedPlaces, Finset.mem_filter, Finset.inl_mem_disjSum, Finset.mem_range]
      exact ⟨inside, apart rfl⟩
  | dict r =>
      have inside : r < s.dicts.size := by
        apply Classical.byContradiction
        intro outside
        simp [children, Store.entries, outside] at held
      refine ⟨.inr r, rfl, ?_⟩
      simp only [closedPlaces, Finset.mem_filter, Finset.inr_mem_disjSum, Finset.mem_range]
      exact ⟨inside, apart rfl⟩
  | _ => cases stored

-- Opening one more list or dict takes a place away.
theorem card_closedPlaces_lt {v : Value} (stored : v.isStored = true)
    (held : (children s v).isEmpty = false) (closed : path.any (same v) = false) :
    (closedPlaces s (v :: path)).card < (closedPlaces s path).card := by
  obtain ⟨place, here, member⟩ := place_mem stored held closed
  have gone : place ∉ closedPlaces s (v :: path) := by
    simp only [closedPlaces, Finset.mem_filter, List.forall_mem_cons, not_and]
    exact fun _ free => absurd here free
  exact Finset.card_lt_card
    (Finset.ssubset_iff_of_subset (closedPlaces_cons_subset s v path) |>.mpr ⟨place, member, gone⟩)

theorem Roomy.open {v : Value} (roomy : Roomy s path room) (stored : v.isStored = true)
    (held : (children s v).isEmpty = false) (closed : path.any (same v) = false) :
    ∃ less, room = less + 1 ∧ Roomy s (v :: path) less := by
  have fewer := card_closedPlaces_lt stored held closed
  unfold Roomy at roomy ⊢
  exact ⟨room - 1, by omega, by omega⟩

/-! ### What a value holds -/

/-- The parts of a tuple, a list or a dict. -/
def inside (s : Store) : Value → List Value
  | tuple _ items => items
  | v => children s v

-- A container that is not open weighs what it holds.
theorem weighAt_inside {v : Value} (roomy : Roomy s path room) (open_ : v.isLeaf = false)
    (held : (inside s v).isEmpty = false) (closed : path.any (same v) = false) :
    ∃ less, Roomy s (v :: path) less ∧ ∀ limit total, weighAt s limit room path v total =
      weighAll limit (weighAt s limit less (v :: path)) (inside s v) total := by
  have stored (kept : v.isStored = true) (same_inside : inside s v = children s v) :
      ∃ less, Roomy s (v :: path) less ∧ ∀ limit total, weighAt s limit room path v total =
        weighAll limit (weighAt s limit less (v :: path)) (inside s v) total := by
    rw [same_inside] at held ⊢
    obtain ⟨less, rfl, rest⟩ := roomy.open kept held closed
    refine ⟨less, rest, fun limit total => ?_⟩
    simp only [weighAt_stored kept, held, closed, Bool.or_false, Bool.false_eq_true, if_false]
  cases v with
  | tuple tag items =>
      refine ⟨room, roomy.cons _, fun limit total => ?_⟩
      have shut : (items.isEmpty || path.any (same (tuple tag items))) = false := by
        rw [closed, Bool.or_false]
        exact held
      simp only [weighAt_tuple, shut, Bool.false_eq_true, if_false, inside]
  | list r => exact stored rfl rfl
  | dict r => exact stored rfl rfl
  | _ => cases open_

-- A container that is open, or that holds nothing, counts one.
theorem weighAt_shut {v : Value} (open_ : v.isLeaf = false)
    (shut : (inside s v).isEmpty = true ∨ path.any (same v) = true) :
    weighAt s limit room path v total = total + 1 := by
  have shut : ((inside s v).isEmpty || path.any (same v)) = true := by
    rwa [Bool.or_eq_true]
  have stored (kept : v.isStored = true) (same_inside : inside s v = children s v) :
      weighAt s limit room path v total = total + 1 := by
    rw [same_inside] at shut
    cases room with
    | zero => exact weighAt_no_room kept
    | succ room => rw [weighAt_stored kept, if_pos shut]
  cases v with
  | tuple tag items => exact (weighAt_tuple tag items).trans (if_pos shut)
  | list r => exact stored rfl rfl
  | dict r => exact stored rfl rfl
  | _ => cases open_

end Snippet.Value
