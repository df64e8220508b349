import Snippet.Proofs.Value.Weight

/-!
The weight of a value in two other forms. Without a limit it is a recursion over what the value
holds, in which a container that is open on the way to itself counts one. With a limit it is a walk
that keeps what is still to be done on a stack, and the open containers in a set of their own. Both
agree with the weight up to the limit, and all three pass it together.
-/

set_option autoImplicit false

namespace Snippet.Value

variable {s : Store} {path : List Value} {room limit total : Nat} {v x : Value}

/-! ### Without a limit -/

-- What a container holds takes up a place less, or is a part of a tuple.
theorem smaller_inside (open_ : v.isLeaf = false) (held : (inside s v).isEmpty = false)
    (closed : path.any (same v) = false) (member : x ∈ inside s v) :
    Prod.Lex (· < ·) (· < ·) ((closedPlaces s (v :: path)).card, sizeOf x)
      ((closedPlaces s path).card, sizeOf v) := by
  cases v with
  | tuple tag items =>
      apply Prod.Lex.right'
      · exact Finset.card_le_card (closedPlaces_cons_subset s _ path)
      · have part : sizeOf x < sizeOf items := List.sizeOf_lt_of_mem member
        simp only [tuple.sizeOf_spec]
        omega
  | list r => exact .left _ _ (card_closedPlaces_lt rfl held closed)
  | dict r => exact .left _ _ (card_closedPlaces_lt rfl held closed)
  | _ => cases open_

/-- The weight of a value below the containers of a path, with nothing left out. -/
def fullWeight (s : Store) (path : List Value) (v : Value) : Nat :=
  if v.isLeaf then leafWeight v
  else if (inside s v).isEmpty || path.any (same v) then 1
  else ((inside s v).attach.map fun x => fullWeight s (v :: path) x.1).sum
termination_by ((closedPlaces s path).card, sizeOf v)
decreasing_by
  rename_i open_ closed
  rw [Bool.not_eq_true] at open_ closed
  rw [Bool.or_eq_false_iff] at closed
  exact smaller_inside open_ closed.1 closed.2 x.2

theorem fullWeight_leaf (leaf : v.isLeaf = true) : fullWeight s path v = leafWeight v := by
  rw [fullWeight, if_pos leaf]

theorem fullWeight_shut (open_ : v.isLeaf = false)
    (shut : ((inside s v).isEmpty || path.any (same v)) = true) : fullWeight s path v = 1 := by
  rw [fullWeight, if_neg (by simp [open_]), if_pos shut]

theorem fullWeight_inside (open_ : v.isLeaf = false)
    (closed : ((inside s v).isEmpty || path.any (same v)) = false) :
    fullWeight s path v = ((inside s v).map (fullWeight s (v :: path))).sum := by
  rw [fullWeight, if_neg (by simp [open_]), if_neg (by simp [closed]), List.attach_map_val]

/-- To prove something of a value below the containers of a path, it may be taken for granted of all
that the value holds below itself: no container is opened twice on the way, so the way ends. -/
theorem inside_induction (s : Store) {motive : List Value → Value → Prop}
    (leaf : ∀ path v, v.isLeaf = true → motive path v)
    (shut : ∀ path v, v.isLeaf = false →
      ((inside s v).isEmpty || path.any (same v)) = true → motive path v)
    (opened : ∀ path v, v.isLeaf = false →
      ((inside s v).isEmpty || path.any (same v)) = false →
        (∀ x ∈ inside s v, motive (v :: path) x) → motive path v)
    (path : List Value) (v : Value) : motive path v := by
  induction path, v using fullWeight.induct s with
  | case1 path v is_leaf => exact leaf path v is_leaf
  | case2 path v not_leaf is_shut => exact shut path v (by simpa using not_leaf) is_shut
  | case3 path v not_leaf not_shut ih =>
      exact opened path v (by simpa using not_leaf) (by simpa using not_shut)
        fun x member => ih ⟨x, member⟩

theorem weighAt_le_fullWeight (roomy : Roomy s path room) (total : Nat) :
    weighAt s limit room path v total ≤ total + fullWeight s path v := by
  induction path, v using inside_induction s generalizing room total with
  | leaf path v leaf => rw [weighAt_leaf leaf, fullWeight_leaf leaf]
  | shut path v open_ shut =>
      rw [weighAt_shut open_ (Bool.or_eq_true_iff.mp shut), fullWeight_shut open_ shut]
  | opened path v open_ apart ih =>
      obtain ⟨held, closed⟩ := Bool.or_eq_false_iff.mp apart
      obtain ⟨less, roomy, weighed⟩ := weighAt_inside roomy open_ held closed
      rw [weighed, fullWeight_inside open_ apart]
      exact weighAll_le fun x member t => ih x member roomy t

theorem fullWeight_le_weighAt (roomy : Roomy s path room)
    (within : weighAt s limit room path v total ≤ limit) :
    total + fullWeight s path v ≤ weighAt s limit room path v total := by
  induction path, v using inside_induction s generalizing room total with
  | leaf path v leaf => rw [weighAt_leaf leaf, fullWeight_leaf leaf]
  | shut path v open_ shut =>
      rw [weighAt_shut open_ (Bool.or_eq_true_iff.mp shut), fullWeight_shut open_ shut]
  | opened path v open_ apart ih =>
      obtain ⟨held, closed⟩ := Bool.or_eq_false_iff.mp apart
      obtain ⟨less, roomy, weighed⟩ := weighAt_inside roomy open_ held closed
      rw [weighed] at within ⊢
      rw [fullWeight_inside open_ apart]
      exact weighAll_ge (fun x member t within => ih x member roomy within) within

-- The weight is exact up to the limit.
theorem weight_eq_fullWeight (within : fullWeight s [] v ≤ limit) :
    weight s limit v = fullWeight s [] v := by
  have below : weight s limit v ≤ 0 + fullWeight s [] v := weighAt_le_fullWeight (roomy_nil s) 0
  have above : 0 + fullWeight s [] v ≤ weight s limit v :=
    fullWeight_le_weighAt (roomy_nil s) (by rw [weight] at below; omega)
  omega

theorem lt_weight (beyond : limit < fullWeight s [] v) : limit < weight s limit v := by
  by_contra within
  rw [Nat.not_lt] at within
  have above : 0 + fullWeight s [] v ≤ weight s limit v :=
    fullWeight_le_weighAt (roomy_nil s) within
  omega

/-! ### On a stack -/

/-- What a walk has still to do. -/
inductive Task where
  | visit (v : Value)
  /-- All that a container holds has been visited. -/
  | leave (v : Value)

/-- A walk through a value. -/
structure Walk where
  /-- What is to be done next comes first. -/
  tasks : List Task
  /-- The containers that are open. -/
  opened : List Value
  total : Nat

namespace Walk

def start (v : Value) : Walk :=
  { tasks := [.visit v], opened := [], total := 0 }

/-- Do what comes next. What a container holds is visited from the last to the first. -/
def step (s : Store) (w : Walk) : Walk :=
  match w.tasks with
  | [] => w
  | .leave v :: rest => { w with tasks := rest, opened := w.opened.filter fun u => !same v u }
  | .visit v :: rest =>
      if v.isLeaf then { w with tasks := rest, total := w.total + leafWeight v }
      else if (inside s v).isEmpty || w.opened.any (same v) then
        { w with tasks := rest, total := w.total + 1 }
      else
        { w with
          tasks := (inside s v).reverse.map .visit ++ .leave v :: rest
          opened := v :: w.opened }

/-- Nothing is left to do, or the limit is passed. -/
def isOver (limit : Int) (w : Walk) : Bool :=
  w.tasks.isEmpty || limit < w.total

/-- So many steps, fewer if the walk is over before. -/
def run (s : Store) (limit : Int) : Nat → Walk → Walk
  | 0, w => w
  | steps + 1, w => if w.isOver limit then w else run s limit steps (w.step s)

/-- The walk gets from one state to another. -/
def Reaches (s : Store) (limit : Int) (w after : Walk) : Prop :=
  ∃ steps, run s limit steps w = after

variable {w next after : Walk} {bound : Int} {rest : List Task}

theorem reaches_self (w : Walk) : Reaches s bound w w :=
  ⟨0, rfl⟩

theorem Reaches.step (going : w.isOver bound = false) (later : Reaches s bound (w.step s) after) :
    Reaches s bound w after := by
  obtain ⟨steps, ran⟩ := later
  exact ⟨steps + 1, by rw [run, going]; exact ran⟩

theorem reaches_of_step (going : w.isOver bound = false) (done : w.step s = after) :
    Reaches s bound w after :=
  .step going (done ▸ reaches_self _)

theorem Reaches.trans (first : Reaches s bound w next) (later : Reaches s bound next after) :
    Reaches s bound w after := by
  obtain ⟨steps, ran⟩ := first
  induction steps generalizing w with
  | zero =>
      obtain rfl : w = next := ran
      exact later
  | succ steps ih =>
      cases ended : w.isOver bound with
      | false =>
          rw [run, ended] at ran
          exact .step ended (ih ran)
      | true =>
          rw [run, ended] at ran
          obtain rfl : w = next := ran
          exact later

theorem step_leaf (leaf : v.isLeaf = true) :
    step s { tasks := .visit v :: rest, opened := path, total } =
      { tasks := rest, opened := path, total := total + leafWeight v } := by
  simp only [step, leaf, if_true]

theorem step_shut (open_ : v.isLeaf = false)
    (shut : ((inside s v).isEmpty || path.any (same v)) = true) :
    step s { tasks := .visit v :: rest, opened := path, total } =
      { tasks := rest, opened := path, total := total + 1 } := by
  simp only [step, open_, shut, Bool.false_eq_true, if_false, if_true]

theorem step_open (open_ : v.isLeaf = false)
    (apart : ((inside s v).isEmpty || path.any (same v)) = false) :
    step s { tasks := .visit v :: rest, opened := path, total } =
      { tasks := (inside s v).reverse.map .visit ++ .leave v :: rest
        opened := v :: path, total } := by
  simp only [step, open_, apart, Bool.false_eq_true, if_false]

theorem same_self (open_ : v.isLeaf = false) : same v v = true := by
  cases v with
  | tuple tag items | list r | dict r => simp [same]
  | _ => cases open_

-- Leaving a container closes no other.
theorem step_leave (open_ : v.isLeaf = false) (closed : path.any (same v) = false) :
    step s { tasks := .leave v :: rest, opened := v :: path, total } =
      { tasks := rest, opened := path, total } := by
  have kept : (v :: path).filter (fun u => !same v u) = path := by
    rw [List.filter_cons_of_neg (by simp [same_self open_]), List.filter_eq_self]
    intro u member
    simpa using List.any_eq_false.mp closed u member
  simp only [step, kept]

theorem not_isOver (task : Task) (within : total ≤ limit) :
    isOver limit { tasks := task :: rest, opened := path, total } = false := by
  simpa [isOver] using within

/-- The walk comes to a total. Up to the limit it has then done one task, or several, and has the
others left, with the same containers open. -/
def Adds (s : Store) (limit : Nat) (tasks rest : List Task) (path : List Value)
    (total sum : Nat) : Prop :=
  ∃ after, Reaches s limit { tasks, opened := path, total } after ∧ after.total = sum ∧
    (sum ≤ limit → after = { tasks := rest, opened := path, total := sum })

theorem adds_visitAll {weigh : Value → Nat → Nat} {items : List Value}
    (each : ∀ x ∈ items, ∀ rest total, total ≤ limit →
      Adds s limit (.visit x :: rest) rest path total (weigh x total))
    (rest : List Task) :
    Adds s limit (items.reverse.map .visit ++ rest) rest path total
      (weighAll limit weigh items total) := by
  induction items generalizing rest with
  | nil => exact ⟨_, reaches_self _, rfl, fun _ => rfl⟩
  | cons x items ih =>
      have split : (x :: items).reverse.map Task.visit ++ rest
          = items.reverse.map Task.visit ++ .visit x :: rest := by simp
      obtain ⟨next, reached, sum, whole⟩ :=
        ih (fun y member => each y (List.mem_cons_of_mem x member)) (.visit x :: rest)
      rw [split, weighAll_cons]
      split
      · rename_i passed
        exact ⟨next, reached, sum, fun within => absurd within (Nat.not_le_of_gt passed)⟩
      · rename_i within
        rw [Nat.not_lt] at within
        obtain rfl := whole within
        obtain ⟨after, later, result⟩ := each x List.mem_cons_self rest _ within
        exact ⟨after, reached.trans later, result⟩

theorem adds_visit (roomy : Roomy s path room) (rest : List Task) (within : total ≤ limit) :
    Adds s limit (.visit v :: rest) rest path total (weighAt s limit room path v total) := by
  induction path, v using inside_induction s generalizing room rest total with
  | leaf path v leaf =>
      rw [weighAt_leaf leaf]
      exact ⟨_, reaches_of_step (not_isOver _ within) (step_leaf leaf), rfl, fun _ => rfl⟩
  | shut path v open_ shut =>
      rw [weighAt_shut open_ (Bool.or_eq_true_iff.mp shut)]
      exact ⟨_, reaches_of_step (not_isOver _ within) (step_shut open_ shut), rfl, fun _ => rfl⟩
  | opened path v open_ apart ih =>
      obtain ⟨held, closed⟩ := Bool.or_eq_false_iff.mp apart
      obtain ⟨less, roomy, weighed⟩ := weighAt_inside roomy open_ held closed
      obtain ⟨next, reached, sum, whole⟩ :=
        adds_visitAll (fun x member rest total within => ih x member roomy rest within)
          (.leave v :: rest)
      have entered := (reaches_of_step (not_isOver _ within) (step_open open_ apart)).trans reached
      rw [weighed]
      by_cases inner : next.total ≤ limit
      · obtain rfl := whole (sum ▸ inner)
        refine ⟨_, entered.trans ?_, rfl, fun _ => rfl⟩
        exact reaches_of_step (not_isOver _ inner) (step_leave open_ closed)
      · exact ⟨next, entered, sum, fun within => absurd (sum ▸ within) inner⟩

-- A walk from the start ends at the weight.
theorem ends_at_weight (s : Store) (v : Value) (limit : Nat) : ∃ after,
    Reaches s limit (start v) after ∧ after.isOver limit = true ∧
      after.total = weight s limit v := by
  obtain ⟨after, reached, sum, whole⟩ := adds_visit (v := v) (roomy_nil s) [] (Nat.zero_le limit)
  refine ⟨after, reached, ?_, sum⟩
  by_cases within : after.total ≤ limit
  · rw [whole (sum ▸ within)]
    rfl
  · rw [isOver, Bool.or_eq_true, decide_eq_true_eq]
    exact .inr (by omega)

end Walk

/-- The walk through a value of any store, with whatever is shared in it or open on the way to
itself, comes to an end for every limit. Its total is then the weight with nothing left out, if this
is within the limit, and above the limit otherwise; and it is the weight that evaluations
measure. -/
theorem walk_weighs (s : Store) (v : Value) (limit : Int) :
    ∃ steps, let w := Walk.run s limit steps (.start v)
      w.isOver limit = true ∧
        (fullWeight s [] v ≤ limit → w.total = fullWeight s [] v) ∧
          (limit < fullWeight s [] v → limit < w.total) ∧
            ∀ bound : Nat, limit = bound → w.total = weight s bound v := by
  obtain ⟨bound, rfl⟩ | below : (∃ bound : Nat, limit = bound) ∨ limit < 0 := by
    cases limit with
    | ofNat bound => exact .inl ⟨bound, rfl⟩
    | negSucc n => exact .inr (Int.negSucc_lt_zero n)
  · obtain ⟨after, ⟨steps, ran⟩, ended, sum⟩ := Walk.ends_at_weight s v bound
    refine ⟨steps, ?_⟩
    rw [ran]
    refine ⟨ended, fun within => ?_, fun beyond => ?_, fun other same => ?_⟩
    · rw [sum, weight_eq_fullWeight (Int.ofNat_le.mp within)]
    · rw [sum]
      exact Int.ofNat_lt.mpr (lt_weight (Int.ofNat_lt.mp beyond))
    · rw [← Int.ofNat_inj.mp same, sum]
  · refine ⟨0, ?_, fun within => by omega, fun _ => below, fun bound same => by omega⟩
    rw [Walk.isOver, Bool.or_eq_true, decide_eq_true_eq]
    exact .inr below

-- A list that holds itself twice and one thing more counts one for each.
example : (Walk.run { lists := #[[.list 0, .none, .list 0]], dicts := #[], nextTag := 1 } 10 5
    (.start (.list 0))).total = 3 := by
  rfl

end Snippet.Value
