import Snippet.Sorting.Search

/-!
Merging of two sorted runs, by single items while they alternate and by long strides while one of
them keeps winning. The work starts at the end where the shorter run is.
-/

set_option autoImplicit false

namespace Snippet.Sorting

variable {α ε : Type}

/-- The end that two runs are merged from. -/
inductive End where
  | front | back
  deriving DecidableEq

inductive Side where
  | left | right
  deriving DecidableEq

def Side.other : Side → Side
  | .left => .right
  | .right => .left

/-- What is left of a run. -/
structure Rest (α : Type) where
  items : Array α
  start : Nat
  stop : Nat

def Rest.length (r : Rest α) : Nat := r.stop - r.start

def Rest.toArray (r : Rest α) : Array α := r.items.extract r.start r.stop

/-- The item that is merged next. -/
def Rest.next? (r : Rest α) : End → Option α
  | .front => r.items[r.start]?
  | .back => r.items[r.stop - 1]?

/-- The next items in the order in which they are taken, and what they leave. -/
def Rest.split (r : Rest α) (count : Nat) : End → Array α × Rest α
  | .front => (r.items.extract r.start (r.start + count), { r with start := r.start + count })
  | .back =>
      ((r.items.extract (r.stop - count) r.stop).reverse, { r with stop := r.stop - count })

/-- How many of the next items are on one side of a border, of which a test holds before it. -/
def Rest.leading (r : Rest α) (holds : α → Except ε Bool) (e : End) : Except ε Nat := do
  let holdsAt (i : Nat) : Except ε Bool :=
    match r.items[r.start + i]? with
    | some x => holds x
    | none => .ok false
  match e with
  | .front => borderFrom holdsAt r.length 0
  | .back => return r.length - (← borderFrom holdsAt r.length (r.length - 1))

/-- Two runs while they are merged: what is left of them, and the items taken in their order. -/
structure Merging (α : Type) where
  left : Rest α
  right : Rest α
  taken : Array α

def Merging.take (m : Merging α) (e : End) (count : Nat) : Side → Merging α
  | .left =>
      let (items, rest) := m.left.split count e
      { m with left := rest, taken := m.taken ++ items }
  | .right =>
      let (items, rest) := m.right.split count e
      { m with right := rest, taken := m.taken ++ items }

/-- Whether the places of all that is left are known. -/
def Merging.isOver (m : Merging α) : End → Bool
  | .front => m.right.length == 0 || m.left.length ≤ 1
  | .back => m.left.length == 0 || m.right.length ≤ 1

/-- All items, those that are left between the ones taken and the far end. -/
def Merging.finish (m : Merging α) : End → Array α
  | .front => m.taken ++ m.right.toArray ++ m.left.toArray
  | .back => m.right.toArray ++ m.left.toArray ++ m.taken.reverse

/-- The side of which the next item is taken. -/
def winner (lt : α → α → Except ε Bool) (e : End) (x y : α) : Except ε Side := do
  match ← lt y x, e with
  | true, .front | false, .back => return .right
  | false, .front | true, .back => return .left

/-- Single items, until one side has won as often in a row as the patience allows. -/
def takeTurns (lt : α → α → Except ε Bool) (e : End) (patience : Nat) :
    Nat → Side → Nat → Merging α → Except ε (Merging α)
  | 0, _, _, m => .ok m
  | fuel + 1, last, wins, m => do
      match m.left.next? e, m.right.next? e with
      | some x, some y =>
          let side ← winner lt e x y
          let wins := if side == last then wins + 1 else 1
          let m := m.take e 1 side
          if m.isOver e || patience ≤ wins then return m
          else takeTurns lt e patience fuel side wins m
      | _, _ => return m

/--
The items of one side that come before the next item of the other, and that item. Equal items of
the left run come first. The number says how many there were before it.
-/
def takeStride (lt : α → α → Except ε Bool) (e : End) (side : Side) (m : Merging α) :
    Except ε (Nat × Merging α) := do
  let count ←
    match side, m.left.next? e, m.right.next? e with
    | .left, _, some y => m.left.leading (fun x => not <$> lt y x) e
    | .right, some x, _ => m.right.leading (fun y => lt y x) e
    | _, _, _ => pure 0
  let m := m.take e count side
  return (count, if m.isOver e then m else m.take e 1 side.other)

/-- Strides shorter than this on both sides lead back to single items. -/
def shortStride : Nat := 7

/--
Strides while they are long. Each pass makes the patience with single items less, and the end of
the strides makes it greater.
-/
def takeStrides (lt : α → α → Except ε Bool) (e : End) :
    Nat → Nat → Merging α → Except ε (Nat × Merging α)
  | 0, patience, m => .ok (patience, m)
  | fuel + 1, patience, m => do
      let (lefts, m) ← takeStride lt e .left m
      if m.isOver e then return (patience, m)
      let (rights, m) ← takeStride lt e .right m
      if m.isOver e then return (patience, m)
      if shortStride ≤ max lefts rights then takeStrides lt e fuel (max 1 (patience - 1)) m
      else return (patience + 1, m)

def takeAll (lt : α → α → Except ε Bool) (e : End) :
    Nat → Nat → Merging α → Except ε (Nat × Merging α)
  | 0, patience, m => .ok (patience, m)
  | fuel + 1, patience, m => do
      if m.isOver e then return (patience, m)
      let m ← takeTurns lt e patience fuel .left 0 m
      if m.isOver e then return (patience, m)
      let (patience, m) ← takeStrides lt e fuel patience m
      takeAll lt e fuel patience m

/--
Merge two runs, given the patience that earlier merges have left. Items at the far ends that are in
place already stay there.
-/
def merge (lt : α → α → Except ε Bool) (patience : Nat) (xs ys : Array α) :
    Except ε (Nat × Array α) := do
  match xs.back?, ys[0]? with
  | some x, some y =>
      let skipped ← (Rest.mk xs 0 xs.size).leading (fun x => not <$> lt y x) .front
      let left : Rest α := ⟨xs, skipped, xs.size⟩
      if left.length == 0 then return (patience, xs ++ ys)
      let settled ← (Rest.mk ys 0 ys.size).leading (fun y => lt y x) .back
      let right : Rest α := ⟨ys, 0, ys.size - settled⟩
      if right.length == 0 then return (patience, xs ++ ys)
      let (e, side) : End × Side :=
        if left.length ≤ right.length then (.front, .right) else (.back, .left)
      let m := (Merging.mk left right #[]).take e 1 side
      let (patience, m) ← takeAll lt e (xs.size + ys.size) patience m
      return (patience, xs.extract 0 skipped ++ m.finish e ++ ys.extract right.stop ys.size)
  | _, _ => return (patience, xs ++ ys)

end Snippet.Sorting
