import Snippet.Sorting.Merge

/-!
Stable sorting by a test that may fail. A list is cut into runs that are in order; short runs are
made longer by insertion, and neighbours are merged in the order of a nearly balanced tree. The
order of the tests is fixed, and with it what happens to items that the test does not order.
-/

set_option autoImplicit false

namespace Snippet.Sorting

variable {α ε : Type}

/-- The length of the run after an item: each item before the one behind it, or none. -/
def runLength (lt : α → α → Except ε Bool) (descending : Bool) :
    α → List α → Except ε Nat
  | _, [] => .ok 0
  | x, y :: rest => do
      if (← lt y x) == descending then return (← runLength lt descending y rest) + 1
      else return 0

/-- The run at the start of a list, ascending, and what follows it. -/
def splitRun (lt : α → α → Except ε Bool) : List α → Except ε (Array α × List α)
  | x :: y :: rest => do
      let descending ← lt y x
      let length := (← runLength lt descending y rest) + 2
      let run := ((x :: y :: rest).take length).toArray
      return (if descending then run.reverse else run, (x :: y :: rest).drop length)
  | xs => .ok (xs.toArray, [])

/-- Put an item among sorted ones, behind those that are not greater. -/
def insert (lt : α → α → Except ε Bool) (sorted : Array α) (x : α) : Except ε (Array α) := do
  let staysBefore (i : Nat) : Except ε Bool :=
    match sorted[i]? with
    | some y => not <$> lt x y
    | none => .ok false
  return sorted.insertIdxIfInBounds (← borderWithin staysBefore 0 sorted.size) x

/-- A run of at least the given length, if so many items are left, and what follows it. -/
def takeRun (lt : α → α → Except ε Bool) (least : Nat) (xs : List α) :
    Except ε (Array α × List α) := do
  let (run, rest) ← splitRun lt xs
  let missing := least - run.size
  return (← (rest.take missing).foldlM (insert lt) run, rest.drop missing)

/-- The least length of a run: all of a short list, or a part that halving it ends with. -/
def leastRun (length : Nat) : Nat :=
  if length < 64 then length else halved length length 0
where
  halved : Nat → Nat → Nat → Nat
    | 0, n, odd => n + odd
    | fuel + 1, n, odd =>
        if n < 64 then n + odd else halved fuel (n / 2) (if n % 2 == 1 then 1 else odd)

/-- A run in its place, and the depth in the tree of the border behind it. -/
structure Block (α : Type) where
  items : Array α
  start : Nat
  depth : Nat

/--
The depth of the border between two neighbours, in the tree that halves the whole length again and
again: the number of the first binary digit in which the middles of the two differ.
-/
def borderDepth (total start left right : Nat) : Nat :=
  go total (2 * start + left) (2 * start + 2 * left + right)
where
  go : Nat → Nat → Nat → Nat
    | 0, _, _ => 1
    | fuel + 1, a, b =>
        if total ≤ a then go fuel (2 * (a - total)) (2 * (b - total)) + 1
        else if total ≤ b then 1
        else go fuel (2 * a) (2 * b) + 1

/-- The runs that are not merged yet, the last one first, and the patience of merges. -/
structure Pending (α : Type) where
  blocks : List (Block α)
  patience : Nat

def Block.merge (lt : α → α → Except ε Bool) (patience : Nat) (left right : Block α) :
    Except ε (Nat × Block α) := do
  let (patience, items) ← Sorting.merge lt patience left.items right.items
  return (patience, { left with items })

/-- Merge the last runs while the border before the last one lies deeper than the given depth. -/
def mergeDeeper (lt : α → α → Except ε Bool) (depth : Nat) :
    Nat → Pending α → Except ε (Pending α)
  | fuel + 1, ⟨right :: left :: blocks, patience⟩ => do
      if depth < left.depth then
        let (patience, block) ← left.merge lt patience right
        mergeDeeper lt depth fuel ⟨block :: blocks, patience⟩
      else return ⟨right :: left :: blocks, patience⟩
  | _, pending => .ok pending

/-- Add a run, after the merges that its place calls for. -/
def addRun (lt : α → α → Except ε Bool) (total start : Nat) (run : Array α)
    (pending : Pending α) : Except ε (Pending α) := do
  let added : Block α := ⟨run, start, 0⟩
  match pending.blocks with
  | [] => return { pending with blocks := [added] }
  | last :: _ =>
      let depth := borderDepth total last.start last.items.size run.size
      let merged ← mergeDeeper lt depth pending.blocks.length pending
      match merged.blocks with
      | [] => return { merged with blocks := [added] }
      | last :: blocks => return { merged with blocks := added :: { last with depth } :: blocks }

def addRuns (lt : α → α → Except ε Bool) (total least : Nat) :
    Nat → Nat → List α → Pending α → Except ε (Pending α)
  | 0, _, _, pending | _, _, [], pending => .ok pending
  | fuel + 1, start, xs, pending => do
      let (run, rest) ← takeRun lt least xs
      addRuns lt total least fuel (start + run.size) rest (← addRun lt total start run pending)

/-- Merge all runs from the last one on, the shorter neighbour of the last but one first. -/
def mergeAll (lt : α → α → Except ε Bool) : Nat → Pending α → Except ε (List α)
  | fuel + 1, ⟨right :: middle :: left :: blocks, patience⟩ => do
      if left.items.size < right.items.size then
        let (patience, block) ← left.merge lt patience middle
        mergeAll lt fuel ⟨right :: block :: blocks, patience⟩
      else
        let (patience, block) ← middle.merge lt patience right
        mergeAll lt fuel ⟨block :: left :: blocks, patience⟩
  | _, ⟨[right, left], patience⟩ => do
      let (_, block) ← left.merge lt patience right
      return block.items.toList
  | _, ⟨blocks, _⟩ => .ok (blocks.reverse.flatMap fun block => block.items.toList)

def sortAscending (lt : α → α → Except ε Bool) (xs : List α) : Except ε (List α) := do
  let pending ← addRuns lt xs.length (leastRun xs.length) xs.length 0 xs ⟨[], shortStride⟩
  mergeAll lt pending.blocks.length pending

/-- Sort; the reverse order keeps equal items in their order too. -/
def sort (lt : α → α → Except ε Bool) (reversed : Bool) (xs : List α) : Except ε (List α) :=
  if reversed then List.reverse <$> sortAscending lt xs.reverse else sortAscending lt xs

end Snippet.Sorting
