import Mathlib.Control.Basic
import Mathlib.Data.List.InsertIdx
import Snippet.Sorting

/-!
Sorting sees its items through the test alone: items that are replaced by others of which the test
says the same are put into the same order.
-/

set_option autoImplicit false

namespace Snippet.Sorting

variable {α β ε : Type} (f : α → β) (lt : β → β → Except ε Bool)

/-- The test of the items that replace others. -/
abbrev along (x y : α) : Except ε Bool :=
  lt (f x) (f y)

theorem runLength_map (descending : Bool) (x : α) (xs : List α) :
    runLength lt descending (f x) (xs.map f) = runLength (along f lt) descending x xs := by
  induction xs generalizing x with
  | nil => rfl
  | cons y rest ih => simp only [List.map_cons, runLength, ih]

theorem splitRun_map (xs : List α) :
    splitRun lt (xs.map f)
      = Prod.map (Array.map f) (List.map f) <$> splitRun (along f lt) xs := by
  rcases xs with _ | ⟨x, _ | ⟨y, rest⟩⟩
  · simp [splitRun]
  · simp [splitRun]
  · simp only [List.map_cons, splitRun, runLength_map, map_bind, map_pure, Prod.map]
    congr 1
    funext descending
    congr 1
    funext length
    cases descending <;> simp [← List.map_take, ← List.map_drop]

theorem insertIdxIfInBounds_map (xs : Array α) (i : Nat) (x : α) :
    (xs.map f).insertIdxIfInBounds i (f x) = (xs.insertIdxIfInBounds i x).map f := by
  obtain ⟨items⟩ := xs
  simp [List.map_insertIdx]

theorem insert_map (sorted : Array α) (x : α) :
    insert lt (sorted.map f) (f x) = Array.map f <$> insert (along f lt) sorted x := by
  simp only [insert, Array.size_map, map_bind, map_pure, insertIdxIfInBounds_map]
  congr 2
  funext i
  rw [Array.getElem?_map]
  cases sorted[i]? <;> rfl

theorem foldlM_insert_map (xs : List α) (run : Array α) :
    (xs.map f).foldlM (insert lt) (run.map f)
      = Array.map f <$> xs.foldlM (insert (along f lt)) run := by
  induction xs generalizing run with
  | nil => simp
  | cons x rest ih =>
      simp only [List.map_cons, List.foldlM_cons, insert_map, bind_map_left, map_bind, ih]

theorem takeRun_map (least : Nat) (xs : List α) :
    takeRun lt least (xs.map f)
      = Prod.map (Array.map f) (List.map f) <$> takeRun (along f lt) least xs := by
  simp only [takeRun, splitRun_map, bind_map_left, map_bind, Prod.map, Array.size_map,
    ← List.map_take, ← List.map_drop, foldlM_insert_map, map_pure]

/-! ### Merging -/

def Rest.map (r : Rest α) : Rest β where
  items := r.items.map f
  start := r.start
  stop := r.stop

def Merging.map (m : Merging α) : Merging β where
  left := m.left.map f
  right := m.right.map f
  taken := m.taken.map f

theorem Rest.next?_map (r : Rest α) (e : End) : (r.map f).next? e = (r.next? e).map f := by
  cases e <;> simp [Rest.next?, Rest.map]

theorem Rest.split_map (r : Rest α) (count : Nat) (e : End) :
    (r.map f).split count e = Prod.map (Array.map f) (Rest.map f) (r.split count e) := by
  cases e <;> simp [Rest.split, Rest.map]

theorem Rest.leading_map (r : Rest α) (holds : β → Except ε Bool) (e : End) :
    (r.map f).leading holds e = r.leading (fun x => holds (f x)) e := by
  unfold Rest.leading
  extract_lets holdsAt holdsAt'
  have same : holdsAt = holdsAt' := by
    funext i
    dsimp only [holdsAt, holdsAt', Rest.map]
    rw [Array.getElem?_map]
    cases r.items[r.start + i]? <;> rfl
  rw [same]
  cases e <;> rfl

theorem Merging.take_map (m : Merging α) (e : End) (count : Nat) (side : Side) :
    (m.map f).take e count side = (m.take e count side).map f := by
  cases side <;> simp [Merging.take, Merging.map, Rest.split_map, Prod.map]

theorem Merging.isOver_map (m : Merging α) (e : End) : (m.map f).isOver e = m.isOver e := by
  cases e <;> rfl

theorem Merging.finish_map (m : Merging α) (e : End) : (m.map f).finish e = (m.finish e).map f := by
  cases e <;> simp [Merging.finish, Merging.map, Rest.toArray, Rest.map]

theorem takeTurns_map (e : End) (patience fuel : Nat) (last : Side) (wins : Nat) (m : Merging α) :
    takeTurns lt e patience fuel last wins (m.map f)
      = Merging.map f <$> takeTurns (along f lt) e patience fuel last wins m := by
  induction fuel generalizing last wins m with
  | zero => rfl
  | succ fuel ih =>
      have left : (m.map f).left.next? e = (m.left.next? e).map f := Rest.next?_map f _ e
      have right : (m.map f).right.next? e = (m.right.next? e).map f := Rest.next?_map f _ e
      simp only [takeTurns, left, right]
      cases m.left.next? e with
      | none => rfl
      | some x =>
          cases m.right.next? e with
          | none => rfl
          | some y =>
              simp only [Option.map_some, map_bind, Merging.take_map, Merging.isOver_map, ih,
                apply_ite (Merging.map f <$> ·), map_pure]
              rfl

theorem takeStride_map (e : End) (side : Side) (m : Merging α) :
    takeStride lt e side (m.map f)
      = Prod.map id (Merging.map f) <$> takeStride (along f lt) e side m := by
  have left : (m.map f).left.next? e = (m.left.next? e).map f := Rest.next?_map f _ e
  have right : (m.map f).right.next? e = (m.right.next? e).map f := Rest.next?_map f _ e
  have lefts (holds : β → Except ε Bool) :
      (m.map f).left.leading holds e = m.left.leading (fun x => holds (f x)) e :=
    Rest.leading_map f _ holds e
  have rights (holds : β → Except ε Bool) :
      (m.map f).right.leading holds e = m.right.leading (fun y => holds (f y)) e :=
    Rest.leading_map f _ holds e
  simp only [takeStride, left, right, Merging.take_map, Merging.isOver_map,
    ← apply_ite (Merging.map f)]
  cases side <;> cases m.left.next? e <;> cases m.right.next? e <;>
    simp only [Option.map_some, Option.map_none, lefts, rights, map_bind, map_pure, Prod.map,
      id_eq, along]

theorem takeStrides_map (e : End) (fuel patience : Nat) (m : Merging α) :
    takeStrides lt e fuel patience (m.map f)
      = Prod.map id (Merging.map f) <$> takeStrides (along f lt) e fuel patience m := by
  induction fuel generalizing patience m with
  | zero => rfl
  | succ fuel ih =>
      simp only [takeStrides, takeStride_map, bind_map_left, map_bind, Prod.map, id_eq,
        Merging.isOver_map]
      congr 1
      funext first
      split
      · rfl
      · simp only [map_bind]
        congr 1
        funext second
        split
        · rfl
        · split
          · exact ih _ _
          · rfl

theorem takeAll_map (e : End) (fuel patience : Nat) (m : Merging α) :
    takeAll lt e fuel patience (m.map f)
      = Prod.map id (Merging.map f) <$> takeAll (along f lt) e fuel patience m := by
  induction fuel generalizing patience m with
  | zero => rfl
  | succ fuel ih =>
      simp only [takeAll, takeTurns_map, takeStrides_map, bind_map_left, Prod.map, id_eq,
        Merging.isOver_map, ih]
      split
      · rfl
      · simp only [map_bind]
        congr 1
        funext turned
        split
        · rfl
        · simp only [map_bind]

theorem merge_map (patience : Nat) (xs ys : Array α) :
    merge lt patience (xs.map f) (ys.map f)
      = Prod.map id (Array.map f) <$> merge (along f lt) patience xs ys := by
  have leading (items : Array α) (start stop : Nat) (holds : β → Except ε Bool) (e : End) :
      (Rest.mk (items.map f) start stop).leading holds e
        = (Rest.mk items start stop).leading (fun x => holds (f x)) e :=
    Rest.leading_map f ⟨items, start, stop⟩ holds e
  have length (items : Array α) (start stop : Nat) :
      (Rest.mk (items.map f) start stop).length = (Rest.mk items start stop).length :=
    rfl
  have begun (i j k l : Nat) :
      Merging.mk ⟨xs.map f, i, j⟩ ⟨ys.map f, k, l⟩ #[]
        = Merging.map f ⟨⟨xs, i, j⟩, ⟨ys, k, l⟩, #[]⟩ := by
    simp [Merging.map, Rest.map]
  simp only [merge, Array.back?_map, Array.getElem?_map, Array.size_map]
  cases xs.back? with
  | none => simp
  | some x =>
      cases ys[0]? with
      | none => simp
      | some y =>
          -- The same branches on both sides: nothing of the left left over, nothing of the right,
          -- or a take.
          simp only [Option.map_some, leading, length, map_bind]
          congr 1
          funext skipped
          by_cases first : (Rest.mk xs skipped xs.size).length == 0
          · simp [first]
          · simp only [first, Bool.false_eq_true, if_false, map_bind]
            congr 1
            funext settled
            by_cases second : (Rest.mk ys 0 (ys.size - settled)).length == 0
            · simp [second]
            · simp only [second, Bool.false_eq_true, if_false, begun, Merging.take_map, takeAll_map,
                bind_map_left, map_bind, map_pure, Prod.map, id_eq, Merging.finish_map,
                Array.map_append, Array.map_extract]

/-! ### Runs -/

def Block.map (b : Block α) : Block β where
  items := b.items.map f
  start := b.start
  depth := b.depth

def Pending.map (p : Pending α) : Pending β where
  blocks := p.blocks.map (Block.map f)
  patience := p.patience

theorem Block.merge_map (patience : Nat) (left right : Block α) :
    (left.map f).merge lt patience (right.map f)
      = Prod.map id (Block.map f) <$> left.merge (along f lt) patience right := by
  simp only [Block.merge, Block.map, Sorting.merge_map, bind_map_left, map_bind, map_pure]
  rfl

theorem mergeDeeper_map (depth fuel : Nat) (p : Pending α) :
    mergeDeeper lt depth fuel (p.map f) = Pending.map f <$> mergeDeeper (along f lt) depth fuel p := by
  induction fuel generalizing p with
  | zero => rfl
  | succ fuel ih =>
      obtain ⟨_ | ⟨right, _ | ⟨left, blocks⟩⟩, patience⟩ := p
      · rfl
      · rfl
      · have deeper (block : Block α) (patience : Nat) := ih ⟨block :: blocks, patience⟩
        simp only [Pending.map, List.map_cons] at deeper
        simp only [Pending.map, List.map_cons, mergeDeeper, Block.merge_map, bind_map_left,
          Prod.map, id_eq, deeper]
        have same : (left.map f).depth = left.depth := rfl
        rw [same]
        by_cases below : depth < left.depth
        · simp only [below, if_true, map_bind]
        · simp only [below, if_false]
          rfl

theorem addRun_map (total start : Nat) (run : Array α) (p : Pending α) :
    addRun lt total start (run.map f) (p.map f)
      = Pending.map f <$> addRun (along f lt) total start run p := by
  obtain ⟨_ | ⟨last, blocks⟩, patience⟩ := p
  · rfl
  · have deeper (depth fuel : Nat) := mergeDeeper_map f lt depth fuel ⟨last :: blocks, patience⟩
    simp only [Pending.map, List.map_cons] at deeper
    have start_eq : (last.map f).start = last.start := rfl
    have size_eq : (last.map f).items.size = last.items.size := Array.size_map
    simp only [Pending.map, addRun, List.map_cons, List.length_cons, List.length_map, start_eq,
      size_eq, Array.size_map, deeper, bind_map_left, map_bind]
    congr 1
    funext merged
    obtain ⟨_ | ⟨last, blocks⟩, patience⟩ := merged <;> rfl

theorem addRuns_map (total least fuel start : Nat) (xs : List α) (p : Pending α) :
    addRuns lt total least fuel start (xs.map f) (p.map f)
      = Pending.map f <$> addRuns (along f lt) total least fuel start xs p := by
  induction fuel generalizing start xs p with
  | zero => rfl
  | succ fuel ih =>
      cases xs with
      | nil => rfl
      | cons x rest =>
          have taken := takeRun_map f lt least (x :: rest)
          rw [List.map_cons] at taken
          simp only [List.map_cons, addRuns, taken, bind_map_left, map_bind, Prod.map, addRun_map,
            Array.size_map, ih]

theorem items_flatMap_map (blocks : List (Block α)) :
    ((blocks.map (Block.map f)).reverse.flatMap fun block => block.items.toList)
      = (blocks.reverse.flatMap fun block => block.items.toList).map f := by
  simp [Block.map, List.map_flatMap, ← List.map_reverse, List.flatMap_map]

theorem mergeAll_map (fuel : Nat) (p : Pending α) :
    mergeAll lt fuel (p.map f) = List.map f <$> mergeAll (along f lt) fuel p := by
  -- Up to two runs, and any number of runs without fuel, are put together at once.
  have one (block : Block α) := congrArg (Except.ok (ε := ε)) (items_flatMap_map f [block])
  have two (left right : Block α) (patience : Nat) :
      (do
        let merged ← (left.map f).merge lt patience (right.map f)
        return merged.2.items.toList)
        = List.map f <$> (do
            let merged ← left.merge (along f lt) patience right
            return merged.2.items.toList : Except ε (List α)) := by
    rw [Block.merge_map, bind_map_left, map_bind]
    congr 1
    funext merged
    exact congrArg Except.ok Array.toList_map
  induction fuel generalizing p with
  | zero =>
      obtain ⟨_ | ⟨right, _ | ⟨middle, _ | ⟨left, blocks⟩⟩⟩, patience⟩ := p
      · rfl
      · exact one right
      · exact two middle right patience
      · exact congrArg Except.ok (items_flatMap_map f (right :: middle :: left :: blocks))
  | succ fuel ih =>
      obtain ⟨_ | ⟨right, _ | ⟨middle, _ | ⟨left, blocks⟩⟩⟩, patience⟩ := p
      · rfl
      · exact one right
      · exact two middle right patience
      · have inner (block : Block α) (patience : Nat) := ih ⟨right :: block :: blocks, patience⟩
        have outer (block : Block α) (patience : Nat) := ih ⟨block :: left :: blocks, patience⟩
        have left_size : (left.map f).items.size = left.items.size := Array.size_map
        have right_size : (right.map f).items.size = right.items.size := Array.size_map
        simp only [Pending.map, List.map_cons] at inner outer
        simp only [Pending.map, List.map_cons, mergeAll, left_size, right_size]
        by_cases shorter : left.items.size < right.items.size
        · simp only [shorter, if_true, Block.merge_map, bind_map_left, map_bind, Prod.map, id_eq,
            inner]
        · simp only [shorter, if_false, Block.merge_map, bind_map_left, map_bind, Prod.map, id_eq,
            outer]

theorem sortAscending_map (xs : List α) :
    sortAscending lt (xs.map f) = List.map f <$> sortAscending (along f lt) xs := by
  have added := addRuns_map f lt xs.length (leastRun xs.length) xs.length 0 xs ⟨[], shortStride⟩
  have length_eq (p : Pending α) : (p.map f).blocks.length = p.blocks.length := List.length_map _
  rw [Pending.map, List.map_nil] at added
  simp only [sortAscending, List.length_map, added, bind_map_left, map_bind, mergeAll_map, length_eq]

/-- Sorting items by what replaces them is sorting what replaces them. -/
theorem sort_map (reversed : Bool) (xs : List α) :
    sort lt reversed (xs.map f) = List.map f <$> sort (along f lt) reversed xs := by
  cases reversed with
  | false => exact sortAscending_map f lt xs
  | true =>
      simp only [sort, if_true, ← List.map_reverse, sortAscending_map, Functor.map_map]

end Snippet.Sorting
