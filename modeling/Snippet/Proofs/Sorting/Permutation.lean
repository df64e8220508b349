import Mathlib.Data.List.Perm.Basic
import Snippet.Sorting
import Snippet.Proofs.Program

/-!
Sorting neither loses nor repeats an item, whatever the test says of them.
-/

set_option autoImplicit false

namespace Snippet.Sorting

open scoped List

variable {α ε : Type}

theorem halve_le {holds : Nat → Except ε Bool} {fuel low high border : Nat}
    (found : halve holds fuel low high = .ok border) : border ≤ max low high := by
  induction fuel generalizing low high with
  | zero =>
      cases found
      exact Nat.le_max_left _ _
  | succ fuel ih =>
      rw [halve] at found
      split at found
      · rename_i apart
        obtain ⟨inside, -, found⟩ := bind_eq_ok.mp found
        split at found
        · have bounded := ih found
          omega
        · have bounded := ih found
          omega
      · cases found
        exact Nat.le_max_left _ _

theorem stride_le {passes : Nat → Except ε Bool} {limit fuel near far : Nat} {ends : Nat × Nat}
    (inside : near < limit) (found : stride passes limit fuel near far = .ok ends) :
    ends.1 < limit ∧ ends.2 ≤ limit := by
  induction fuel generalizing near far with
  | zero =>
      cases found
      exact ⟨inside, Nat.le_refl limit⟩
  | succ fuel ih =>
      rw [stride] at found
      split at found
      · rename_i before
        obtain ⟨passed, -, found⟩ := bind_eq_ok.mp found
        split at found
        · exact ih before found
        · cases found
          exact ⟨inside, Nat.le_of_lt before⟩
      · cases found
        exact ⟨inside, Nat.le_refl limit⟩

-- The border is sought among positions that exist.
theorem borderFrom_le {holds : Nat → Except ε Bool} {length border : Nat} (some : 0 < length)
    (found : borderFrom holds length 0 = .ok border) : border ≤ length := by
  rw [borderFrom] at found
  obtain ⟨starts, -, found⟩ := bind_eq_ok.mp found
  split at found
  · obtain ⟨ends, strode, found⟩ := bind_eq_ok.mp found
    have bounded : ends.1 < length - 0 ∧ ends.2 ≤ length - 0 := stride_le (by omega) strode
    have within := halve_le found
    omega
  · obtain ⟨ends, strode, found⟩ := bind_eq_ok.mp found
    have bounded : ends.1 < 0 + 1 ∧ ends.2 ≤ 0 + 1 := stride_le (by omega) strode
    have within := halve_le found
    omega

namespace Rest

/-- What is left lies inside the run. -/
structure Inside (r : Rest α) : Prop where
  ordered : r.start ≤ r.stop
  held : r.stop ≤ r.items.size

def list (r : Rest α) : List α :=
  r.toArray.toList

theorem toList_extract_eq (items : Array α) (start stop : Nat) :
    (items.extract start stop).toList = (items.toList.drop start).take (stop - start) := by
  rw [Array.toList_extract, List.extract_eq_take_drop]

theorem split_inside {r : Rest α} (inside : r.Inside) {count : Nat} (fits : count ≤ r.length)
    (e : End) : (r.split count e).2.Inside := by
  have ordered := inside.ordered
  have held := inside.held
  rw [length] at fits
  cases e with
  | front => exact ⟨by simp only [split]; omega, held⟩
  | back => exact ⟨by simp only [split]; omega, by simp only [split]; omega⟩

-- Taking items from either end takes them out of what is left.
theorem split_perm {r : Rest α} (inside : r.Inside) {count : Nat} (fits : count ≤ r.length)
    (e : End) : ((r.split count e).1.toList ++ (r.split count e).2.list).Perm r.list := by
  have ordered := inside.ordered
  have held := inside.held
  rw [length] at fits
  cases e with
  | front =>
      have whole : r.stop - r.start = (r.start + count - r.start) + (r.stop - (r.start + count)) := by
        omega
      apply List.Perm.of_eq
      simp only [split, list, toArray, toList_extract_eq]
      rw [whole, List.take_add, List.drop_drop]
      congr 3
      omega
  | back =>
      have whole : r.stop - r.start = (r.stop - count - r.start) + (r.stop - (r.stop - count)) := by
        omega
      simp only [split, list, toArray, Array.toList_reverse, toList_extract_eq]
      rw [whole, List.take_add, List.drop_drop,
        show r.start + (r.stop - count - r.start) = r.stop - count by omega]
      exact ((List.reverse_perm _).append_right _).trans List.perm_append_comm

theorem leading_le {r : Rest α} {holds : α → Except ε Bool} {e : End} {count : Nat}
    (some : 0 < r.length) (found : r.leading holds e = .ok count) : count ≤ r.length := by
  unfold leading at found
  cases e with
  | front => exact borderFrom_le some found
  | back =>
      obtain ⟨border, -, found⟩ := bind_eq_ok.mp found
      cases found
      exact Nat.sub_le _ _

end Rest

namespace Merging

/-- All items of two runs while they are merged. -/
def list (m : Merging α) : List α :=
  m.taken.toList ++ (m.left.list ++ m.right.list)

structure Inside (m : Merging α) : Prop where
  left : m.left.Inside
  right : m.right.Inside

def rest (m : Merging α) : Side → Rest α
  | .left => m.left
  | .right => m.right

-- What is merged keeps its items.
structure Keeps (m n : Merging α) : Prop where
  inside : n.Inside
  perm : n.list.Perm m.list

theorem Keeps.refl {m : Merging α} (inside : m.Inside) : Keeps m m :=
  ⟨inside, List.Perm.refl _⟩

theorem Keeps.trans {m n o : Merging α} (first : Keeps m n) (second : Keeps n o) : Keeps m o :=
  ⟨second.inside, second.perm.trans first.perm⟩

theorem keeps_take {m : Merging α} (inside : m.Inside) (e : End) {count : Nat} (side : Side)
    (fits : count ≤ (m.rest side).length) : Keeps m (m.take e count side) := by
  cases side with
  | left =>
      refine ⟨⟨Rest.split_inside inside.left fits e, inside.right⟩, ?_⟩
      have moved := Rest.split_perm inside.left fits e
      simp only [take, list, Array.toList_append, List.append_assoc]
      refine List.Perm.append_left _ ?_
      rw [← List.append_assoc]
      exact moved.append_right _
  | right =>
      refine ⟨⟨inside.left, Rest.split_inside inside.right fits e⟩, ?_⟩
      have moved := Rest.split_perm inside.right fits e
      simp only [take, list, Array.toList_append, List.append_assoc]
      refine List.Perm.append_left _ ?_
      refine (List.perm_append_comm_assoc _ _ _).trans ?_
      exact moved.append_left _

theorem finish_perm (m : Merging α) (e : End) : (m.finish e).toList.Perm m.list := by
  cases e with
  | front =>
      simp only [finish, list, Array.toList_append, List.append_assoc]
      exact List.perm_append_comm.append_left _
  | back =>
      simp only [finish, list, Array.toList_append, Array.toList_reverse, List.append_assoc]
      refine (List.perm_append_comm_assoc _ _ _).trans ?_
      rw [← List.append_assoc]
      refine List.perm_append_comm.trans ?_
      exact (List.reverse_perm _).append_right _

-- As long as a merge goes on, something is left on both sides.
theorem rest_pos {m : Merging α} {e : End} (going : ¬ m.isOver e = true) (side : Side) :
    0 < (m.rest side).length := by
  cases e <;> cases side <;> simp [isOver] at going <;> simp only [rest] <;> omega

end Merging

section Merge

variable {lt : α → α → Except ε Bool} {e : End} {patience fuel : Nat} {m n : Merging α}

theorem keeps_takeTurns {last : Side} {wins : Nat} (inside : m.Inside)
    (going : ¬ m.isOver e = true) (done : takeTurns lt e patience fuel last wins m = .ok n) :
    m.Keeps n := by
  induction fuel generalizing last wins m with
  | zero =>
      cases done
      exact .refl inside
  | succ fuel ih =>
      rw [takeTurns] at done
      split at done
      · obtain ⟨side, -, done⟩ := bind_eq_ok.mp done
        have taken := m.keeps_take inside e side (Merging.rest_pos going side)
        dsimp only at done
        by_cases enough : ((m.take e 1 side).isOver e ||
            decide (patience ≤ if side == last then wins + 1 else 1)) = true
        · rw [if_pos enough] at done
          cases done
          exact taken
        · rw [if_neg enough] at done
          simp only [Bool.or_eq_true, not_or] at enough
          exact taken.trans (ih taken.inside enough.1 done)
      · cases done
        exact .refl inside

theorem keeps_takeStride {side : Side} {count : Nat} (inside : m.Inside)
    (going : ¬ m.isOver e = true) (done : takeStride lt e side m = .ok (count, n)) : m.Keeps n := by
  have stride {counted : Nat} (fits : counted ≤ (m.rest side).length) :
      m.Keeps (if (m.take e counted side).isOver e then m.take e counted side
        else (m.take e counted side).take e 1 side.other) := by
    have taken := m.keeps_take inside e side fits
    split
    · exact taken
    · rename_i more
      exact taken.trans (Merging.keeps_take taken.inside e side.other (Merging.rest_pos more _))
  unfold takeStride at done
  split at done
  · obtain ⟨counted, found, done⟩ := bind_eq_ok.mp done
    cases done
    exact stride (Rest.leading_le (Merging.rest_pos going .left) found)
  · obtain ⟨counted, found, done⟩ := bind_eq_ok.mp done
    cases done
    exact stride (Rest.leading_le (Merging.rest_pos going .right) found)
  · cases done
    exact stride (Nat.zero_le _)

theorem keeps_takeStrides {after : Nat} (inside : m.Inside) (going : ¬ m.isOver e = true)
    (done : takeStrides lt e fuel patience m = .ok (after, n)) : m.Keeps n := by
  induction fuel generalizing patience m with
  | zero =>
      cases done
      exact .refl inside
  | succ fuel ih =>
      rw [takeStrides] at done
      obtain ⟨⟨lefts, first⟩, strode, done⟩ := bind_eq_ok.mp done
      have left := keeps_takeStride inside going strode
      dsimp only at done
      split at done
      · cases done
        exact left
      · rename_i more
        obtain ⟨⟨rights, second⟩, strode, done⟩ := bind_eq_ok.mp done
        have right := left.trans (keeps_takeStride left.inside more strode)
        dsimp only at done
        split at done
        · cases done
          exact right
        · rename_i again
          split at done
          · exact right.trans (ih right.inside again done)
          · cases done
            exact right

theorem keeps_takeAll {after : Nat} (inside : m.Inside)
    (done : takeAll lt e fuel patience m = .ok (after, n)) : m.Keeps n := by
  induction fuel generalizing patience m with
  | zero =>
      cases done
      exact .refl inside
  | succ fuel ih =>
      rw [takeAll] at done
      split at done
      · cases done
        exact .refl inside
      · rename_i going
        obtain ⟨turned, took, done⟩ := bind_eq_ok.mp done
        have turns := keeps_takeTurns inside going took
        split at done
        · cases done
          exact turns
        · rename_i more
          obtain ⟨⟨less, strode⟩, took, done⟩ := bind_eq_ok.mp done
          have strides := turns.trans (keeps_takeStrides turns.inside more took)
          exact strides.trans (ih strides.inside done)

theorem merged_perm {left right : Rest α} {side : Side} {after : Nat} (of_left : left.Inside)
    (of_right : right.Inside) (some : 0 < ((Merging.mk left right #[]).rest side).length)
    (done : takeAll lt e fuel patience ((Merging.mk left right #[]).take e 1 side) = .ok (after, n)) :
    (n.finish e).toList.Perm (left.list ++ right.list) := by
  have first := Merging.keeps_take (m := ⟨left, right, #[]⟩) ⟨of_left, of_right⟩ e side some
  have merged := first.trans (keeps_takeAll first.inside done)
  exact (n.finish_perm e).trans merged.perm

-- The ends that stay where they are, around what is merged between them.
theorem surrounded_perm {xs ys merged : Array α} {skipped stop : Nat}
    (perm : merged.toList.Perm ((Rest.mk xs skipped xs.size).list ++ (Rest.mk ys 0 stop).list)) :
    (xs.extract 0 skipped ++ merged ++ ys.extract stop ys.size).toList.Perm
      (xs.toList ++ ys.toList) := by
  have front : (xs.extract 0 skipped).toList ++ (Rest.mk xs skipped xs.size).list = xs.toList := by
    simp only [Rest.list, Rest.toArray, Rest.toList_extract_eq, List.drop_zero, Nat.sub_zero]
    rw [List.take_of_length_le (l := xs.toList.drop skipped) (by simp), List.take_append_drop]
  have back : (Rest.mk ys 0 stop).list ++ (ys.extract stop ys.size).toList = ys.toList := by
    simp only [Rest.list, Rest.toArray, Rest.toList_extract_eq, List.drop_zero, Nat.sub_zero]
    rw [List.take_of_length_le (l := ys.toList.drop stop) (by simp), List.take_append_drop]
  have kept : xs.toList ++ ys.toList = (xs.extract 0 skipped).toList
      ++ ((Rest.mk xs skipped xs.size).list ++ (Rest.mk ys 0 stop).list)
      ++ (ys.extract stop ys.size).toList := by
    rw [← List.append_assoc, front, List.append_assoc, back]
  rw [kept, Array.toList_append, Array.toList_append]
  exact (perm.append_left _).append_right _

theorem merge_perm {xs ys zs : Array α} {after : Nat}
    (done : merge lt patience xs ys = .ok (after, zs)) :
    zs.toList.Perm (xs.toList ++ ys.toList) := by
  rw [merge] at done
  split at done
  case h_2 =>
    cases done
    rw [Array.toList_append]
  rename_i x y last first
  have some : 0 < xs.size := by
    apply Nat.pos_of_ne_zero
    intro none
    simp [Array.size_eq_zero_iff.mp none] at last
  obtain ⟨skipped, counted, done⟩ := bind_eq_ok.mp done
  -- What the first run skips and what the second settles stay in their places around the merge.
  have from_left : skipped ≤ xs.size := Rest.leading_le (r := ⟨xs, 0, xs.size⟩) some counted
  dsimp only at done
  split at done
  · cases done
    rw [Array.toList_append]
  rename_i left_some
  obtain ⟨settled, counted, done⟩ := bind_eq_ok.mp done
  split at done
  · cases done
    rw [Array.toList_append]
  rename_i right_some
  have of_left : (Rest.mk xs skipped xs.size).Inside := ⟨from_left, Nat.le_refl _⟩
  have of_right : (Rest.mk ys 0 (ys.size - settled)).Inside := ⟨Nat.zero_le _, Nat.sub_le _ _⟩
  simp only [Rest.length, beq_iff_eq] at left_some right_some
  obtain ⟨⟨later, merged⟩, took, done⟩ := bind_eq_ok.mp done
  rw [← (Prod.mk.inj (Except.ok.inj done)).2]
  refine surrounded_perm (merged_perm of_left of_right ?_ took)
  split <;> simp only [Merging.rest, Rest.length] <;> omega

end Merge

section Runs

variable {lt : α → α → Except ε Bool} {xs : List α}

-- A run and what follows it make up the list; something of it is in the run.
theorem splitRun_perm {run : Array α} {rest : List α} (done : splitRun lt xs = .ok (run, rest)) :
    (run.toList ++ rest) ~ xs ∧ (xs ≠ [] → rest.length < xs.length) := by
  rw [splitRun.eq_def] at done
  split at done
  · rename_i x y others
    obtain ⟨descending, -, done⟩ := bind_eq_ok.mp done
    obtain ⟨length, -, done⟩ := bind_eq_ok.mp done
    cases done
    constructor
    · have cut := List.take_append_drop (length + 2) (x :: y :: others)
      split
      · rw [Array.toList_reverse]
        refine ((List.reverse_perm _).append_right _).trans (List.Perm.of_eq cut)
      · exact List.Perm.of_eq cut
    · intro _
      simp only [List.length_drop, List.length_cons]
      omega
  · cases done
    exact ⟨List.Perm.of_eq (List.append_nil _), fun some => List.length_pos_iff.mpr some⟩

theorem insert_perm {sorted added : Array α} {x : α} (done : insert lt sorted x = .ok added) :
    added.toList.Perm (x :: sorted.toList) := by
  obtain ⟨border, found, done⟩ := bind_eq_ok.mp done
  cases done
  have inside : border ≤ sorted.size := by
    have bounded := halve_le found
    omega
  rw [Array.insertIdxIfInBounds, dif_pos inside, Array.toList_insertIdx]
  exact List.perm_insertIdx x _ (by simpa using inside)

theorem foldlM_insert_perm {sorted added : Array α}
    (done : xs.foldlM (insert lt) sorted = .ok added) :
    added.toList.Perm (sorted.toList ++ xs) := by
  induction xs generalizing sorted with
  | nil =>
      cases done
      rw [List.append_nil]
  | cons x rest ih =>
      rw [List.foldlM_cons] at done
      obtain ⟨one, first, done⟩ := bind_eq_ok.mp done
      calc added.toList
        _ ~ one.toList ++ rest := ih done
        _ ~ (x :: sorted.toList) ++ rest := (insert_perm first).append_right rest
        _ ~ sorted.toList ++ x :: rest := List.perm_middle.symm

theorem takeRun_perm {least : Nat} {run : Array α} {rest : List α}
    (done : takeRun lt least xs = .ok (run, rest)) :
    (run.toList ++ rest) ~ xs ∧ (xs ≠ [] → rest.length < xs.length) := by
  rw [takeRun] at done
  obtain ⟨⟨start, behind⟩, cut, done⟩ := bind_eq_ok.mp done
  obtain ⟨perm, shorter⟩ := splitRun_perm cut
  obtain ⟨longer, inserted, done⟩ := bind_eq_ok.mp done
  cases done
  constructor
  · calc run.toList ++ behind.drop (least - start.size)
      _ ~ (start.toList ++ behind.take (least - start.size))
            ++ behind.drop (least - start.size) := (foldlM_insert_perm inserted).append_right _
      _ = start.toList ++ behind := by rw [List.append_assoc, List.take_append_drop]
      _ ~ xs := perm
  · intro some
    exact Nat.lt_of_le_of_lt (by simp) (shorter some)

/-- The items of all runs that are not merged yet. -/
def Pending.list (p : Pending α) : List α :=
  p.blocks.flatMap fun block => block.items.toList

variable {p q : Pending α}

theorem Block.merge_perm {left right block : Block α} {patience after : Nat}
    (done : left.merge lt patience right = .ok (after, block)) :
    block.items.toList ~ left.items.toList ++ right.items.toList := by
  obtain ⟨⟨later, items⟩, merged, done⟩ := bind_eq_ok.mp done
  cases done
  exact Sorting.merge_perm merged

theorem list_swap (right left : Block α) (blocks : List (Block α)) (patience : Nat) :
    left.items.toList ++ right.items.toList ++ Pending.list ⟨blocks, patience⟩ ~
      Pending.list ⟨right :: left :: blocks, patience⟩ := by
  refine (List.perm_append_comm.append_right _).trans ?_
  exact List.Perm.of_eq (List.append_assoc ..)

theorem mergeDeeper_perm {depth fuel : Nat} (done : mergeDeeper lt depth fuel p = .ok q) :
    q.list ~ p.list := by
  induction fuel generalizing p with
  | zero =>
      cases done
      rfl
  | succ fuel ih =>
      rw [mergeDeeper.eq_def] at done
      split at done
      · rename_i fuel' right left blocks patience same
        cases same
        split at done
        · obtain ⟨⟨after, block⟩, merged, done⟩ := bind_eq_ok.mp done
          calc q.list
            _ ~ block.items.toList ++ Pending.list ⟨blocks, after⟩ := ih done
            _ ~ left.items.toList ++ right.items.toList ++ Pending.list ⟨blocks, patience⟩ :=
                (Block.merge_perm merged).append_right _
            _ ~ Pending.list ⟨right :: left :: blocks, patience⟩ :=
                list_swap right left blocks patience
        · cases done
          rfl
      · cases done
        rfl

theorem addRun_perm {total start : Nat} {run : Array α} (done : addRun lt total start run p = .ok q) :
    q.list ~ run.toList ++ p.list := by
  rw [addRun] at done
  dsimp only at done
  split at done
  · rename_i none
    cases done
    simp [Pending.list, none]
  · obtain ⟨merged, deeper, done⟩ := bind_eq_ok.mp done
    have kept := mergeDeeper_perm deeper
    split at done
    · rename_i none
      cases done
      rw [Pending.list, none] at kept
      exact kept.append_left run.toList
    · rename_i last blocks some
      cases done
      rw [Pending.list, some] at kept
      exact kept.append_left run.toList

-- Every run takes an item at least, so that none is left when the fuel is.
theorem addRuns_perm {total least fuel start : Nat} (enough : xs.length ≤ fuel)
    (done : addRuns lt total least fuel start xs p = .ok q) : q.list ~ xs ++ p.list := by
  induction fuel generalizing start xs p with
  | zero =>
      rw [List.length_eq_zero_iff.mp (Nat.le_zero.mp enough)] at done ⊢
      cases done
      rfl
  | succ fuel ih =>
      cases xs with
      | nil =>
          cases done
          rfl
      | cons x others =>
          rw [addRuns] at done
          · obtain ⟨⟨run, rest⟩, taken, done⟩ := bind_eq_ok.mp done
            obtain ⟨perm, shorter⟩ := takeRun_perm taken
            obtain ⟨more, added, done⟩ := bind_eq_ok.mp done
            have fewer := shorter (List.cons_ne_nil x others)
            calc q.list
              _ ~ rest ++ more.list := ih (by omega) done
              _ ~ rest ++ (run.toList ++ p.list) := (addRun_perm added).append_left rest
              _ = (rest ++ run.toList) ++ p.list := (List.append_assoc ..).symm
              _ ~ (run.toList ++ rest) ++ p.list := List.perm_append_comm.append_right _
              _ ~ (x :: others) ++ p.list := perm.append_right _
          · exact nofun

theorem mergeAll_perm {fuel : Nat} {ys : List α} (done : mergeAll lt fuel p = .ok ys) :
    ys ~ p.list := by
  induction fuel using Nat.strongRecOn generalizing p with
  | ind fuel ih =>
      rw [mergeAll.eq_def] at done
      split at done
      · rename_i less right middle left blocks patience
        -- The two calls recursive in the fuel differ in which neighbour the middle block goes to.
        split at done
        · obtain ⟨⟨after, block⟩, merged, done⟩ := bind_eq_ok.mp done
          calc ys
            _ ~ right.items.toList ++ (block.items.toList ++ Pending.list ⟨blocks, after⟩) :=
                ih less (Nat.lt_succ_self less) done
            _ ~ right.items.toList ++ (left.items.toList ++ middle.items.toList
                  ++ Pending.list ⟨blocks, after⟩) :=
                ((Block.merge_perm merged).append_right _).append_left _
            _ ~ right.items.toList ++ Pending.list ⟨middle :: left :: blocks, patience⟩ :=
                (list_swap middle left blocks patience).append_left _
        · obtain ⟨⟨after, block⟩, merged, done⟩ := bind_eq_ok.mp done
          calc ys
            _ ~ block.items.toList ++ Pending.list ⟨left :: blocks, after⟩ :=
                ih less (Nat.lt_succ_self less) done
            _ ~ middle.items.toList ++ right.items.toList
                  ++ Pending.list ⟨left :: blocks, patience⟩ :=
                (Block.merge_perm merged).append_right _
            _ ~ Pending.list ⟨right :: middle :: left :: blocks, patience⟩ :=
                list_swap right middle (left :: blocks) patience
      · rename_i right left patience
        obtain ⟨⟨after, block⟩, merged, done⟩ := bind_eq_ok.mp done
        cases done
        refine (Block.merge_perm merged).trans ?_
        simpa [Pending.list] using list_swap right left [] patience
      · cases done
        exact (List.reverse_perm _).flatMap_right _

theorem sortAscending_perm {ys : List α} (done : sortAscending lt xs = .ok ys) : ys.Perm xs := by
  obtain ⟨p, added, done⟩ := bind_eq_ok.mp done
  refine (mergeAll_perm done).trans ((addRuns_perm (Nat.le_refl _) added).trans ?_)
  exact List.Perm.of_eq (List.append_nil xs)

/-- Sorting a list gives its items, in whatever order the test puts them. -/
theorem sort_perm {reversed : Bool} {ys : List α} (done : sort lt reversed xs = .ok ys) :
    ys.Perm xs := by
  rw [sort] at done
  split at done
  · rw [map_eq_pure_bind] at done
    obtain ⟨sorted, ascending, done⟩ := bind_eq_ok.mp done
    cases done
    exact (List.reverse_perm _).trans ((sortAscending_perm ascending).trans (List.reverse_perm _))
  · exact sortAscending_perm done

end Runs

end Snippet.Sorting
