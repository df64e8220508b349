import Mathlib.Data.List.Nodup
import Mathlib.Data.List.Perm.Subperm
import Snippet.Eval.Subscript
import Snippet.Proofs.Program

/-!
What an index and a slice take from a sequence. The positions of a slice are pairwise different, so
that it takes each item once at most; what takes the place of a slice adds its own items only.
-/

set_option autoImplicit false

namespace Snippet.Subscript

variable {α : Type}

theorem mem_of_itemAt {xs : List α} {index : Value} {x : α} (done : itemAt xs index = .ok x) :
    x ∈ xs := by
  obtain ⟨i, -, done⟩ := bind_eq_ok.mp done
  split at done
  · rename_i found
    cases done
    exact List.mem_of_getElem? found
  · cases done

theorem lt_ceilDiv {a b : Int} {i : Nat} (positive : 0 < b) (before : i < ceilDiv a b) :
    (i : Int) * b < a := by
  have reached : (i : Int) + 1 ≤ (a + b - 1) / b := by
    rw [ceilDiv] at before
    omega
  have scaled : ((i : Int) + 1) * b ≤ a + b - 1 := (Int.le_ediv_iff_mul_le positive).mp reached
  rw [Int.add_mul, Int.one_mul] at scaled
  omega

/-- The positions of a span are not before the start, so that none is named twice. -/
def Span.IsInside (p : Span) : Prop :=
  p.step ≠ 0 ∧ ∀ i < p.count, 0 ≤ (p.start : Int) + i * p.step

theorem isInside_spanOf (length : Nat) (lower upper : Option Int) {step : Int} (moves : step ≠ 0) :
    (spanOf length lower upper step).IsInside := by
  rw [spanOf]
  split
  · rename_i ascends
    refine ⟨moves, fun i _ => ?_⟩
    have ahead : 0 ≤ (i : Int) * step := Int.mul_nonneg (Int.natCast_nonneg i) (Int.le_of_lt ascends)
    dsimp only
    omega
  · rename_i descends
    extract_lets above start stop
    refine ⟨moves, fun i before => ?_⟩
    have short := lt_ceilDiv (b := -step) (by omega) before
    rw [Int.mul_neg] at short
    dsimp only
    omega

theorem Slice.span_isInside {slice : Slice} {length : Nat} {p : Span}
    (done : slice.span length = .ok p) : p.IsInside := by
  rw [Slice.span] at done
  cases of_step : endOf slice.step with
  | error b => rw [of_step] at done; cases done
  | ok step? =>
      rw [of_step] at done
      replace done : (do
          if (step?.getD 1 == 0) = true then throw .value
          return spanOf length (← endOf slice.lower) (← endOf slice.upper) (step?.getD 1)) =
        Except.ok p := done
      split at done
      · cases done
      · rename_i moves
        cases of_lower : endOf slice.lower with
        | error b => rw [of_lower] at done; cases done
        | ok lower =>
            cases of_upper : endOf slice.upper with
            | error b => rw [of_lower, of_upper] at done; cases done
            | ok upper =>
                rw [of_lower, of_upper] at done
                cases done
                exact isInside_spanOf length lower upper (by simpa using moves)

theorem Span.IsInside.nodup {p : Span} (inside : p.IsInside) : p.positions.Nodup := by
  obtain ⟨moves, at_least⟩ := inside
  refine List.Nodup.map_on (fun i of_i j of_j same => ?_) List.nodup_range
  have left := at_least i (List.mem_range.mp of_i)
  have right := at_least j (List.mem_range.mp of_j)
  have scaled : (i : Int) * p.step = j * p.step := by omega
  exact Int.ofNat.inj (Int.eq_of_mul_eq_mul_right moves scaled)

theorem pick_range (xs : List α) : (List.range xs.length).filterMap (xs[·]?) = xs := by
  induction xs with
  | nil => rfl
  | cons x rest ih =>
      simpa [List.range_succ_eq_map, List.filterMap_map, Function.comp_def] using ih

theorem subperm_pick {positions : List Nat} (nodup : positions.Nodup) (xs : List α) :
    (positions.filterMap (xs[·]?)).Subperm xs := by
  have kept : positions.filterMap (xs[·]?) =
      (positions.filter (· < xs.length)).filterMap (xs[·]?) := by
    rw [List.filterMap_filter]
    refine List.filterMap_congr fun i _ => ?_
    by_cases inside : i < xs.length <;> simp [inside]
  have picked : (positions.filter (· < xs.length)).Subperm (List.range xs.length) := by
    refine List.subperm_of_subset (nodup.filter _) fun i member => ?_
    simpa using (List.mem_filter.mp member).2
  obtain ⟨chosen, same, less⟩ := picked
  have chosen_less := less.filterMap (xs[·]?)
  rw [pick_range] at chosen_less
  rw [kept]
  exact ⟨_, same.filterMap _, chosen_less⟩

theorem Span.IsInside.subperm {p : Span} (inside : p.IsInside) (xs : List α) :
    (p.of xs).Subperm xs := by
  rw [Span.of]
  split
  · exact ((List.take_sublist _ _).trans (List.drop_sublist _ _)).subperm
  · simpa using subperm_pick inside.nodup xs

/-! ### Assigning -/

theorem subperm_set (xs : List α) (i : Nat) (x : α) : (xs.set i x).Subperm (x :: xs) := by
  induction xs generalizing i with
  | nil => exact (List.nil_sublist _).subperm
  | cons y ys ih =>
      cases i with
      | zero => exact ((List.sublist_cons_self y ys).cons_cons x).subperm
      | succ i => exact ((List.subperm_cons y).mpr (ih i)).trans (List.Perm.swap x y ys).subperm

theorem subperm_replaceAt {xs values : List Value} {positions : List Nat}
    (same : positions.length = values.length) :
    (replaceAt xs positions values).Subperm (values ++ xs) := by
  have placed (pairs : List (Nat × Value)) (items : Array Value) :
      (pairs.foldl (fun items pv => items.setIfInBounds pv.1 pv.2) items).toList.Subperm
        (pairs.map (·.2) ++ items.toList) := by
    induction pairs generalizing items with
    | nil => exact List.Subperm.refl _
    | cons pv rest ih =>
        have first := subperm_set items.toList pv.1 pv.2
        rw [← Array.toList_setIfInBounds] at first
        exact (ih _).trans (((List.subperm_append_left _).mpr first).trans List.perm_middle.subperm)
  have all := placed (positions.zip values) xs.toArray
  rwa [List.map_snd_zip (by omega)] at all

theorem subperm_withSlice {xs values ys : List Value} {span : Span}
    (done : withSlice xs span values = .ok ys) : ys.Subperm (values ++ xs) := by
  rw [withSlice] at done
  split at done
  · cases done
    have left : (xs.take span.start ++ xs.drop (span.start + span.count)).Sublist xs := by
      nth_rewrite 3 [← List.take_append_drop span.start xs]
      rw [← List.drop_drop]
      exact (List.drop_sublist _ _).append_left _
    refine List.Subperm.trans ?_ (left.append_left values).subperm
    rw [← List.append_assoc]
    exact (List.perm_append_comm.append_right _).subperm
  · split at done
    · cases done
    · rename_i same
      cases done
      refine subperm_replaceAt ?_
      have length : span.positions.length = span.count := by simp [Span.positions]
      simpa [length] using Eq.symm (by simpa using same)

end Snippet.Subscript
