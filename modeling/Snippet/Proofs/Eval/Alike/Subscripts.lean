import Snippet.Proofs.Eval.Alike
import Snippet.Proofs.Eval.Slices

/-!
Items, slices and what is gone through item by item: no identities are seen.
-/

set_option autoImplicit false

namespace Snippet.Subscript

open Eval (Alike)
open Value

variable {ρ : Renaming} {n : Nat} {v w : Value}

@[simp]
theorem endOf_rename (v : Option Value) : endOf (v.map (rename ρ)) = endOf v := by
  rcases v with _ | v
  · rfl
  · cases v <;> rfl

def Slice.rename (ρ : Renaming) (s : Slice) : Slice where
  lower := s.lower.map (Value.rename ρ)
  upper := s.upper.map (Value.rename ρ)
  step := s.step.map (Value.rename ρ)

theorem Slice.span_rename (s : Slice) (length : Nat) : (s.rename ρ).span length = s.span length := by
  simp only [span, rename, endOf_rename]

theorem position_rename (length : Nat) : position length (v.rename ρ) = position length v := by
  simp only [position, int?_rename]

theorem itemAt_rename {α : Type} (xs : List α) : itemAt xs (v.rename ρ) = itemAt xs v := by
  simp only [itemAt, position_rename]

theorem itemAt_map {α β : Type} (f : α → β) (xs : List α) : itemAt (xs.map f) v = f <$> itemAt xs v := by
  simp only [itemAt, List.length_map, List.getElem?_map, map_bind]
  congr 1
  funext i
  cases xs[i]? <;> rfl

theorem alike_itemAt {items : List Value} (each : ∀ v ∈ items, v.Below n) (index : Value) :
    Alike ρ n (Renamed ρ) (Eval.lift (itemAt items index))
      (Eval.lift (itemAt (items.map (rename ρ)) (index.rename ρ))) := by
  rw [itemAt_rename, itemAt_map]
  exact .lift _ fun v found => ⟨rfl, each v (mem_of_itemAt found)⟩

theorem alike_lookUp (r : Ref) (key : Value) :
    Alike ρ n (Renamed ρ) (lookUp r key) (lookUp r (key.rename ρ)) := by
  simp only [lookUp, isHashable_rename]
  refine .ite (fun _ => .breach_bind _) fun _ => .entriesOf_bind r fun entries below => ?_
  rw [Entries.find?_rename]
  cases found : entries.find? key with
  | none => exact .throw _
  | some v => exact .pure ⟨rfl, below.find? found⟩

theorem alike_getItem (below : v.Below n) (index : Value) :
    Alike ρ n (Renamed ρ) (getItem v index) (getItem (v.rename ρ) (index.rename ρ)) := by
  have other : Alike ρ n (Renamed ρ) (Eval.breach .type) (Eval.breach .type) := .breach _
  have texts (t : Text) : Alike ρ n (Renamed ρ)
      (do ofText [← Eval.lift (itemAt t index)])
      (do ofText [← Eval.lift (itemAt t (index.rename ρ))]) := by
    rw [itemAt_rename]
    exact .lift_bind _ fun c _ => alike_ofText [c]
  cases v with
  | text _ t | raw _ t => exact texts t
  | tuple t items =>
      simp only [rename, renameAll_eq_map, getItem]
      exact alike_itemAt (below_tuple.mp below).2 index
  | list r => exact .itemsOf_bind r fun items each => alike_itemAt each index
  | dict r => exact alike_lookUp r index
  | _ => exact other

theorem alike_stretchOf (below : v.Below n) (t : Text) (span : Span) :
    Alike ρ n (Renamed ρ) (stretchOf v t span) (stretchOf (v.rename ρ) t span) :=
  .ite (fun _ => alike_exactText below t) fun _ => .ite (fun _ => alike_ofText _)
    fun _ => alike_ofNewText _

theorem Span.of_map {α β : Type} (f : α → β) (p : Span) (xs : List α) :
    p.of (xs.map f) = (p.of xs).map f := by
  simp only [Span.of]
  split
  · rw [← List.map_drop, ← List.map_take]
  · simp [List.map_filterMap]

theorem Span.mem_of {α : Type} {p : Span} {xs : List α} {x : α} (member : x ∈ p.of xs) : x ∈ xs := by
  simp only [Span.of] at member
  split at member
  · exact List.mem_of_mem_drop (List.mem_of_mem_take member)
  · obtain ⟨i, -, found⟩ := List.mem_filterMap.mp member
    exact List.mem_of_getElem? (by simpa using found)

theorem alike_getSlice (below : v.Below n) (slice : Slice) :
    Alike ρ n (Renamed ρ) (getSlice v slice) (getSlice (v.rename ρ) (slice.rename ρ)) := by
  have other : Alike ρ n (Renamed ρ) (Eval.breach .type) (Eval.breach .type) := .breach _
  have texts (t : Text) : Alike ρ n (Renamed ρ)
      (do stretchOf v t (← Eval.lift (slice.span t.length)))
      (do stretchOf (v.rename ρ) t (← Eval.lift ((slice.rename ρ).span t.length))) := by
    rw [Slice.span_rename]
    exact .lift_bind _ fun span _ => alike_stretchOf below t span
  cases v with
  | text _ t | raw _ t => exact texts t
  | tuple t items =>
      simp only [rename, renameAll_eq_map, getSlice, Slice.span_rename, List.length_map, Span.of_map]
      refine .lift_bind _ fun span _ => .ite (fun _ => .pure ⟨by simp [rename], below⟩) fun _ => ?_
      exact alike_ofTuple fun v member => (below_tuple.mp below).2 v (Span.mem_of member)
  | list r =>
      refine .itemsOf_bind r fun items each => ?_
      rw [Slice.span_rename, List.length_map]
      refine .lift_bind _ fun span _ => ?_
      rw [Span.of_map]
      exact alike_ofList fun v member => each v (Span.mem_of member)
  | _ => exact other

theorem alike_iterate (below : v.Below n) :
    Alike ρ n (RenamedAll ρ) (iterate v) (iterate (v.rename ρ)) := by
  have other : Alike ρ n (RenamedAll ρ) (Eval.breach .type) (Eval.breach .type) := .breach _
  have texts (t : Text) : Alike ρ n (RenamedAll ρ) (t.mapM fun c => ofText [c])
      (t.mapM fun c => ofText [c]) :=
    .mapM_each fun c _ _ _ => alike_ofText [c]
  have keys (r : Ref) : Alike ρ n (RenamedAll ρ) (do return (← Eval.entriesOf r).map (·.1))
      (do return (← Eval.entriesOf r).map (·.1)) := by
    refine .entriesOf_bind r fun entries below => .pure ⟨entries.keys_rename, fun v member => ?_⟩
    obtain ⟨e, ofEntry, rfl⟩ := List.mem_map.mp member
    exact (below e ofEntry).1
  cases v with
  | text _ t | raw _ t => exact texts t
  | tuple t items =>
      exact .pure ⟨renameAll_eq_map ρ items, (below_tuple.mp below).2⟩
  | list r => exact .itemsOf r
  | dict r => exact keys r
  | view t kind r =>
      cases kind with
      | keys => exact keys r
      | values =>
          refine .entriesOf_bind r fun entries below => .pure ⟨entries.values_rename, fun v member => ?_⟩
          obtain ⟨e, ofEntry, rfl⟩ := List.mem_map.mp member
          exact (below e ofEntry).2
      | items =>
          refine .entriesOf_bind r fun entries below => ?_
          refine .mapM_renamed fun e member k later => ?_
          obtain ⟨first, second⟩ := below e member
          have pair : ∀ v ∈ [e.1, e.2], v.Below k := by
            simp [first.mono later, second.mono later]
          exact alike_ofTuple pair
  | _ => exact other

/-! ### Changes -/

theorem fixedItem_rename (index : Value) :
    fixedItem (v.rename ρ) (index.rename ρ) = fixedItem v index := by
  cases v <;> simp [fixedItem, rename]

theorem alike_setItem (v : Value) {index : Value} (ofIndex : index.Below n) (ofW : w.Below n) :
    Alike ρ n Equal (setItem v index w) (setItem (v.rename ρ) (index.rename ρ) (w.rename ρ)) := by
  have other : Alike ρ n Equal (Eval.breach (α := Unit) (fixedItem v index))
      (Eval.breach (fixedItem (v.rename ρ) (index.rename ρ))) := by
    rw [fixedItem_rename]
    exact .breach _
  cases v with
  | list r =>
      refine .itemsOf_bind r fun items each => ?_
      rw [List.length_map, position_rename]
      refine .lift_bind _ fun i _ => ?_
      rw [← List.map_set]
      refine .setItems r fun u member => ?_
      obtain member | rfl := List.mem_or_eq_of_mem_set member
      · exact each u member
      · exact ofW
  | dict r =>
      simp only [setItem, rename, isHashable_rename]
      refine .ite (fun _ => .breach_bind _) fun _ => .entriesOf_bind r fun entries below => ?_
      rw [Entries.insert_rename]
      exact .setEntries r (below.insert ofIndex ofW)
  | _ => exact other

theorem replaceAt_map (f : Value → Value) (xs values : List Value) (positions : List Nat) :
    replaceAt (xs.map f) positions (values.map f) = (replaceAt xs positions values).map f := by
  have replaced (pairs : List (Nat × Value)) (items : Array Value) :
      (pairs.map (Prod.map id f)).foldl (fun items pv => items.setIfInBounds pv.1 pv.2) (items.map f)
        = (pairs.foldl (fun items pv => items.setIfInBounds pv.1 pv.2) items).map f := by
    induction pairs generalizing items with
    | nil => rfl
    | cons p rest ih =>
        have := ih (items.setIfInBounds p.1 p.2)
        simpa using this
  have zipped : positions.zip (values.map f) = (positions.zip values).map (Prod.map id f) := by
    rw [← List.map_id positions, List.zip_map, List.map_id]
  rw [replaceAt, replaceAt, zipped, ← List.map_toArray, replaced, Array.toList_map]

theorem withSlice_map (f : Value → Value) (xs : List Value) (span : Span) (values : List Value) :
    withSlice (xs.map f) span (values.map f) = List.map f <$> withSlice xs span values := by
  simp only [withSlice, List.length_map]
  split
  · simp [List.map_take, List.map_drop]
  · split
    · rfl
    · rw [replaceAt_map]
      rfl

theorem alike_setSlice (v : Value) (slice : Slice) (below : w.Below n) :
    Alike ρ n Equal (setSlice v slice w) (setSlice (v.rename ρ) (slice.rename ρ) (w.rename ρ)) := by
  have other : Alike ρ n Equal (Eval.breach (α := Unit) .type) (Eval.breach .type) := .breach _
  cases v with
  | list r =>
      refine .itemsOf_bind r fun items each => ?_
      rw [Slice.span_rename, List.length_map]
      refine .lift_bind _ fun span _ =>
        .bind_renamedAll (alike_iterate below) fun k later values ofValues => ?_
      rw [withSlice_map]
      refine .bind (R := RenamedAll ρ) (.lift _ fun ys done => ⟨rfl, fun u member => ?_⟩) ?_
      · obtain member | member := List.mem_append.mp ((subperm_withSlice done).subset member)
        · exact ofValues u member
        · exact (each u member).mono later
      · rintro l - ys _ ⟨rfl, ofYs⟩
        exact .setItems r ofYs
  | _ => exact other

end Snippet.Subscript
