import Mathlib.Logic.Basic
import Snippet.Proofs.Eval.Limits
import Snippet.Proofs.Value.Renamed

/-!
Values whose identities have all been given out: their tags are below a bound, and a renaming that
begins at the bound leaves them as they are.
-/

set_option autoImplicit false

namespace Snippet

variable {m n : Nat} {ρ : Renaming}

namespace Value

mutual

/-- All tags in a value are below a bound. -/
def Below (n : Nat) : Value → Prop
  | none | bool _ | list _ | dict _ | builtin _ => True
  | int t _ | float t _ | complex t _ | text t _ | raw t _ | view t _ _ => t < n
  | tuple t items => t < n ∧ AreBelow n items

def AreBelow (n : Nat) : List Value → Prop
  | [] => True
  | v :: rest => Below n v ∧ AreBelow n rest

end

theorem areBelow_iff {items : List Value} : AreBelow n items ↔ ∀ v ∈ items, Below n v := by
  induction items with
  | nil => simp [AreBelow]
  | cons v rest ih => simp [AreBelow, ih]

theorem below_tuple {t : Tag} {items : List Value} :
    Below n (tuple t items) ↔ t < n ∧ ∀ v ∈ items, Below n v := by
  rw [Below, areBelow_iff]

mutual

theorem Below.mono (later : m ≤ n) : {v : Value} → v.Below m → v.Below n
  | .none, _ | .bool _, _ | .list _, _ | .dict _, _ | .builtin _, _ => trivial
  | .int .., below | .float .., below | .complex .., below | .text .., below | .raw .., below
  | .view .., below => Nat.lt_of_lt_of_le below later
  | .tuple .., below => ⟨Nat.lt_of_lt_of_le below.1 later, areBelow_mono later below.2⟩

theorem areBelow_mono (later : m ≤ n) : {items : List Value} → AreBelow m items → AreBelow n items
  | [], _ => trivial
  | _ :: _, below => ⟨below.1.mono later, areBelow_mono later below.2⟩

end

mutual

theorem rename_of_below : (v : Value) → v.Below ρ.start → v.rename ρ = v
  | none, _ | bool _, _ | list _, _ | dict _, _ | builtin _, _ => rfl
  | int _ n, below => congrArg (int · n) (if_pos below)
  | float _ x, below => congrArg (float · x) (if_pos below)
  | complex _ z, below => congrArg (complex · z) (if_pos below)
  | text _ t, below => congrArg (text · t) (if_pos below)
  | raw _ t, below => congrArg (raw · t) (if_pos below)
  | view _ kind r, below => congrArg (view · kind r) (if_pos below)
  | tuple _ items, below => congrArg₂ tuple (if_pos below.1) (renameAll_of_below items below.2)

theorem renameAll_of_below : (items : List Value) → AreBelow ρ.start items → renameAll ρ items = items
  | [], _ => rfl
  | v :: rest, below =>
      congrArg₂ List.cons (rename_of_below v below.1) (renameAll_of_below rest below.2)

end

end Value

namespace Entries

/-- All tags in the keys and the values are below a bound. -/
def Below (n : Nat) (entries : Entries) : Prop :=
  ∀ e ∈ entries, e.1.Below n ∧ e.2.Below n

variable {entries : Entries} {key v : Value}

theorem Below.mono (below : entries.Below m) (later : m ≤ n) : entries.Below n :=
  fun e member => ⟨(below e member).1.mono later, (below e member).2.mono later⟩

theorem Below.find? (below : entries.Below n) (found : entries.find? key = some v) : v.Below n := by
  obtain ⟨e, first, rfl⟩ := Option.map_eq_some_iff.mp found
  exact (below e (List.mem_of_find?_eq_some first)).2

theorem Below.insert (below : entries.Below n) (keyBelow : key.Below n) (valueBelow : v.Below n) :
    (entries.insert key v).Below n := by
  induction entries with
  | nil => exact fun e member => List.mem_singleton.mp member ▸ ⟨keyBelow, valueBelow⟩
  | cons e rest ih =>
      obtain ⟨k, w⟩ := e
      obtain ⟨first, rest⟩ := List.forall_mem_cons.mp below
      rw [Entries.insert]
      split
      · exact List.forall_mem_cons.mpr ⟨⟨first.1, valueBelow⟩, rest⟩
      · exact List.forall_mem_cons.mpr ⟨first, ih rest⟩

theorem Below.erase (below : entries.Below n) : (entries.erase key).Below n := by
  induction entries with
  | nil => exact below
  | cons e rest ih =>
      obtain ⟨k, w⟩ := e
      obtain ⟨first, rest⟩ := List.forall_mem_cons.mp below
      rw [Entries.erase]
      split
      · exact rest
      · exact List.forall_mem_cons.mpr ⟨first, ih rest⟩

theorem Below.rename_of_below (below : entries.Below ρ.start) : entries.rename ρ = entries :=
  List.map_congr_left (fun e member => Prod.ext
    (Value.rename_of_below e.1 (below e member).1) (Value.rename_of_below e.2 (below e member).2))
    |>.trans (List.map_id entries)

end Entries

namespace Store

/-- All tags in the lists and dicts are below a bound. -/
structure Below (n : Nat) (s : Store) : Prop where
  lists : ∀ r, ∀ v ∈ s.items r, v.Below n
  dicts : ∀ r, (s.entries r).Below n

variable {s : Store}

theorem Below.mono (below : s.Below m) (later : m ≤ n) : s.Below n :=
  ⟨fun r v member => (below.lists r v member).mono later, fun r => (below.dicts r).mono later⟩

theorem Below.of_sameData {t : Store} (below : s.Below n) (same : s.SameData t) : t.Below n := by
  obtain ⟨lists, dicts, nextTag⟩ := t
  obtain ⟨rfl, rfl⟩ := same
  exact ⟨below.lists, below.dicts⟩

theorem Below.setItems (below : s.Below n) (r : Ref) {items : List Value}
    (each : ∀ v ∈ items, v.Below n) : (s.setItems r items).Below n := by
  refine ⟨fun q => ?_, below.dicts⟩
  obtain ⟨same, -⟩ | same := s.items_setItems r q items
  · rwa [same]
  · rw [same]
    exact below.lists q

theorem Below.setEntries (below : s.Below n) (r : Ref) {entries : Entries}
    (each : entries.Below n) : (s.setEntries r entries).Below n := by
  refine ⟨below.lists, fun q => ?_⟩
  obtain ⟨same, -⟩ | same := s.entries_setEntries r q entries
  · rwa [same]
  · rw [same]
    exact below.dicts q

theorem Below.pushList (below : s.Below n) {items : List Value} (each : ∀ v ∈ items, v.Below n) :
    Below n { s with lists := s.lists.push items } := by
  refine ⟨fun r => ?_, below.dicts⟩
  have old := below.lists r
  by_cases new : r = s.lists.size
  · simpa [Store.items, new] using each
  · simpa [Store.items, Array.getElem?_push, new] using old

theorem Below.pushDict (below : s.Below n) {entries : Entries} (each : entries.Below n) :
    Below n { s with dicts := s.dicts.push entries } := by
  refine ⟨below.lists, fun r => ?_⟩
  have old := below.dicts r
  by_cases new : r = s.dicts.size
  · simpa [Store.entries, new] using each
  · simpa [Store.entries, Array.getElem?_push, new] using old

theorem Below.newTag (below : s.Below s.nextTag) :
    Below (s.nextTag + 1) { s with nextTag := s.nextTag + 1 } :=
  ⟨(below.mono (Nat.le_succ _)).lists, (below.mono (Nat.le_succ _)).dicts⟩

theorem rename_setItems (r : Ref) (items : List Value) :
    (s.setItems r items).rename ρ = (s.rename ρ).setItems r (items.map (Value.rename ρ)) := by
  simp [setItems, rename]

theorem rename_setEntries (r : Ref) (entries : Entries) :
    (s.setEntries r entries).rename ρ = (s.rename ρ).setEntries r (entries.rename ρ) := by
  simp [setEntries, rename]

/-- A renaming that begins at the next tag of a store only moves that tag. -/
theorem rename_of_below (below : s.Below ρ.start) (late : ρ.start ≤ s.nextTag) :
    s.rename ρ = { s with nextTag := s.nextTag + ρ.gap } := by
  have lists (items : List Value) (member : items ∈ s.lists) : items.map (Value.rename ρ) = items := by
    obtain ⟨r, inside, rfl⟩ := Array.getElem_of_mem member
    have each := below.lists r
    simp only [items, inside, Array.getElem?_eq_getElem, Option.getD_some] at each
    exact List.map_congr_left (fun v member => v.rename_of_below (each v member))
      |>.trans (List.map_id _)
  have dicts (entries : Entries) (member : entries ∈ s.dicts) : entries.rename ρ = entries := by
    obtain ⟨r, inside, rfl⟩ := Array.getElem_of_mem member
    have each := below.dicts r
    simp only [Store.entries, inside, Array.getElem?_eq_getElem, Option.getD_some] at each
    exact each.rename_of_below
  rw [rename, ρ.tag_of_le late, Array.map_congr_left lists, Array.map_congr_left dicts,
    Array.map_id', Array.map_id']

end Store

end Snippet
