import Mathlib.Data.Set.Insert
import Snippet.Proofs.Eval.Accepted
import Snippet.Proofs.Eval.Plain
import Snippet.Proofs.Value.Solid

/-!
Limits that the values of a session keep to. An integer has so many bits and a text so many
characters; a tuple, a list and a dict hold so many solid values. Lists and dicts may be held by a
value only if they are known to keep to their limit. One that was refused may be longer: no value
holds it. A function is one of those that the session may name.
-/

set_option autoImplicit false

namespace Snippet

open Value (solids solidEntries weight)

variable {α β : Type}

/-- Most solid items that a list ends up with: what a check lets through, and what is put in. -/
def listCap : Nat := 2 * maxLength + 2

/-- Most entries with a solid part that a dict ends up with. -/
def dictCap : Nat := maxLength + 1

structure Limits where
  bits : Nat
  chars : Nat
  bits_ge : maxBits ≤ bits
  chars_ge : maxLength ≤ chars
  /-- Lists that values may hold. -/
  lists : Set Ref
  dicts : Set Ref
  /-- Lists that were weighed last before a call could add one item to them. -/
  short : Set Ref
  /-- Dicts that were weighed, as no expression adds to a dict. -/
  thin : Set Ref
  /-- Names of functions. -/
  functions : Set Text
  short_known : short ⊆ lists
  thin_known : thin ⊆ dicts

inductive Value.Within (w : Limits) : Value → Prop
  | none : Within w .none
  | bool (b : Bool) : Within w (.bool b)
  | int (tag : Tag) {n : Int} (fits : bitLength n ≤ w.bits) : Within w (.int tag n)
  | float (tag : Tag) (x : Float) : Within w (.float tag x)
  | complex (tag : Tag) (z : Complex) : Within w (.complex tag z)
  | text (tag : Tag) {t : Text} (fits : t.length ≤ w.chars) : Within w (.text tag t)
  | raw (tag : Tag) {t : Text} (fits : t.length ≤ w.chars) : Within w (.raw tag t)
  | tuple (tag : Tag) {items : List Value} (fits : solids items ≤ maxLength)
      (each : ∀ v ∈ items, Within w v) : Within w (.tuple tag items)
  | list {r : Ref} (known : r ∈ w.lists) : Within w (.list r)
  | dict {r : Ref} (known : r ∈ w.dicts) : Within w (.dict r)
  | view (tag : Tag) (kind : ViewKind) {r : Ref} (known : r ∈ w.dicts) :
      Within w (.view tag kind r)
  | builtin {name : Text} (known : name ∈ w.functions) : Within w (.builtin name)

namespace Limits

structure ListFits (w : Limits) (r : Ref) (items : List Value) : Prop where
  each : ∀ v ∈ items, v.Within w
  known : r ∈ w.lists → solids items ≤ listCap
  short : r ∈ w.short → solids items ≤ maxLength + 1

structure DictFits (w : Limits) (r : Ref) (entries : Entries) : Prop where
  each : ∀ e ∈ entries, e.1.Within w ∧ e.2.Within w
  known : r ∈ w.dicts → solidEntries entries ≤ dictCap
  thin : r ∈ w.thin → solidEntries entries ≤ maxLength

/-- The limits before anything is evaluated. -/
def initial (chars : Nat) (chars_ge : maxLength ≤ chars) (functions : Set Text) : Limits where
  bits := maxBits
  chars := chars
  bits_ge := Nat.le_refl _
  chars_ge := chars_ge
  lists := ∅
  dicts := ∅
  short := ∅
  thin := ∅
  functions := functions
  short_known := subset_rfl
  thin_known := subset_rfl

/-- Later limits, after so many subtractions. -/
structure Grows (k : Nat) (w w' : Limits) : Prop where
  bits : w'.bits = w.bits + k
  chars : w'.chars = w.chars
  lists : w.lists ⊆ w'.lists
  dicts : w.dicts ⊆ w'.dicts
  short : w.short ⊆ w'.short
  thin : w.thin ⊆ w'.thin
  functions : w'.functions = w.functions

theorem Grows.refl (w : Limits) : Grows 0 w w :=
  ⟨rfl, rfl, subset_rfl, subset_rfl, subset_rfl, subset_rfl, rfl⟩

theorem Grows.trans {j k : Nat} {w w' w'' : Limits} (first : Grows j w w') (second : Grows k w' w'') :
    Grows (j + k) w w'' where
  bits := by rw [second.bits, first.bits, Nat.add_assoc]
  chars := second.chars.trans first.chars
  lists := first.lists.trans second.lists
  dicts := first.dicts.trans second.dicts
  short := first.short.trans second.short
  thin := first.thin.trans second.thin
  functions := second.functions.trans first.functions

end Limits

structure Store.Within (w : Limits) (s : Store) : Prop where
  held_lists : ∀ r ∈ w.lists, r < s.lists.size
  held_dicts : ∀ r ∈ w.dicts, r < s.dicts.size
  lists : ∀ r, w.ListFits r (s.items r)
  dicts : ∀ r, w.DictFits r (s.entries r)

variable {w w' : Limits} {k : Nat} {s s' : Store} {v : Value}

theorem Value.Within.grow (within : v.Within w) (grows : w.Grows k w') : v.Within w' := by
  induction within with
  | none => exact .none
  | bool b => exact .bool b
  | int tag fits => exact .int tag (by rw [grows.bits]; omega)
  | float tag x => exact .float tag x
  | complex tag z => exact .complex tag z
  | text tag fits => exact .text tag (by rwa [grows.chars])
  | raw tag fits => exact .raw tag (by rwa [grows.chars])
  | tuple tag fits each ih => exact .tuple tag fits ih
  | list known => exact .list (grows.lists known)
  | dict known => exact .dict (grows.dicts known)
  | view tag kind known => exact .view tag kind (grows.dicts known)
  | builtin known => exact .builtin (grows.functions ▸ known)

theorem Store.Within.sameData (within : s.Within w) (same : s.SameData s') : s'.Within w := by
  have items (r : Ref) : s'.items r = s.items r := by rw [Store.items, Store.items, same.1]
  have entries (r : Ref) : s'.entries r = s.entries r := by
    rw [Store.entries, Store.entries, same.2]
  exact {
    held_lists := fun r known => same.1 ▸ within.held_lists r known
    held_dicts := fun r known => same.2 ▸ within.held_dicts r known
    lists := fun r => items r ▸ within.lists r
    dicts := fun r => entries r ▸ within.dicts r }

/-! ### Changes of a store -/

theorem Limits.ListFits.of_le {r : Ref} {items fewer : List Value} (fits : w.ListFits r items)
    (each : ∀ v ∈ fewer, v.Within w) (fewer_le : solids fewer ≤ solids items) :
    w.ListFits r fewer :=
  ⟨each, fun known => fewer_le.trans (fits.known known),
    fun short => fewer_le.trans (fits.short short)⟩

theorem Limits.DictFits.of_le {r : Ref} {entries fewer : Entries} (fits : w.DictFits r entries)
    (each : ∀ e ∈ fewer, e.1.Within w ∧ e.2.Within w)
    (fewer_le : solidEntries fewer ≤ solidEntries entries) : w.DictFits r fewer :=
  ⟨each, fun known => fewer_le.trans (fits.known known),
    fun thin => fewer_le.trans (fits.thin thin)⟩

theorem Store.items_setItems (s : Store) (r q : Ref) (items : List Value) :
    (s.setItems r items).items q = items ∧ q = r ∨ (s.setItems r items).items q = s.items q := by
  simp only [Store.items, Store.setItems, Array.getElem?_setIfInBounds]
  by_cases same : r = q
  · subst same
    by_cases inside : r < s.lists.size
    · exact .inl (by simp [inside])
    · exact .inr (by simp [inside])
  · exact .inr (by simp [same])

theorem Store.entries_setEntries (s : Store) (r q : Ref) (entries : Entries) :
    (s.setEntries r entries).entries q = entries ∧ q = r ∨
      (s.setEntries r entries).entries q = s.entries q := by
  simp only [Store.entries, Store.setEntries, Array.getElem?_setIfInBounds]
  by_cases same : r = q
  · subst same
    by_cases inside : r < s.dicts.size
    · exact .inl (by simp [inside])
    · exact .inr (by simp [inside])
  · exact .inr (by simp [same])

theorem Store.Within.setItems (within : s.Within w) {r : Ref} {items : List Value}
    (fits : w.ListFits r items) : (s.setItems r items).Within w where
  held_lists q known := by
    rw [Store.setItems, Array.size_setIfInBounds]
    exact within.held_lists q known
  held_dicts := within.held_dicts
  lists q := by
    obtain ⟨same, rfl⟩ | same := s.items_setItems r q items
    · rwa [same]
    · rw [same]
      exact within.lists q
  dicts := within.dicts

theorem Store.Within.setEntries (within : s.Within w) {r : Ref} {entries : Entries}
    (fits : w.DictFits r entries) : (s.setEntries r entries).Within w where
  held_lists := within.held_lists
  held_dicts q known := by
    rw [Store.setEntries, Array.size_setIfInBounds]
    exact within.held_dicts q known
  lists := within.lists
  dicts q := by
    obtain ⟨same, rfl⟩ | same := s.entries_setEntries r q entries
    · rwa [same]
    · rw [same]
      exact within.dicts q

-- No value holds a new list or dict yet, so that it need not keep to its limit.
theorem Store.Within.pushList (within : s.Within w) {items : List Value}
    (each : ∀ v ∈ items, v.Within w) : Store.Within w { s with lists := s.lists.push items } where
  held_lists r known := by
    have inside := within.held_lists r known
    rw [Array.size_push]
    exact Nat.lt_succ_of_lt inside
  held_dicts := within.held_dicts
  lists r := by
    by_cases new : r = s.lists.size
    · subst new
      have unknown : s.lists.size ∉ w.lists := fun known =>
        Nat.lt_irrefl _ (within.held_lists _ known)
      simp only [Store.items, Array.getElem?_push_size, Option.getD_some]
      exact ⟨each, fun known => absurd known unknown,
        fun short => absurd (w.short_known short) unknown⟩
    · have old := within.lists r
      simp only [Store.items, Array.getElem?_push, new, if_false]
      exact old
  dicts := within.dicts

theorem Store.Within.pushDict (within : s.Within w) {entries : Entries}
    (each : ∀ e ∈ entries, e.1.Within w ∧ e.2.Within w) :
    Store.Within w { s with dicts := s.dicts.push entries } where
  held_lists := within.held_lists
  held_dicts r known := by
    have inside := within.held_dicts r known
    rw [Array.size_push]
    exact Nat.lt_succ_of_lt inside
  lists := within.lists
  dicts r := by
    by_cases new : r = s.dicts.size
    · subst new
      have unknown : s.dicts.size ∉ w.dicts := fun known =>
        Nat.lt_irrefl _ (within.held_dicts _ known)
      simp only [Store.entries, Array.getElem?_push_size, Option.getD_some]
      exact ⟨each, fun known => absurd known unknown,
        fun thin => absurd (w.thin_known thin) unknown⟩
    · have old := within.dicts r
      simp only [Store.entries, Array.getElem?_push, new, if_false]
      exact old

/-! ### Lists and dicts that pass a check -/

/-- The limits with one more list that values may hold. -/
def Limits.withList (w : Limits) (r : Ref) : Limits :=
  { w with
    lists := insert r w.lists
    short_known := w.short_known.trans (Set.subset_insert r _) }

def Limits.withDict (w : Limits) (r : Ref) : Limits :=
  { w with
    dicts := insert r w.dicts
    thin_known := w.thin_known.trans (Set.subset_insert r _) }

theorem Limits.grows_withList (w : Limits) (r : Ref) : w.Grows 0 (w.withList r) :=
  ⟨rfl, rfl, Set.subset_insert r _, subset_rfl, subset_rfl, subset_rfl, rfl⟩

theorem Limits.grows_withDict (w : Limits) (r : Ref) : w.Grows 0 (w.withDict r) :=
  ⟨rfl, rfl, subset_rfl, Set.subset_insert r _, subset_rfl, subset_rfl, rfl⟩

theorem Limits.ListFits.grow {r : Ref} {items : List Value} (fits : w.ListFits r items)
    (grows : w.Grows k w') (known : r ∈ w'.lists → r ∉ w.lists → solids items ≤ listCap)
    (short : r ∈ w'.short → r ∉ w.short → solids items ≤ maxLength + 1) : w'.ListFits r items where
  each v member := (fits.each v member).grow grows
  known new := by
    by_cases old : r ∈ w.lists
    · exact fits.known old
    · exact known new old
  short new := by
    by_cases old : r ∈ w.short
    · exact fits.short old
    · exact short new old

theorem Limits.DictFits.grow {r : Ref} {entries : Entries} (fits : w.DictFits r entries)
    (grows : w.Grows k w') (known : r ∈ w'.dicts → r ∉ w.dicts → solidEntries entries ≤ dictCap)
    (thin : r ∈ w'.thin → r ∉ w.thin → solidEntries entries ≤ maxLength) :
    w'.DictFits r entries where
  each e member := ⟨(fits.each e member).1.grow grows, (fits.each e member).2.grow grows⟩
  known new := by
    by_cases old : r ∈ w.dicts
    · exact fits.known old
    · exact known new old
  thin new := by
    by_cases old : r ∈ w.thin
    · exact fits.thin old
    · exact thin new old

theorem Store.Within.withList (within : s.Within w) {r : Ref} (inside : r < s.lists.size)
    (fits : solids (s.items r) ≤ listCap) : s.Within (w.withList r) where
  held_lists q known := by
    obtain rfl | known := Set.mem_insert_iff.mp known
    · exact inside
    · exact within.held_lists q known
  held_dicts := within.held_dicts
  lists q := by
    refine (within.lists q).grow (w.grows_withList r) (fun new old => ?_) fun new old =>
      absurd new old
    obtain rfl | known := Set.mem_insert_iff.mp new
    · exact fits
    · exact absurd known old
  dicts q := (within.dicts q).grow (w.grows_withList r) (fun new old => absurd new old)
    fun new old => absurd new old

theorem Store.Within.withDict (within : s.Within w) {r : Ref} (inside : r < s.dicts.size)
    (fits : solidEntries (s.entries r) ≤ dictCap) : s.Within (w.withDict r) where
  held_lists := within.held_lists
  held_dicts q known := by
    obtain rfl | known := Set.mem_insert_iff.mp known
    · exact inside
    · exact within.held_dicts q known
  lists q := (within.lists q).grow (w.grows_withDict r) (fun new old => absurd new old)
    fun new old => absurd new old
  dicts q := by
    refine (within.dicts q).grow (w.grows_withDict r) (fun new old => ?_) fun new old =>
      absurd new old
    obtain rfl | known := Set.mem_insert_iff.mp new
    · exact fits
    · exact absurd known old

/-! ### Between statements -/

/-- The limits with no list or dict that was just weighed. -/
def Limits.settled (w : Limits) : Limits :=
  { w with
    short := ∅
    thin := ∅
    short_known := Set.empty_subset _
    thin_known := Set.empty_subset _ }

theorem Limits.Grows.settled (grows : w.Grows k w') : w.settled.Grows k w'.settled :=
  ⟨grows.bits, grows.chars, grows.lists, grows.dicts, subset_rfl, subset_rfl, grows.functions⟩

/-- The limits with lists and dicts that were just weighed. -/
def Limits.weighing (w : Limits) (short thin : Set Ref) (short_known : short ⊆ w.lists)
    (thin_known : thin ⊆ w.dicts) : Limits :=
  { w with
    short := w.short ∪ short
    thin := w.thin ∪ thin
    short_known := Set.union_subset w.short_known short_known
    thin_known := Set.union_subset w.thin_known thin_known }

theorem Limits.grows_weighing (w : Limits) {short thin : Set Ref} (short_known : short ⊆ w.lists)
    (thin_known : thin ⊆ w.dicts) : w.Grows 0 (w.weighing short thin short_known thin_known) :=
  ⟨rfl, rfl, subset_rfl, subset_rfl, Set.subset_union_left, Set.subset_union_left, rfl⟩

theorem Store.Within.weighing (within : s.Within w) {short thin : Set Ref}
    (short_known : short ⊆ w.lists) (thin_known : thin ⊆ w.dicts)
    (lists : ∀ r ∈ short, solids (s.items r) ≤ maxLength)
    (dicts : ∀ r ∈ thin, solidEntries (s.entries r) ≤ maxLength) :
    s.Within (w.weighing short thin short_known thin_known) where
  held_lists := within.held_lists
  held_dicts := within.held_dicts
  lists r := by
    refine (within.lists r).grow (w.grows_weighing short_known thin_known)
      (fun new old => absurd new old) fun new old => ?_
    obtain known | weighed := new
    · exact absurd known old
    · exact (lists r weighed).trans (Nat.le_succ _)
  dicts r := by
    refine (within.dicts r).grow (w.grows_weighing short_known thin_known)
      (fun new old => absurd new old) fun new old => ?_
    obtain known | weighed := new
    · exact absurd known old
    · exact dicts r weighed

theorem Value.within_settled : v.Within w.settled ↔ v.Within w := by
  constructor <;> intro within <;> induction within with
  | none => exact .none
  | bool b => exact .bool b
  | int tag fits => exact .int tag fits
  | float tag x => exact .float tag x
  | complex tag z => exact .complex tag z
  | text tag fits => exact .text tag fits
  | raw tag fits => exact .raw tag fits
  | tuple tag fits each ih => exact .tuple tag fits ih
  | list known => exact .list known
  | dict known => exact .dict known
  | view tag kind known => exact .view tag kind known
  | builtin known => exact .builtin known

theorem Store.Within.settled (within : s.Within w) : s.Within w.settled where
  held_lists := within.held_lists
  held_dicts := within.held_dicts
  lists r := ⟨fun v member => Value.within_settled.mpr ((within.lists r).each v member),
    (within.lists r).known, nofun⟩
  dicts r :=
    ⟨fun e member => ⟨Value.within_settled.mpr ((within.dicts r).each e member).1,
      Value.within_settled.mpr ((within.dicts r).each e member).2⟩,
    (within.dicts r).known, nofun⟩

end Snippet
