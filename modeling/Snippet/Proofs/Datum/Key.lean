import Snippet.Proofs.Datum

/-!
Data as keys. Values with tags of their own are equal as keys only if their data are.
-/

set_option autoImplicit false

namespace Snippet

section Zip

variable {α β : Type} {xs : List α} {ys : List β}

theorem getElem_mem_zip {i : Nat} (left : i < xs.length) (right : i < ys.length) :
    (xs[i], ys[i]) ∈ xs.zip ys := by
  have inside : i < (xs.zip ys).length := by
    rw [List.length_zip]
    omega
  have here := List.getElem_mem inside
  rwa [List.getElem_zip] at here

theorem exists_mem_zip (long : xs.length = ys.length) {y : β} (member : y ∈ ys) :
    ∃ x, (x, y) ∈ xs.zip ys := by
  obtain ⟨i, inside, rfl⟩ := List.getElem_of_mem member
  exact ⟨xs[i], getElem_mem_zip (by omega) inside⟩

end Zip

namespace Value

/-- The tags of tuples that are not empty lie in a range. -/
inductive TagsIn (lo hi : Tag) : Value → Prop
  | tuple {tag : Tag} {items : List Value} :
      (items ≠ [] → lo ≤ tag ∧ tag < hi) → (∀ v ∈ items, TagsIn lo hi v) →
      TagsIn lo hi (.tuple tag items)
  | other {v : Value} : (∀ tag items, v ≠ .tuple tag items) → TagsIn lo hi v

theorem TagsIn.mono {lo hi lo' hi' : Tag} {v : Value} (h : v.TagsIn lo hi) (below : lo' ≤ lo)
    (above : hi ≤ hi') : v.TagsIn lo' hi' := by
  induction h with
  | tuple tagged _ ih =>
      refine .tuple (fun some_ => ?_) ih
      have range := tagged some_
      exact ⟨Nat.le_trans below range.1, Nat.lt_of_lt_of_le range.2 above⟩
  | other no_tuple => exact .other no_tuple

theorem areHashable_eq (items : List Value) : areHashable items = items.all isHashable := by
  induction items with
  | nil => rfl
  | cons v rest ih => rw [areHashable, ih, List.all_cons]

theorem keyEq_of_keysEq {xs ys : List Value} (same : keysEq xs ys = true) :
    xs.length = ys.length ∧ ∀ v w, (v, w) ∈ xs.zip ys → keyEq v w = true := by
  induction xs generalizing ys with
  | nil =>
      cases ys with
      | nil => exact ⟨rfl, nofun⟩
      | cons w ys => cases same
  | cons v xs ih =>
      cases ys with
      | nil => cases same
      | cons w ys =>
          rw [keysEq, Bool.and_eq_true] at same
          obtain ⟨long, rest⟩ := ih same.2
          refine ⟨congrArg Nat.succ long, fun a b member => ?_⟩
          obtain here | later := List.mem_cons.mp member
          · cases here
            exact same.1
          · exact rest a b later

theorem int?_eq_of_keyEq {v w : Value} {m n : Int} (left : v.int? = some m)
    (right : w.int? = some n) (same : keyEq v w = true) : m = n := by
  have worth : Numeric.equal (.int m) (.int n) = true → m = n := by
    simp [Numeric.equal, Numeric.realOrder?]
  cases v <;> cases left <;> cases w <;> cases right
  all_goals
    simp only [keyEq, Bool.or_eq_true] at same
    obtain same | same := same
    · simp_all [Value.same]
    · exact worth same

theorem text_eq_of_keyEq {tag tag' : Tag} {t u : Text}
    (same : keyEq (.text tag t) (.text tag' u) = true) : t = u := by
  simp only [keyEq, Bool.or_eq_true] at same
  obtain same | same := same
  · simp_all [Value.same]
  · simpa [scalarEq, Numeric.ofValue?, text?] using same

variable {lo hi lo' hi' tag tag' : Tag} {items others : List Value}

theorem TagsIn.forall_items (h : (Value.tuple tag items).TagsIn lo hi) :
    ∀ v ∈ items, v.TagsIn lo hi := by
  cases h with
  | tuple _ each => exact each
  | other no_tuple => exact absurd rfl (no_tuple tag items)

theorem TagsIn.tag_in (h : (Value.tuple tag items).TagsIn lo hi) (some_ : items ≠ []) :
    lo ≤ tag ∧ tag < hi := by
  cases h with
  | tuple tagged _ => exact tagged some_
  | other no_tuple => exact absurd rfl (no_tuple tag items)

-- Only empty tuples may be the same one.
theorem keyEq_of_tuples (tags : (Value.tuple tag items).TagsIn lo hi)
    (tags' : (Value.tuple tag' others).TagsIn lo' hi') (apart : hi' ≤ lo)
    (equal : keyEq (.tuple tag items) (.tuple tag' others) = true) :
    items.length = others.length ∧ ∀ v w, (v, w) ∈ items.zip others → keyEq v w = true := by
  rw [keyEq, Bool.or_eq_true] at equal
  obtain equal | equal := equal
  · simp only [same, Bool.and_eq_true, beq_iff_eq] at equal
    obtain ⟨rfl, long⟩ := equal
    by_cases empty : items = []
    · subst empty
      exact ⟨long, nofun⟩
    · have here := tags.tag_in empty
      have some_ := List.ne_nil_of_length_pos (long ▸ List.length_pos_of_ne_nil empty)
      have there := tags'.tag_in some_
      exact absurd here.1 (Nat.not_le_of_gt (Nat.lt_of_lt_of_le there.2 apart))
  · exact keyEq_of_keysEq equal

end Value

namespace Datum

variable {s s' : Store} {path path' : Value.Path} {d e : Datum} {v w : Value}
  {lo hi lo' hi' : Tag}

theorem Hashable.isHashable (hashable : d.Hashable) (is : d.Is s path v) :
    v.isHashable = true := by
  induction hashable generalizing path v with
  | none | bool | int | text => cases is; rfl
  | tuple _ ih =>
      cases is with | tuple closed long each =>
      rw [Value.isHashable, Value.areHashable_eq, List.all_eq_true]
      intro v member
      obtain ⟨d, pair⟩ := exists_mem_zip long member
      exact ih d (List.of_mem_zip pair).1 (each d v pair)

/-- Values that share no tag are equal as keys only if their data are. -/
theorem Hashable.equal_of_keyEq (hashable : d.Hashable) (is : d.Is s path v)
    (is' : e.Is s' path' w) (tags : v.TagsIn lo hi) (tags' : w.TagsIn lo' hi') (apart : hi' ≤ lo)
    (same : Value.keyEq v w = true) : e.Equal d := by
  induction hashable generalizing path path' v w e with
  | none =>
      cases is
      cases is' <;> first | exact .none | cases same
  | bool b =>
      cases is
      cases is' <;> first
        | exact .number rfl (congrArg some (Value.int?_eq_of_keyEq rfl rfl same))
        | cases same
  | int n =>
      cases is
      cases is' <;> first
        | exact .number rfl (congrArg some (Value.int?_eq_of_keyEq rfl rfl same))
        | cases same
  | text t =>
      cases is
      cases is' with
      | text path tag u =>
          cases Value.text_eq_of_keyEq same
          exact .text _
      | _ => cases same
  -- Equal tuples are equal part by part, and the parts of both share no tag either.
  | @tuple items each ih =>
      cases is with | @tuple _ tag _ values closed long are =>
      cases is' with
      | @tuple _ tag' others values' closed' long' are' =>
          have pairs := Value.keyEq_of_tuples tags tags' apart same
          refine .tuple (by omega) fun e d member => ?_
          obtain ⟨i, inside, here⟩ := List.getElem_of_mem member
          rw [List.getElem_zip] at here
          cases here
          rw [List.length_zip] at inside
          have in_items : i < items.length := by omega
          have in_others : i < others.length := by omega
          have in_values : i < values.length := by omega
          have in_values' : i < values'.length := by omega
          exact ih _ (List.getElem_mem in_items) (are _ _ (getElem_mem_zip in_items in_values))
            (are' _ _ (getElem_mem_zip in_others in_values'))
            (tags.forall_items _ (List.getElem_mem in_values))
            (tags'.forall_items _ (List.getElem_mem in_values'))
            (pairs.2 _ _ (getElem_mem_zip in_values in_values'))
      | _ => cases same

end Datum

end Snippet
