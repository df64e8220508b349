import Snippet.Proofs.Eval.Keeping
import Snippet.Proofs.Number.Bits

/-!
Calls of methods that fail. What a method changes is changed in one step after all of its checks,
so that a call which fails before leaves every list and dict as it was. One check comes later: what
a method gives is refused if it is too large. A `pop` has taken its value out by then.
-/

set_option autoImplicit false

namespace Snippet

open Eval (Plain)

variable {α : Type} {s s' s'' : Store} {base v : Value} {name : Text} {args : List Value}
  {keywords : Bindings}

/-- The lists and dicts of a store are in another one with the same contents; that one may have
more. -/
structure Store.Extends (s s' : Store) : Prop where
  lists : ∀ r, r < s.lists.size → s'.lists[r]? = s.lists[r]?
  dicts : ∀ r, r < s.dicts.size → s'.dicts[r]? = s.dicts[r]?

namespace Store.Extends

theorem refl (s : Store) : s.Extends s :=
  ⟨fun _ _ => rfl, fun _ _ => rfl⟩

theorem of_sameData (same : s.SameData s') : s.Extends s' :=
  ⟨fun _ _ => by rw [same.1], fun _ _ => by rw [same.2]⟩

theorem after (same : s.SameData s') (later : s'.Extends s'') : s.Extends s'' := by
  obtain ⟨lists, dicts⟩ := later
  rw [same.1] at lists
  rw [same.2] at dicts
  exact ⟨lists, dicts⟩

theorem pushList (s : Store) (items : List Value) :
    s.Extends { s with lists := s.lists.push items } where
  lists r inside := by simp [Array.getElem?_push, Nat.ne_of_lt inside]
  dicts _ _ := rfl

-- A list that holds something is seen to change.
theorem items_eq {r : Ref} {items : List Value} (shown : s.items r ≠ [])
    (h : s.Extends (s.setItems r items)) : items = s.items r := by
  by_cases inside : r < s.lists.size
  · have kept := h.lists r inside
    rw [Store.setItems, Array.getElem?_setIfInBounds_self_of_lt inside] at kept
    rw [Store.items, ← kept, Option.getD_some]
  · simp [Store.items, Array.getElem?_eq_none (Nat.le_of_not_lt inside)] at shown

theorem entries_eq {r : Ref} {entries : Entries} (shown : s.entries r ≠ [])
    (h : s.Extends (s.setEntries r entries)) : entries = s.entries r := by
  by_cases inside : r < s.dicts.size
  · have kept := h.dicts r inside
    rw [Store.setEntries, Array.getElem?_setIfInBounds_self_of_lt inside] at kept
    rw [Store.entries, ← kept, Option.getD_some]
  · simp [Store.entries, Array.getElem?_eq_none (Nat.le_of_not_lt inside)] at shown

end Store.Extends

/-- A value that is refused as a result. -/
def Value.isTooLarge (s : Store) : Value → Bool
  | .int _ n => maxBits < bitLength n
  | v => v.isContainer && maxLength < Value.weight s maxLength v

theorem Value.checked_cases (v : Value) (s : Store) :
    (v.isTooLarge s = true ∧ ∃ c, checked v s = .error (.cause c) s) ∨
      (v.isTooLarge s = false ∧ checked v s = .ok v s) := by
  have weighed (same : checked v = checkWeight v >>= fun _ => pure v)
      (as_container : v.isTooLarge s = (v.isContainer && maxLength < weight s maxLength v)) :
      (v.isTooLarge s = true ∧ ∃ c, checked v s = .error (.cause c) s) ∨
        (v.isTooLarge s = false ∧ checked v s = .ok v s) := by
    rw [same, as_container, bind_eq, checkWeight_apply]
    cases heavy : v.isContainer && decide (maxLength < weight s maxLength v) with
    | true => exact .inl ⟨rfl, .resultTooLarge, rfl⟩
    | false => exact .inr ⟨rfl, rfl⟩
  cases v with
  | int tag n =>
      by_cases large : bitLength n > maxBits
      · refine .inl ⟨decide_eq_true large, .integerTooLarge, ?_⟩
        simp only [checked, large, if_true]
        rfl
      · refine .inr ⟨decide_eq_false large, ?_⟩
        simp only [checked, large, if_false]
        rfl
  | _ => exact weighed rfl rfl

namespace Eval

variable {P : Value → Prop} {m : Eval α} {next : α → Eval Value}

/-- Leaves all lists and dicts as they were, unless it succeeds with a result of which `P` holds. -/
def Atomic (P : Value → Prop) (m : Eval Value) : Prop :=
  ∀ s, match m s with
    | .ok v s' => P v ∨ s.Extends s'
    | .error _ s' => s.Extends s'

theorem Plain.atomic {m : Eval Value} (plain : Plain m) : Atomic P m := by
  intro s
  cases ran : m s with
  | ok v s' => exact .inr (.of_sameData (plain.ok ran))
  | error fault s' => exact .of_sameData (plain.error ran).1

namespace Atomic

theorem bind (first : Plain m) (then_ : ∀ a, Atomic P (next a)) : Atomic P (m >>= next) := by
  intro s
  rw [bind_eq]
  cases ran : m s with
  | ok a s' =>
      have there := then_ a s'
      dsimp only
      cases done : next a s' with
      | ok v s'' =>
          rw [done] at there
          exact there.imp id (Store.Extends.after (first.ok ran))
      | error fault s'' =>
          rw [done] at there
          exact .after (first.ok ran) there
  | error fault s' => exact .of_sameData (first.error ran).1

theorem breach (b : Breach) : Atomic P (Eval.breach b) :=
  (plain_breach b).atomic

theorem breach_bind (b : Breach) : Atomic P (Eval.breach b >>= next) :=
  fun s => .refl s

theorem setItems (r : Ref) (items : List Value) (holds : P v) :
    Atomic P (Eval.setItems r items >>= fun _ => pure v) :=
  fun _ => .inl holds

theorem setEntries (r : Ref) (entries : Entries) (holds : P v) :
    Atomic P (Eval.setEntries r entries >>= fun _ => pure v) :=
  fun _ => .inl holds

theorem ofList (items : List Value) : Atomic P (Value.ofList items) :=
  fun s => .inr (.pushList s items)

end Atomic

end Eval

open Eval (Atomic)

namespace Method

/-- Has no result to refuse. -/
abbrev Silent (v : Value) : Prop :=
  v = .none

theorem atomic_split (base : Value) (t : Text) (args : List Value) (keywords : Bindings) :
    Atomic Silent (split base t args keywords) := by
  refine .bind (plain_splitArguments args keywords) fun p => ?_
  obtain ⟨sep, limit⟩ := p
  dsimp only
  have parts {n : Int} {sep : Value} : Atomic Silent
      (textOf sep >>= fun sep => splitAt base t sep (limitOf t n) >>= Value.ofList) :=
    .bind (plain_textOf sep) fun sep => .bind (plain_splitAt base t sep _) .ofList
  have words {n : Int} : Atomic Silent (splitAtBlanks base t (limitOf t n) >>= Value.ofList) :=
    .bind (plain_splitAtBlanks base t _) .ofList
  split
  · split <;> first | exact words | exact parts
  · refine .bind (plain_wordOf _) fun n => ?_
    split <;> first | exact words | exact parts

theorem atomic_callText (base : Value) (t : Text) (m : TextMethod) (args : List Value)
    (keywords : Bindings) : Atomic Silent (callText base t m args keywords) := by
  cases m with
  | split => exact atomic_split base t args keywords
  | _ => exact Eval.Plain.atomic (by unfold callText; grind)

theorem atomic_pop (r : Ref) (args : List Value) : Atomic (fun _ => True) (pop r args) := by
  unfold pop
  extract_lets at_
  have behind (i : Int) : Atomic (fun _ => True) (at_ i) := by
    refine .bind (Eval.plain_itemsOf r) fun items => ?_
    extract_lets i taken
    have of_taken (u : Unit) : Atomic (fun _ => True) (taken u) := by
      dsimp only [taken]
      split
      · exact .breach _
      · exact .setItems r _ trivial
    clear_value taken
    split
    · exact .breach_bind _
    · exact of_taken ()
  clear_value at_
  split
  · exact behind _
  · exact .bind (plain_wordOf _) behind
  · exact .breach_bind _

theorem atomic_dictPop (r : Ref) (args : List Value) :
    Atomic (fun _ => True) (dictPop r args) := by
  refine .bind (plain_keyArguments args) fun ⟨key, fallback⟩ => ?_
  refine .bind (Eval.plain_entriesOf r) fun entries => ?_
  extract_lets taken
  have of_taken (u : Unit) : Atomic (fun _ => True) (taken u) := by
    dsimp only [taken]
    split
    · exact .setEntries r _ trivial
    · split
      · exact fun s => .inl trivial
      · exact fun s => .refl s
  clear_value taken
  split
  · exact .breach_bind _
  · exact of_taken ()

theorem atomic_insert (r : Ref) (args : List Value) : Atomic Silent (insert r args) := by
  unfold insert
  split
  · refine .bind (plain_wordOf _) fun i => ?_
    exact .bind (Eval.plain_itemsOf r) fun items => .setItems r _ rfl
  · exact .breach _

theorem atomic_remove (r : Ref) (args : List Value) : Atomic Silent (remove r args) := by
  unfold remove
  split
  · refine .bind (Eval.plain_itemsOf r) fun items => .bind Eval.plain_get fun s => ?_
    refine .bind (Eval.plain_lift _) fun found? => ?_
    split
    · exact .setItems r _ rfl
    · exact .breach _
  · exact .breach _

theorem atomic_callList (r : Ref) {m : ListMethod} (unsorted : m ≠ .sort) (kept : m ≠ .pop)
    (args : List Value) (keywords : Bindings) : Atomic Silent (callList r m args keywords) := by
  refine .bind (Eval.plain_itemsOf r) fun items => ?_
  cases m with
  | append =>
      dsimp only
      split
      · exact .setItems r _ rfl
      · exact .breach _
  | pop => contradiction
  | insert => exact atomic_insert r args
  | remove => exact atomic_remove r args
  | count => exact (plain_countOf items args).atomic
  | index => exact (plain_indexOf items args).atomic
  | sort => contradiction
  | reverse => exact .bind (plain_noArguments args) fun _ => .setItems r _ rfl
  | copy => exact .bind (plain_noArguments args) fun _ => .ofList items

theorem atomic_callDict (r : Ref) {m : DictMethod} (kept : m ≠ .pop) (args : List Value) :
    Atomic Silent (callDict r m args) := by
  cases m with
  | get => exact (plain_dictGet r args).atomic
  | pop => contradiction
  | keys | values | items => exact (plain_view r _ args).atomic

/-! ### Taking a value out -/

/-- `pop` with these arguments takes a value out of a list or a dict of the first store and leaves
the second one. -/
inductive Popped (s : Store) : Value → List Value → Value → Store → Prop where
  | last {r : Ref} {rest : List Value} {v : Value} (items : s.items r = rest ++ [v]) :
      Popped s (.list r) [] v (s.setItems r rest)
  | item {r : Ref} {front behind : List Value} {v place : Value} {i : Int}
      (items : s.items r = front ++ v :: behind) (asked : place.int? = some i)
      (word : Operator.isWord i = true)
      (here : i = front.length ∨ i = front.length - ((s.items r).length : Int)) :
      Popped s (.list r) [place] v (s.setItems r (front ++ behind))
  | entry {r : Ref} {key v : Value} {fallback : Option Value}
      (found : (s.entries r).find? key = some v) (hashable : key.isHashable = true) :
      Popped s (.dict r) (key :: fallback.toList) v
        (s.setEntries r ((s.entries r).erase key))

/-- Take out the item that an integer counts to, from the end if it is negative. -/
def popAt (r : Ref) (i : Int) : Eval Value := fun s =>
  let place := if i < 0 then i + (s.items r).length else i
  if place < 0 then .error (.breach .index) s
  else
    match (s.items r)[place.toNat]? with
    | none => .error (.breach .index) s
    | some v => .ok v (s.setItems r ((s.items r).eraseIdx place.toNat))

theorem pop_eq (r : Ref) (args : List Value) :
    pop r args =
      match args with
      | [] => popAt r (-1)
      | [v] => wordOf v >>= popAt r
      | _ => Eval.breach .type := by
  -- With a place or without one, it ends in the same steps.
  have behind (i : Int) : (do
      let items ← Eval.itemsOf r
      let i := if i < 0 then i + items.length else i
      if i < 0 then Eval.breach .index
      match items[i.toNat]? with
      | none => Eval.breach .index
      | some x =>
          Eval.setItems r (items.eraseIdx i.toNat)
          return x) = popAt r i := by
    funext s
    rw [bind_eq]
    show (if (if i < 0 then i + (s.items r).length else i) < 0 then _ else _ : Eval Value) s = _
    rw [popAt]
    generalize (if i < 0 then i + ((s.items r).length : Int) else i) = place
    split
    · rfl
    · cases (s.items r)[place.toNat]? <;> rfl
  match args with
  | [] => exact behind (-1)
  | [v] => exact congrArg (wordOf v >>= ·) (funext behind)
  | _ :: _ :: _ => rfl

theorem popAt_eq_ok {r : Ref} {i : Int} : popAt r i s = .ok v s' ↔
    ∃ front behind, s.items r = front ++ v :: behind ∧
      (i = front.length ∨ i = front.length - ((s.items r).length : Int)) ∧
        s' = s.setItems r (front ++ behind) := by
  simp only [popAt]
  generalize counted : (if i < 0 then i + ((s.items r).length : Int) else i) = place
  constructor
  · intro taken
    split at taken
    · cases taken
    · split at taken
      · cases taken
      · rename_i found
        cases taken
        obtain ⟨inside, rfl⟩ := List.getElem?_eq_some_iff.mp found
        refine ⟨(s.items r).take place.toNat, (s.items r).drop (place.toNat + 1), by simp, ?_,
          by rw [List.eraseIdx_eq_take_drop_succ]⟩
        rw [List.length_take]
        omega
  · rintro ⟨front, behind, items, here, rfl⟩
    -- Counted from either end, the place is where the list splits.
    have at_front : place = front.length := by
      have long := congrArg List.length items
      simp only [List.length_append, List.length_cons] at long
      omega
    subst at_front
    simp [items, List.eraseIdx_append_of_length_le]

theorem wordOf_eq_ok {place : Value} {n : Int} :
    wordOf place s = .ok n s' ↔ place.int? = some n ∧ Operator.isWord n = true ∧ s' = s := by
  rw [wordOf, intOf, bind_eq]
  cases place.int? with
  | none =>
      constructor
      · rintro ⟨⟩
      · rintro ⟨⟨⟩, -⟩
  | some i =>
      show (if Operator.isWord i = true then pure i else Eval.breach .overflow : Eval Int) s = _ ↔ _
      by_cases word : Operator.isWord i = true
      · rw [if_pos word]
        constructor
        · rintro ⟨⟩
          exact ⟨rfl, word, rfl⟩
        · rintro ⟨⟨⟩, -, rfl⟩
          rfl
      · rw [if_neg word]
        constructor
        · rintro ⟨⟩
        · rintro ⟨⟨⟩, fits, -⟩
          contradiction

theorem pop_eq_ok {r : Ref} : pop r args s = .ok v s' ↔ Popped s (.list r) args v s' := by
  rw [pop_eq]
  match args with
  | [] =>
      rw [popAt_eq_ok]
      constructor
      · rintro ⟨front, behind, items, here, rfl⟩
        have none_behind : behind = [] := by
          have long := congrArg List.length items
          simp only [List.length_append, List.length_cons] at long
          exact List.eq_nil_of_length_eq_zero (by omega)
        subst none_behind
        rw [List.append_nil]
        exact .last items
      · rintro ⟨items⟩
        rename_i rest
        refine ⟨rest, [], items, .inr ?_, by rw [List.append_nil]⟩
        have long := congrArg List.length items
        simp only [List.length_append, List.length_cons, List.length_nil] at long
        omega
  | [place] =>
      simp only [run_bind_eq_ok, wordOf_eq_ok, popAt_eq_ok]
      constructor
      · rintro ⟨i, after, ⟨asked, word, rfl⟩, front, behind, items, here, rfl⟩
        exact .item items asked word here
      · rintro popped
        cases popped with
        | @item _ front behind _ _ i items asked word here =>
        exact ⟨i, s, ⟨asked, word, rfl⟩, front, behind, items, here, rfl⟩
  | _ :: _ :: _ => exact ⟨nofun, nofun⟩

theorem dictPop_apply (r : Ref) (key : Value) (fallback : Option Value) (s : Store) :
    dictPop r (key :: fallback.toList) s =
      if !(s.entries r).isEmpty && !key.isHashable then .error (.breach .type) s
      else
        match if (s.entries r).isEmpty then none else (s.entries r).find? key with
        | some v => .ok v (s.setEntries r ((s.entries r).erase key))
        | none =>
            match fallback with
            | some v => .ok v s
            | none => .error (.missingKey key) s := by
  have given : keyArguments (key :: fallback.toList) = pure (key, fallback) := by
    cases fallback <;> rfl
  rw [dictPop, given]
  show (if (!(s.entries r).isEmpty && !key.isHashable) = true then _ else _ : Eval Value) s = _
  split
  · rfl
  · cases found : if (s.entries r).isEmpty then none else (s.entries r).find? key with
    | some v => rfl
    | none => cases fallback <;> rfl

theorem dictPop_eq_ok {r : Ref} (taken : dictPop r args s = .ok v s') :
    Popped s (.dict r) args v s' ∨ s' = s := by
  obtain ⟨key, fallback, rfl⟩ : ∃ key, ∃ fallback : Option Value, args = key :: fallback.toList := by
    match args with
    | [] => cases taken
    | [key] => exact ⟨key, none, rfl⟩
    | [key, v] => exact ⟨key, some v, rfl⟩
    | _ :: _ :: _ :: _ => cases taken
  rw [dictPop_apply] at taken
  split at taken
  · cases taken
  · rename_i looked
    split at taken
    · rename_i found
      split at found
      · cases found
      · cases taken
        exact .inl (.entry found (by simp_all))
    · split at taken
      · cases taken
        exact .inr rfl
      · cases taken

theorem dictPop_of_popped {r : Ref} (taken : Popped s (.dict r) args v s') :
    dictPop r args s = .ok v s' := by
  cases taken with
  | @entry _ key _ fallback found hashable =>
  rw [dictPop_apply]
  have filled : (s.entries r).isEmpty = false := by
    cases entries : s.entries r with
    | nil => simp [entries, Entries.find?] at found
    | cons e rest => rfl
  simp [filled, hashable, found]

theorem length_erase_of_find? {entries : Entries} {key v : Value}
    (found : entries.find? key = some v) : (entries.erase key).length + 1 = entries.length := by
  induction entries with
  | nil => cases found
  | cons e rest ih =>
      obtain ⟨k, x⟩ := e
      by_cases same : Value.keyEq key k = true
      · simp [Entries.erase, same]
      · have deeper : Entries.find? rest key = some v := by
          simpa [Entries.find?, List.find?_cons, same] using found
        simp [Entries.erase, same, ih deeper]

-- What is taken out is missing afterwards.
theorem Popped.not_extends (taken : Popped s base args v s') : ¬ s.Extends s' := by
  intro same
  cases taken with
  | last items =>
      have kept := same.items_eq (by simp [items])
      simp [items] at kept
  | item items asked word here =>
      have kept := same.items_eq (by simp [items])
      simp [items] at kept
  | @entry r key _ fallback found hashable =>
      have fewer := length_erase_of_find? found
      have kept := same.entries_eq fun none => by simp [none] at fewer
      rw [kept] at fewer
      exact absurd fewer (Nat.succ_ne_self _)

/-! ### Calls -/

/-- A call of `pop` with arguments that pass, which takes out a value that does not. -/
structure Loses (s : Store) (base : Value) (name : Text) (args : List Value)
    (keywords : Bindings) (s' : Store) : Prop where
  pop : name = "pop".toList
  plain : keywords = []
  light : ∀ v ∈ args, v.isContainer = true → Value.weight s maxLength v ≤ maxLength
  large : ∃ v, Popped s base args v s' ∧ v.isTooLarge s' = true

theorem name_of_named? {table : List (String × α)} {m : α} (known : named? table name = some m) :
    ∃ word, (word, m) ∈ table ∧ word.toList = name := by
  obtain ⟨⟨word, other⟩, found, rfl⟩ := Option.map_eq_some_iff.mp known
  exact ⟨word, List.mem_of_find?_eq_some found, by simpa using List.find?_some found⟩

theorem forM_checkWeight_cases (args : List Value) (s : Store) :
    (args.forM Value.checkWeight s = .ok ⟨⟩ s ∧
        ∀ v ∈ args, v.isContainer = true → Value.weight s maxLength v ≤ maxLength) ∨
      (∃ fault, args.forM Value.checkWeight s = .error fault s) ∧
        ¬ ∀ v ∈ args, v.isContainer = true → Value.weight s maxLength v ≤ maxLength := by
  induction args with
  | nil => exact .inl ⟨rfl, nofun⟩
  | cons v rest ih =>
      have unrolled : (v :: rest).forM Value.checkWeight s =
          (Value.checkWeight v >>= fun _ => rest.forM Value.checkWeight) s := rfl
      rw [unrolled, bind_eq, Value.checkWeight_apply, List.forall_mem_cons]
      by_cases heavy : (v.isContainer && Value.weight s maxLength v > maxLength) = true
      · rw [if_pos heavy]
        refine .inr ⟨⟨_, rfl⟩, fun light => ?_⟩
        simp only [Bool.and_eq_true, decide_eq_true_eq] at heavy
        exact absurd (light.1 heavy.1) (Nat.not_le_of_gt heavy.2)
      · rw [if_neg heavy]
        have light : v.isContainer = true → Value.weight s maxLength v ≤ maxLength := by
          simpa using heavy
        exact ih.imp (fun ⟨passed, each⟩ => ⟨passed, light, each⟩)
          fun ⟨refused, some_⟩ => ⟨refused, fun each => some_ each.2⟩

theorem call_apply {method : BoundMethod} (bound : bind? base name = some method)
    (allowed : strayKeyword? (keywordsOf name) keywords = none)
    (light : args.forM Value.checkWeight s = .ok ⟨⟩ s) :
    call base name args keywords s =
      if estimate s base method args > maxLength then .error (.cause .resultTooLarge) s
      else (run base method args keywords >>= Value.checked) s := by
  rw [call, bound]
  dsimp only
  rw [allowed]
  dsimp only
  rw [bind_eq, light]
  show (if estimate s base method args > maxLength then _ else _ : Eval Value) s = _
  split <;> rfl

-- A call that gets past all checks before the method is run.
theorem call_cases (base : Value) (name : Text) (args : List Value) (keywords : Bindings)
    (s : Store) :
    (∃ fault, call base name args keywords s = .error fault s) ∨
      ∃ method, bind? base name = some method ∧
        strayKeyword? (keywordsOf name) keywords = none ∧
        (∀ v ∈ args, v.isContainer = true → Value.weight s maxLength v ≤ maxLength) ∧
        call base name args keywords s = (run base method args keywords >>= Value.checked) s := by
  cases bound : bind? base name with
  | none => exact .inl ⟨_, by rw [call, bound]; rfl⟩
  | some method =>
      cases stray : strayKeyword? (keywordsOf name) keywords with
      | some keyword => exact .inl ⟨_, by rw [call, bound]; dsimp only; rw [stray]; rfl⟩
      | none =>
          obtain ⟨passed, light⟩ | ⟨⟨fault, refused⟩, -⟩ := forM_checkWeight_cases args s
          · rw [call_apply bound stray passed]
            split
            · exact .inl ⟨_, rfl⟩
            · exact .inr ⟨method, rfl, rfl, light, rfl⟩
          · refine .inl ⟨fault, ?_⟩
            rw [call, bound]
            dsimp only
            rw [stray]
            dsimp only
            rw [bind_eq, refused]

theorem Silent.not_isTooLarge (silent : Silent v) : v.isTooLarge s = false := by
  rw [silent]
  rfl

theorem atomic_run {method : BoundMethod} (bound : bind? base name = some method)
    (unsorted : name ≠ "sort".toList) (kept : name ≠ "pop".toList) (args : List Value)
    (keywords : Bindings) :
    Atomic Silent (run base method args keywords) := by
  cases base with
  | text tag t | raw tag t =>
      obtain ⟨m, -, rfl⟩ := Option.map_eq_some_iff.mp bound
      exact atomic_callText _ t m args keywords
  | tuple tag items =>
      obtain ⟨m, -, rfl⟩ := Option.map_eq_some_iff.mp bound
      exact (plain_callTuple items m args).atomic
  | list r =>
      obtain ⟨m, known, rfl⟩ := Option.map_eq_some_iff.mp bound
      obtain ⟨word, member, rfl⟩ := name_of_named? known
      refine atomic_callList r ?_ ?_ args keywords
      · rintro rfl
        exact unsorted (by simp_all [listMethods])
      · rintro rfl
        exact kept (by simp_all [listMethods])
  | dict r =>
      obtain ⟨m, known, rfl⟩ := Option.map_eq_some_iff.mp bound
      obtain ⟨word, member, rfl⟩ := name_of_named? known
      refine atomic_callDict r ?_ args
      rintro rfl
      exact kept (by simp_all [dictMethods])
  | _ => cases bound

-- `pop` of any receiver that has it.
theorem run_pop {method : BoundMethod} (bound : bind? base "pop".toList = some method)
    (args : List Value) (keywords : Bindings) :
    Atomic (fun _ => True) (run base method args keywords) ∧
      ∀ s v s', run base method args keywords s = .ok v s' →
        Popped s base args v s' ∨ s' = s := by
  cases base with
  | text tag t | raw tag t => cases bound
  | tuple tag items => cases bound
  | list r =>
      cases bound
      refine ⟨.bind (Eval.plain_itemsOf r) fun _ => atomic_pop r args, fun s v s' ran => .inl ?_⟩
      exact pop_eq_ok.mp ran
  | dict r =>
      cases bound
      exact ⟨atomic_dictPop r args, fun s v s' => dictPop_eq_ok⟩
  | _ => cases bound

-- A refused result is what the method gave, with the store that it left.
theorem checked_eq_error {m : Eval Value} {fault : Fault}
    (failed : (m >>= Value.checked) s = .error fault s') :
    m s = .error fault s' ∨ ∃ v, m s = .ok v s' ∧ v.isTooLarge s' = true := by
  rw [bind_eq] at failed
  cases ran : m s with
  | ok v after =>
      rw [ran] at failed
      obtain ⟨large, c, refused⟩ | ⟨-, passed⟩ := v.checked_cases after
      · dsimp only at failed
        rw [refused] at failed
        cases failed
        exact .inr ⟨v, rfl, large⟩
      · dsimp only at failed
        rw [passed] at failed
        cases failed
  | error fault after =>
      rw [ran] at failed
      exact .inl failed

theorem strayKeyword?_nil : strayKeyword? [] keywords = none ↔ keywords = [] := by
  cases keywords with
  | nil => exact ⟨fun _ => rfl, fun _ => rfl⟩
  | cons k rest => exact ⟨nofun, nofun⟩

-- `pop` with light arguments is run.
theorem call_pop {method : BoundMethod} (bound : bind? base "pop".toList = some method)
    (small : estimate s base method args = 0)
    (light : ∀ v ∈ args, v.isContainer = true → Value.weight s maxLength v ≤ maxLength)
    (ran : run base method args [] s = .ok v s') (large : v.isTooLarge s' = true) :
    ∃ fault, call base "pop".toList args [] s = .error fault s' := by
  obtain ⟨passed, -⟩ | ⟨-, heavy⟩ := forM_checkWeight_cases args s
  · rw [call_apply bound rfl passed, small, if_neg (Nat.not_lt_zero _), bind_eq, ran]
    obtain ⟨-, c, refused⟩ | ⟨fits, -⟩ := v.checked_cases s'
    · exact ⟨.cause c, refused⟩
    · rw [large] at fits
      cases fits
  · exact absurd light heavy

/-- Other methods than `sort` that fail leave all lists and dicts as they were, except for `pop`
when it takes out what is then refused for its size: this is lost. -/
theorem call_loses_iff (unsorted : name ≠ "sort".toList) :
    (∃ fault, call base name args keywords s = .error fault s') ∧ ¬ s.Extends s' ↔
      Loses s base name args keywords s' := by
  constructor
  · rintro ⟨⟨fault, failed⟩, changed⟩
    obtain ⟨early, same⟩ | ⟨method, bound, allowed, light, ran⟩ :=
      call_cases base name args keywords s
    · rw [same] at failed
      cases failed
      exact absurd (.refl s) changed
    rw [ran] at failed
    -- Only `pop` has changed something when the check of its result fails.
    by_cases popped : name = "pop".toList
    · subst popped
      obtain ⟨atomic, taken⟩ := run_pop bound args keywords
      obtain stopped | ⟨v, ran, large⟩ := checked_eq_error failed
      · have after := atomic s
        rw [stopped] at after
        exact absurd after changed
      · obtain out | rfl := taken s v s' ran
        · exact ⟨rfl, strayKeyword?_nil.mp allowed, light, v, out, large⟩
        · exact absurd (.refl _) changed
    · have after := atomic_run bound unsorted popped args keywords s
      obtain stopped | ⟨v, ran, large⟩ := checked_eq_error failed
      · rw [stopped] at after
        exact absurd after changed
      · rw [ran] at after
        obtain silent | kept := after
        · rw [Silent.not_isTooLarge silent] at large
          cases large
        · exact absurd kept changed
  · rintro ⟨rfl, rfl, light, v, popped, large⟩
    refine ⟨?_, popped.not_extends⟩
    cases base with
    | list r => exact call_pop rfl rfl light (pop_eq_ok.mpr popped) large
    | dict r => exact call_pop rfl rfl light (dictPop_of_popped popped) large
    | _ => cases popped

theorem call_loses_long_int :
    let long := Value.int 1 (2 ^ maxBits)
    let s : Store := ⟨#[[.list 0, long]], #[], 2⟩
    let s' : Store := ⟨#[[.list 0]], #[], 2⟩
    "pop".toList ≠ "sort".toList ∧
      (∃ fault, call (.list 0) "pop".toList [] [] s = .error fault s') ∧ ¬ s.Extends s' := by
  intro long
  have large (s : Store) : long.isTooLarge s = true := by
    have at_ (n : Int) (many : maxBits < bitLength n) : (Value.int 1 n).isTooLarge s = true :=
      decide_eq_true many
    exact at_ _ (lt_bitLength_two_pow maxBits)
  clear_value long
  exact ⟨by decide, (call_loses_iff (by decide)).mpr
    ⟨rfl, rfl, nofun, long, @Popped.last _ 0 [.list 0] long rfl, large _⟩⟩

end Method

end Snippet
