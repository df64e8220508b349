import Snippet.Proofs.Eval.Free
import Snippet.Proofs.Text.Search

/-!
What the estimate of `replace` and `join` says of the text that they build. It bounds every
replacement, and it is the length of what a list or a tuple of texts is joined to. Other sources
of a join are not measured, so that their items are joined however long the text becomes.
-/

set_option autoImplicit false

namespace Snippet

open Eval (Yields)

namespace Method

open Subscript (iterate)

section Built

variable {base v : Value} {t : Text} {args : List Value}

/-- Whether the estimate looks at what is joined. -/
def isMeasured : Value → Bool
  | .list _ | .tuple .. => true
  | _ => false

theorem textOf_of_text? {x : Text} (text : v.text? = some x) : textOf v = pure x := by
  rw [textOf, text]
  rfl

theorem textOf_of_none (other : v.text? = none) : textOf v = Eval.breach .type := by
  rw [textOf, other]
  rfl

theorem yields_ofNewText (x : Text) : Yields (Value.ofNewText x) fun v => v.text? = some x := by
  rw [Value.ofNewText]
  split
  · exact .pure rfl
  · exact .bind_any fun tag => .pure rfl

theorem ofNewText_builds (x : Text) (s : Store) :
    ∃ v s', Value.ofNewText x s = .ok v s' ∧ v.text? = some x := by
  rw [Value.ofNewText]
  split
  · exact ⟨_, _, rfl, rfl⟩
  · exact ⟨_, _, rfl, rfl⟩

theorem yields_exactText (receiver : base.text? = some t) :
    Yields (Value.exactText base t) fun v => v.text? = some t := by
  cases base with
  | raw tag x => exact yields_ofNewText t
  | _ => exact .pure receiver

theorem limitOf_le (t : Text) (n : Int) : limitOf t n ≤ t.length + 1 := by
  rw [limitOf]
  split
  · exact Nat.le_refl _
  · exact Nat.min_le_right ..

theorem yields_replaced (old new : Text) (count : Int) (receiver : base.text? = some t)
    (unchanged : Bool) :
    Yields (if unchanged then Value.exactText base t
        else Value.ofNewText (Text.replace old new (limitOf t count) t)) fun v =>
      ∀ r, v.text? = some r → r.length ≤ max t.length (replacedLength t old new) := by
  split
  · intro s v s' ran r text
    obtain rfl := Option.some.inj ((yields_exactText receiver s v s' ran).symm.trans text)
    exact Nat.le_max_left ..
  · intro s v s' ran r text
    obtain rfl := Option.some.inj ((yields_ofNewText _ s v s' ran).symm.trans text)
    exact Nat.le_trans (Text.length_replace_le old new (limitOf_le t count))
      (Nat.le_max_right ..)

theorem yields_replace {old new : Value} {oldText newText : Text} (rest : List Value)
    (receiver : base.text? = some t) (of_old : old.text? = some oldText)
    (of_new : new.text? = some newText) :
    Yields (replace base t (old :: new :: rest)) fun v =>
      ∀ r, v.text? = some r → r.length ≤ max t.length (replacedLength t oldText newText) := by
  have built (count : Int) := yields_replaced oldText newText count receiver
  simp only [replace, textOf_of_text? of_old, textOf_of_text? of_new, pure_bind]
  match rest with
  | [] => exact built (-1) _
  | [count] => exact .bind_any fun count => built count _
  | _ :: _ :: _ =>
      have never : Yields (Eval.breach .type : Eval Int) fun _ => False := .throw _
      exact never.bind fun _ none => none.elim

theorem foldl_length (n : Nat) (items : List Value) :
    items.foldl (fun n v => n + (v.text?.getD []).length) n
      = n + (items.map fun v => (v.text?.getD []).length).sum := by
  induction items generalizing n with
  | nil => rfl
  | cons v rest ih =>
      rw [List.foldl_cons, ih, List.map_cons, List.sum_cons, Nat.add_assoc]

theorem mapM_textOf {items : List Value} {s s' : Store} {pieces : List Text} :
    items.mapM textOf s = .ok pieces s' ↔ s' = s ∧ items.map Value.text? = pieces.map some := by
  induction items generalizing s s' pieces with
  | nil =>
      constructor
      · rintro ⟨⟩
        exact ⟨rfl, rfl⟩
      · rintro ⟨rfl, none_⟩
        rw [List.map_eq_nil_iff.mp none_.symm]
        rfl
  | cons v rest ih =>
      rw [List.mapM_cons]
      cases text : v.text? with
      | none =>
          rw [textOf_of_none text, List.map_cons, text]
          refine ⟨nofun, ?_⟩
          rintro ⟨-, same⟩
          cases pieces <;> simp at same
      | some x =>
          rw [textOf_of_text? text, pure_bind, run_bind_eq_ok, List.map_cons, text]
          constructor
          · rintro ⟨others, after, ran, made⟩
            obtain ⟨rfl, same⟩ := ih.mp ran
            cases made
            exact ⟨rfl, by rw [same, List.map_cons]⟩
          · rintro ⟨rfl, same⟩
            cases pieces with
            | nil => contradiction
            | cons y others =>
                obtain ⟨here, later⟩ := List.cons.inj same
                cases here
                exact ⟨others, _, ih.mpr ⟨rfl, later⟩, rfl⟩

-- What texts are joined to is as long as the estimate of a list of them says.
theorem length_join_pieces {items : List Value} {pieces : List Text} (sep : Text)
    (texts : items.map Value.text? = pieces.map some) :
    (Text.join sep pieces).length = joinedLength sep items := by
  have count : pieces.length = items.length := by
    simpa using (congrArg List.length texts).symm
  have lengths : pieces.map List.length = items.map fun v => (v.text?.getD []).length := by
    have each := congrArg (List.map fun x : Option Text => (x.getD []).length) texts
    rw [List.map_map, List.map_map] at each
    exact each.symm
  rw [Text.length_join, joinedLength, foldl_length, Nat.zero_add, count, lengths]

theorem length_joined {sep r : Text} {source : Value} {s s' : Store}
    (ran : join sep [source] s = .ok v s') (built : v.text? = some r) :
    ∃ items after, iterate source s = .ok items after ∧ r.length = joinedLength sep items := by
  rw [join, run_bind_eq_ok] at ran
  obtain ⟨items, after, through, ran⟩ := ran
  refine ⟨items, after, through, ?_⟩
  split at ran
  case h_1 tag x =>
    cases ran
    cases built
    simp [joinedLength, Value.text?]
  case h_2 =>
    rw [run_bind_eq_ok] at ran
    obtain ⟨pieces, same, read, ran⟩ := ran
    obtain ⟨rfl, texts⟩ := mapM_textOf.mp read
    split at ran
    · contradiction
    · obtain rfl := Option.some.inj ((yields_ofNewText _ _ v s' ran).symm.trans built)
      exact length_join_pieces sep texts

theorem join_builds {sep : Text} {source : Value} {items : List Value} {pieces : List Text}
    {s after : Store} (through : iterate source s = .ok items after)
    (texts : items.map Value.text? = pieces.map some)
    (room : widthOf (sep ++ pieces.flatten) * joinedLength sep items ≤ maxBytes) :
    ∃ v s', join sep [source] s = .ok v s' ∧ v.text? = some (Text.join sep pieces) := by
  rw [join, bind_eq, through]
  dsimp only
  split
  case h_1 tag x =>
    obtain ⟨y, rfl⟩ : ∃ y, pieces = [y] := by
      apply List.length_eq_one_iff.mp
      simpa using (congrArg List.length texts).symm
    obtain rfl := Option.some.inj (List.cons.inj texts).1
    exact ⟨_, _, rfl, rfl⟩
  case h_2 =>
    rw [bind_eq, mapM_textOf.mpr ⟨rfl, texts⟩]
    dsimp only
    rw [if_neg (Nat.not_lt.mpr room)]
    exact ofNewText_builds _ after

theorem length_replaced {s s' : Store} {r : Text} (receiver : base.text? = some t)
    (fits : estimate s base (.ofText t .replace) args ≤ maxLength)
    (ran : replace base t args s = .ok v s') (built : v.text? = some r) :
    r.length ≤ max t.length maxLength := by
  match args with
  | [] | [_] => contradiction
  | old :: new :: rest =>
      cases of_old : old.text? with
      | none =>
          simp only [replace, textOf_of_none of_old] at ran
          contradiction
      | some oldText =>
          cases of_new : new.text? with
          | none =>
              simp only [replace, textOf_of_text? of_old, textOf_of_none of_new, pure_bind] at ran
              contradiction
          | some newText =>
              have cap : replacedLength t oldText newText ≤ maxLength := by
                simpa [estimate, of_old, of_new] using fits
              have bound := yields_replace rest receiver of_old of_new s v s' ran r built
              omega

theorem length_joined_measured {s s' : Store} {r : Text}
    (fits : estimate s base (.ofText t .join) args ≤ maxLength)
    (ran : join t args s = .ok v s') (built : v.text? = some r) :
    r.length ≤ maxLength ∨ ∃ source items after, args = [source] ∧ isMeasured source = false ∧
      iterate source s = .ok items after ∧ r.length = joinedLength t items := by
  match args with
  | [] | _ :: _ :: _ => contradiction
  | [source] =>
      obtain ⟨items, after, through, size⟩ := length_joined ran built
      cases source with
      | list ref =>
          cases through
          exact .inl (size ▸ fits)
      | tuple tag parts =>
          cases through
          exact .inl (size ▸ fits)
      | _ => exact .inr ⟨_, items, after, rfl, rfl, through, size⟩

theorem estimate_unmeasured {source : Value} (s : Store) (base : Value) (t : Text)
    (free : isMeasured source = false) : estimate s base (.ofText t .join) [source] = 0 := by
  cases source <;> first | rfl | contradiction

end Built

/-- What `replace` and `join` build. A call within the estimate builds a text that is no longer
than its receiver or the cap, unless it joins what the estimate does not measure; the text is then
as long as its pieces and separators make it. For such a source the estimate is nothing, and the
text is built however long it is, as far as memory holds it. -/
theorem length_built {s : Store} {base : Value} {t : Text} (receiver : base.text? = some t) :
    (∀ m args keywords v s' r, m = .replace ∨ m = .join →
      estimate s base (.ofText t m) args ≤ maxLength →
      run base (.ofText t m) args keywords s = .ok v s' → v.text? = some r →
      r.length ≤ max t.length maxLength ∨
        ∃ source items after, m = .join ∧ args = [source] ∧ isMeasured source = false ∧
          iterate source s = .ok items after ∧ r.length = joinedLength t items) ∧
    ∀ source items pieces after keywords, isMeasured source = false →
      iterate source s = .ok items after → items.map Value.text? = pieces.map some →
      widthOf (t ++ pieces.flatten) * joinedLength t items ≤ maxBytes →
      estimate s base (.ofText t .join) [source] = 0 ∧
        ∃ v s', run base (.ofText t .join) [source] keywords s = .ok v s' ∧
          v.text? = some (Text.join t pieces) ∧
          (Text.join t pieces).length = joinedLength t items := by
  constructor
  case left =>
    intro m args keywords v s' r sizing fits ran built
    obtain rfl | rfl := sizing
    · exact .inl (length_replaced receiver fits ran built)
    · obtain small | ⟨source, items, after, named, free, through, size⟩ :=
        length_joined_measured fits ran built
      · exact .inl (Nat.le_trans small (Nat.le_max_right ..))
      · exact .inr ⟨source, items, after, rfl, named, free, through, size⟩
  case right =>
    intro source items pieces after keywords free through texts room
    obtain ⟨v, s', ran, built⟩ := join_builds through texts room
    exact ⟨estimate_unmeasured s base t free, v, s', ran, built, length_join_pieces t texts⟩

theorem widthOf_le (t : Text) : widthOf t ≤ 4 := by
  rw [widthOf]
  split
  · decide
  · split <;> decide

/-- Two letters are replaced within the cap. Three letters are joined by a separator as long as the
cap: the estimate is nothing, and twice as much as the cap is built. -/
theorem length_built_letters :
    (∃ v s', run (.text 2 "abab".toList) (.ofText "abab".toList .replace)
        [.text 0 ['b'], .text 3 "cc".toList] [] Store.empty = .ok v s' ∧
      v.text? = some "accacc".toList ∧
      ("accacc".toList.length ≤ max "abab".toList.length maxLength ∨
        ∃ source items after, TextMethod.replace = .join ∧
          [.text 0 ['b'], .text 3 "cc".toList] = [source] ∧ isMeasured source = false ∧
          iterate source Store.empty = .ok items after ∧
          "accacc".toList.length = joinedLength "abab".toList items)) ∧
    ∃ v s' r, estimate Store.empty (.text 2 (List.replicate maxLength 'a'))
        (.ofText (List.replicate maxLength 'a') .join) [.text 3 "bcd".toList] = 0 ∧
      run (.text 2 (List.replicate maxLength 'a'))
        (.ofText (List.replicate maxLength 'a') .join) [.text 3 "bcd".toList] [] Store.empty
          = .ok v s' ∧
      v.text? = some r ∧ r.length = 2 * maxLength + 3 := by
  constructor
  case left =>
    have ran : run (.text 2 "abab".toList) (.ofText "abab".toList .replace)
        [.text 0 ['b'], .text 3 "cc".toList] [] Store.empty
          = .ok (.text 1 "accacc".toList) { Store.empty with nextTag := 2 } := by
      rfl
    exact ⟨_, _, ran, rfl, (@length_built Store.empty (.text 2 "abab".toList) _ rfl).1 .replace
      _ _ _ _ _ (.inl rfl) (by decide) ran rfl⟩
  case right =>
    have joined (sep : Text) :
        joinedLength sep [.text 0 ['b'], .text 0 ['c'], .text 0 ['d']] = 2 * sep.length + 3 := by
      simp [joinedLength, Value.text?]
      omega
    have size : joinedLength (List.replicate maxLength 'a')
        [.text 0 ['b'], .text 0 ['c'], .text 0 ['d']] = 2 * maxLength + 3 := by
      rw [joined, List.length_replicate]
    have room (x : Text) : widthOf x * (2 * maxLength + 3) ≤ maxBytes :=
      Nat.le_trans (Nat.mul_le_mul_right _ (widthOf_le _)) (by decide)
    obtain ⟨free, v, s', ran, built, length⟩ :=
      (@length_built Store.empty (.text 2 (List.replicate maxLength 'a')) _ rfl).2
        (.text 3 "bcd".toList) [.text 0 ['b'], .text 0 ['c'], .text 0 ['d']] [['b'], ['c'], ['d']]
        Store.empty [] rfl rfl rfl (by rw [size]; exact room _)
    exact ⟨v, s', _, free, ran, built, length.trans size⟩

end Method

end Snippet
