import Snippet.Value.Order
import Snippet.Value.Render
import Snippet.Value.Weight

/-!
Values under other identities. A renaming moves all tags from one on by the same distance, as if so
many values had been made in between. Nothing that is read off values and stores notices: tests,
order, texts and weights stay what they are, and items are found where they were.
-/

set_option autoImplicit false

namespace Snippet

/-- Tags from `start` on are moved by `gap`. -/
structure Renaming where
  start : Nat
  gap : Nat
  positive : Tag.shared < start

namespace Renaming

variable (ρ : Renaming)

def tag (t : Nat) : Nat :=
  if t < ρ.start then t else t + ρ.gap

@[simp]
theorem tag_shared : ρ.tag Tag.shared = Tag.shared :=
  if_pos ρ.positive

theorem tag_of_le {t : Nat} (late : ρ.start ≤ t) : ρ.tag t = t + ρ.gap :=
  if_neg (Nat.not_lt.mpr late)

theorem tag_inj {s t : Nat} : ρ.tag s = ρ.tag t ↔ s = t := by
  simp only [tag]
  split <;> split <;> omega

@[simp]
theorem tag_beq (s t : Nat) : (ρ.tag s == ρ.tag t) = (s == t) := by
  rw [Bool.eq_iff_iff, beq_iff_eq, beq_iff_eq, tag_inj]

end Renaming

namespace Value

variable (ρ : Renaming)

mutual

def rename : Value → Value
  | none => none
  | bool b => bool b
  | int t n => int (ρ.tag t) n
  | float t x => float (ρ.tag t) x
  | complex t z => complex (ρ.tag t) z
  | text t x => text (ρ.tag t) x
  | raw t x => raw (ρ.tag t) x
  | tuple t items => tuple (ρ.tag t) (renameAll items)
  | list r => list r
  | dict r => dict r
  | view t kind r => view (ρ.tag t) kind r
  | builtin name => builtin name

def renameAll : List Value → List Value
  | [] => []
  | v :: rest => rename v :: renameAll rest

end

@[simp]
theorem renameAll_eq_map (items : List Value) : renameAll ρ items = items.map (rename ρ) := by
  induction items with
  | nil => rfl
  | cons v rest ih => rw [renameAll, ih, List.map_cons]

variable {ρ} (v w : Value)

@[simp]
theorem typeName_rename : (v.rename ρ).typeName = v.typeName := by
  cases v <;> rfl

@[simp]
theorem text?_rename : (v.rename ρ).text? = v.text? := by
  cases v <;> rfl

@[simp]
theorem int?_rename : (v.rename ρ).int? = v.int? := by
  cases v <;> rfl

@[simp]
theorem ofValue?_rename : Numeric.ofValue? (v.rename ρ) = Numeric.ofValue? v := by
  cases v <;> rfl

@[simp]
theorem isContainer_rename : isContainer (v.rename ρ) = isContainer v := by
  cases v <;> rfl

@[simp]
theorem same_rename : same (v.rename ρ) (w.rename ρ) = same v w := by
  cases v <;> cases w <;> simp [rename, same]

@[simp]
theorem any_same_rename (path : List Value) :
    (path.map (rename ρ)).any (same (v.rename ρ)) = path.any (same v) := by
  simp [List.any_map, Function.comp_def]

@[simp]
theorem scalarEq_rename : scalarEq (v.rename ρ) (w.rename ρ) = scalarEq v w := by
  simp [scalarEq]

def isTuple : Value → Bool
  | tuple .. => true
  | _ => false

theorem keyEq_of_scalar {v w : Value} (other : (v.isTuple && w.isTuple) = false) :
    keyEq v w = (same v w || scalarEq v w) := by
  rw [keyEq.eq_2]
  rintro _ _ _ _ rfl rfl
  contradiction

theorem keyEq_rename_of_scalar {v w : Value} (other : (v.isTuple && w.isTuple) = false) :
    keyEq (v.rename ρ) (w.rename ρ) = keyEq v w := by
  have kept (v : Value) : (v.rename ρ).isTuple = v.isTuple := by cases v <;> rfl
  rw [keyEq_of_scalar other, keyEq_of_scalar (by rw [kept, kept, other]), same_rename,
    scalarEq_rename]

mutual

@[simp]
theorem keyEq_rename : (v w : Value) → keyEq (v.rename ρ) (w.rename ρ) = keyEq v w
  | tuple s xs, tuple t ys => by
      have here := same_rename (ρ := ρ) (tuple s xs) (tuple t ys)
      have items := keysEq_rename xs ys
      simp only [rename, renameAll_eq_map] at here ⊢
      simp only [keyEq, here, items]
  | tuple _ _, none | tuple _ _, bool _ | tuple _ _, int _ _ | tuple _ _, float _ _
  | tuple _ _, complex _ _ | tuple _ _, text _ _ | tuple _ _, raw _ _ | tuple _ _, list _
  | tuple _ _, dict _ | tuple _ _, view _ _ _ | tuple _ _, builtin _ =>
      keyEq_rename_of_scalar rfl
  | none, _ | bool _, _ | int _ _, _ | float _ _, _ | complex _ _, _ | text _ _, _ | raw _ _, _
  | list _, _ | dict _, _ | view _ _ _, _ | builtin _, _ =>
      keyEq_rename_of_scalar rfl

@[simp]
theorem keysEq_rename : (xs ys : List Value) →
    keysEq (xs.map (rename ρ)) (ys.map (rename ρ)) = keysEq xs ys
  | [], [] => rfl
  | [], _ :: _ => rfl
  | _ :: _, [] => rfl
  | x :: xs, y :: ys => by
      simp only [List.map_cons, keysEq, keyEq_rename x y, keysEq_rename xs ys]

end

mutual

@[simp]
theorem isHashable_rename : (v : Value) → (v.rename ρ).isHashable = v.isHashable
  | tuple _ items => by
      simp only [rename, renameAll_eq_map, isHashable, areHashable_rename items]
  | none | bool _ | int _ _ | float _ _ | complex _ _ | text _ _ | raw _ _ | list _ | dict _
  | builtin _ => rfl
  | view _ kind _ => by cases kind <;> rfl

@[simp]
theorem areHashable_rename : (items : List Value) →
    areHashable (items.map (rename ρ)) = areHashable items
  | [] => rfl
  | v :: rest => by
      simp only [List.map_cons, areHashable, isHashable_rename v, areHashable_rename rest]

end

end Value

namespace Entries

def rename (ρ : Renaming) (entries : Entries) : Entries :=
  entries.map (Prod.map (Value.rename ρ) (Value.rename ρ))

variable {ρ : Renaming} (entries : Entries) (key value : Value)

@[simp]
theorem rename_cons (rest : Entries) :
    rename ρ ((key, value) :: rest) = (key.rename ρ, value.rename ρ) :: rest.rename ρ :=
  rfl

@[simp]
theorem length_rename : (entries.rename ρ).length = entries.length :=
  List.length_map _

@[simp]
theorem isEmpty_rename : (entries.rename ρ).isEmpty = entries.isEmpty :=
  List.isEmpty_map

@[simp]
theorem keys_rename : (entries.rename ρ).map (·.1) = (entries.map (·.1)).map (Value.rename ρ) := by
  simp [rename, Function.comp_def]

@[simp]
theorem values_rename : (entries.rename ρ).map (·.2) = (entries.map (·.2)).map (Value.rename ρ) := by
  simp [rename, Function.comp_def]

@[simp]
theorem find?_rename :
    (entries.rename ρ).find? (key.rename ρ) = (entries.find? key).map (Value.rename ρ) := by
  induction entries with
  | nil => rfl
  | cons e rest ih =>
      obtain ⟨k, v⟩ := e
      simp only [find?, rename_cons, List.find?_cons, Value.keyEq_rename] at ih ⊢
      split
      · rfl
      · exact ih

@[simp]
theorem insert_rename :
    (entries.rename ρ).insert (key.rename ρ) (value.rename ρ) = (entries.insert key value).rename ρ := by
  induction entries with
  | nil => rfl
  | cons e rest ih =>
      obtain ⟨k, v⟩ := e
      simp only [insert, rename_cons, Value.keyEq_rename, ih]
      split <;> rfl

@[simp]
theorem erase_rename : (entries.rename ρ).erase (key.rename ρ) = (entries.erase key).rename ρ := by
  induction entries with
  | nil => rfl
  | cons e rest ih =>
      obtain ⟨k, v⟩ := e
      simp only [erase, rename_cons, Value.keyEq_rename, ih]
      split <;> rfl

end Entries

namespace Store

def rename (ρ : Renaming) (s : Store) : Store where
  lists := s.lists.map (List.map (Value.rename ρ))
  dicts := s.dicts.map (Entries.rename ρ)
  nextTag := ρ.tag s.nextTag

variable {ρ : Renaming} (s : Store)

@[simp]
theorem nextTag_rename : (s.rename ρ).nextTag = ρ.tag s.nextTag :=
  rfl

@[simp]
theorem items_rename (r : Ref) : (s.rename ρ).items r = (s.items r).map (Value.rename ρ) := by
  simp only [items, rename, Array.getElem?_map]
  cases s.lists[r]? <;> rfl

@[simp]
theorem entries_rename (r : Ref) : (s.rename ρ).entries r = (s.entries r).rename ρ := by
  simp only [entries, rename, Array.getElem?_map]
  cases s.dicts[r]? <;> rfl

end Store

namespace Value

variable {ρ : Renaming} {s : Store} {eq eq' : Comparer}

/-! ### Equality -/

@[simp]
theorem viewItems_rename (kind : ViewKind) (r : Ref) :
    viewItems (s.rename ρ) kind r = (viewItems s kind r).map (rename ρ) := by
  cases kind with
  | keys => simp only [viewItems, Store.entries_rename, Entries.keys_rename]
  | values => simp only [viewItems, Store.entries_rename, Entries.values_rename]
  | items => simp [viewItems, Entries.rename, rename, Function.comp_def]

section Comparing

variable (alike : ∀ a b, eq' (a.rename ρ) (b.rename ρ) = eq a b)
include alike

theorem itemEq_rename (a b : Value) : itemEq eq' (a.rename ρ) (b.rename ρ) = itemEq eq a b := by
  rw [itemEq, itemEq, same_rename, alike]

theorem pairsEq_rename (xs ys : List Value) :
    pairsEq eq' (xs.map (rename ρ)) (ys.map (rename ρ)) = pairsEq eq xs ys := by
  induction xs generalizing ys with
  | nil => rfl
  | cons x xs ih =>
      cases ys with
      | nil => rfl
      | cons y ys => simp only [List.map_cons, pairsEq, itemEq_rename alike, ih]

theorem entriesEq_rename (others es : Entries) :
    entriesEq eq' (others.rename ρ) (es.rename ρ) = entriesEq eq others es := by
  induction es with
  | nil => rfl
  | cons e rest ih =>
      obtain ⟨key, value⟩ := e
      simp only [Entries.rename_cons, entriesEq, Entries.find?_rename, ih]
      cases others.find? key with
      | none => rfl
      | some other => simp only [Option.map_some, itemEq_rename alike]

theorem anyItem_rename (x : Value) (ys : List Value) :
    anyItem eq' (x.rename ρ) (ys.map (rename ρ)) = anyItem eq x ys := by
  induction ys with
  | nil => rfl
  | cons y ys ih => simp only [List.map_cons, anyItem, itemEq_rename alike, ih]

theorem firstDifference_rename (xs ys : List Value) :
    firstDifference eq' (xs.map (rename ρ)) (ys.map (rename ρ))
      = Option.map (Prod.map (rename ρ) (rename ρ)) <$> firstDifference eq xs ys := by
  induction xs generalizing ys with
  | nil => rfl
  | cons x xs ih =>
      cases ys with
      | nil => rfl
      | cons y ys =>
          simp only [List.map_cons, firstDifference, itemEq_rename alike, ih, map_bind]
          congr 1
          funext b
          cases b <;> rfl

theorem viewHolds_rename (kind : ViewKind) (r : Ref) (x : Value) :
    viewHolds eq' (s.rename ρ) kind r (x.rename ρ) = viewHolds eq s kind r x := by
  cases kind with
  | keys => simp [viewHolds]
  | values =>
      simp only [viewHolds, Store.entries_rename, Entries.values_rename, anyItem_rename alike]
  | items =>
      cases x with
      | tuple t items =>
          rcases items with _ | ⟨key, _ | ⟨value, _ | ⟨more, rest⟩⟩⟩
          · rfl
          · rfl
          · simp only [rename, renameAll, viewHolds, isHashable_rename, Store.entries_rename,
              Entries.find?_rename]
            cases (s.entries r).find? key with
            | none => rfl
            | some found => simp only [Option.map_some, itemEq_rename alike]
          · rfl
      | _ => rfl

theorem viewWithin_rename (kind : ViewKind) (r : Ref) (xs : List Value) :
    viewWithin eq' (s.rename ρ) kind r (xs.map (rename ρ)) = viewWithin eq s kind r xs := by
  induction xs with
  | nil => rfl
  | cons x xs ih => simp only [List.map_cons, viewWithin, viewHolds_rename alike, ih]

theorem eqStep_rename (a b : Value) :
    eqStep eq' (s.rename ρ) (a.rename ρ) (b.rename ρ) = eqStep eq s a b := by
  have other (a b : Value) : Except.ok (ε := Breach) (scalarEq (a.rename ρ) (b.rename ρ))
      = .ok (scalarEq a b) :=
    congrArg Except.ok (scalarEq_rename a b)
  cases a with
  | tuple t xs =>
      cases b with
      | tuple u ys => simp [rename, eqStep, pairsEq_rename alike]
      | _ => exact other _ _
  | list r =>
      cases b with
      | list q => simp [rename, eqStep, pairsEq_rename alike]
      | _ => exact other _ _
  | dict r =>
      cases b with
      | dict q => simp [rename, eqStep, entriesEq_rename alike]
      | _ => exact other _ _
  | view t k r =>
      cases b with
      | view u m q =>
          simp only [rename, eqStep, Store.entries_rename, Entries.length_rename, viewItems_rename,
            viewWithin_rename alike, same, Renaming.tag_beq]
      | _ => exact other _ _
  | _ => exact other _ _

end Comparing

theorem eqAt_rename (budget : Nat) (a b : Value) :
    eqAt (s.rename ρ) budget (a.rename ρ) (b.rename ρ) = eqAt s budget a b := by
  induction budget generalizing a b with
  | zero => rfl
  | succ budget ih => exact eqStep_rename ih a b

@[simp]
theorem eq_rename (a b : Value) : Value.eq (s.rename ρ) (a.rename ρ) (b.rename ρ) = Value.eq s a b :=
  eqAt_rename depthBudget a b

@[simp]
theorem indexIn?_rename (x : Value) (ys : List Value) :
    indexIn? (s.rename ρ) (x.rename ρ) (ys.map (rename ρ)) = indexIn? s x ys := by
  induction ys with
  | nil => rfl
  | cons y ys ih => simp only [List.map_cons, indexIn?, itemEq_rename eq_rename, ih]

@[simp]
theorem countIn_rename (x : Value) (ys : List Value) :
    countIn (s.rename ρ) (x.rename ρ) (ys.map (rename ρ)) = countIn s x ys := by
  induction ys with
  | nil => rfl
  | cons y ys ih => simp only [List.map_cons, countIn, itemEq_rename eq_rename, ih]

@[simp]
theorem contains_rename (container x : Value) :
    Value.contains (s.rename ρ) (container.rename ρ) (x.rename ρ) = Value.contains s container x := by
  cases container <;>
    simp [rename, Value.contains, anyItem_rename eq_rename, viewHolds_rename eq_rename]

@[simp]
theorem isTrue_rename (v : Value) : isTrue (s.rename ρ) (v.rename ρ) = isTrue s v := by
  cases v <;> simp [rename, isTrue, Numeric.ofValue?]

/-! ### Order -/

theorem orderScalars_rename (op : OrderOp) (a b : Value) :
    orderScalars op (a.rename ρ) (b.rename ρ) = orderScalars op a b := by
  simp only [orderScalars, ofValue?_rename, text?_rename]

theorem orderItems_rename {order order' : Comparer}
    (alike : ∀ a b, order' (a.rename ρ) (b.rename ρ) = order a b) (op : OrderOp)
    (xs ys : List Value) :
    orderItems (Value.eq (s.rename ρ)) order' op (xs.map (rename ρ)) (ys.map (rename ρ))
      = orderItems (Value.eq s) order op xs ys := by
  simp only [orderItems, firstDifference_rename eq_rename, bind_map_left, List.length_map]
  congr 1
  funext difference
  cases difference with
  | none => rfl
  | some pair => exact alike pair.1 pair.2

theorem orderStep_rename {order order' : Comparer}
    (alike : ∀ a b, order' (a.rename ρ) (b.rename ρ) = order a b) (op : OrderOp) (a b : Value) :
    orderStep order' (s.rename ρ) op (a.rename ρ) (b.rename ρ) = orderStep order s op a b := by
  have other := orderScalars_rename (ρ := ρ) op a b
  cases a with
  | tuple t xs =>
      cases b with
      | tuple u ys => simp only [rename, renameAll_eq_map, orderStep, orderItems_rename alike]
      | _ => exact other
  | list r =>
      cases b with
      | list q => simp only [rename, orderStep, Store.items_rename, orderItems_rename alike]
      | _ => exact other
  | view t k r =>
      cases b with
      | view u m q =>
          simp only [rename, orderStep, orderViews, Store.entries_rename, Entries.length_rename,
            viewItems_rename, viewWithin_rename eq_rename]
      | _ => exact other
  | _ => exact other

theorem orderAt_rename (op : OrderOp) (budget : Nat) (a b : Value) :
    orderAt (s.rename ρ) op budget (a.rename ρ) (b.rename ρ) = orderAt s op budget a b := by
  induction budget generalizing a b with
  | zero => rfl
  | succ budget ih => exact orderStep_rename ih op a b

@[simp]
theorem order_rename (op : OrderOp) (a b : Value) :
    order (s.rename ρ) op (a.rename ρ) (b.rename ρ) = order s op a b :=
  orderAt_rename op depthBudget a b

/-! ### Texts -/

section Rendering

variable {render render' : Renderer} (alike : ∀ v, render' (v.rename ρ) = render v)
include alike

theorem mapM_render_rename (items : List Value) :
    (items.map (rename ρ)).mapM render' = items.mapM render := by
  induction items with
  | nil => rfl
  | cons v rest ih => rw [List.map_cons, List.mapM_cons, List.mapM_cons, alike, ih]

theorem renderItems_rename (items : List Value) :
    renderItems render' (items.map (rename ρ)) = renderItems render items := by
  rw [renderItems, renderItems, mapM_render_rename alike]

theorem mapM_renderEntry_rename (entries : Entries) :
    (entries.rename ρ).mapM (renderEntry render') = entries.mapM (renderEntry render) := by
  induction entries with
  | nil => rfl
  | cons e rest ih =>
      obtain ⟨key, value⟩ := e
      rw [Entries.rename_cons, List.mapM_cons, List.mapM_cons, ih]
      simp only [renderEntry, alike]

end Rendering

section Late

variable (late : ρ.start ≤ s.nextTag)
include late

theorem shownItems_rename (path : Path) (kind : ViewKind) (r : Ref) :
    shownItems (s.rename ρ) (path.map (rename ρ)) kind r = (shownItems s path kind r).map (rename ρ) := by
  cases kind with
  | keys => exact viewItems_rename .keys r
  | values => exact viewItems_rename .values r
  | items =>
      have moved : ρ.tag s.nextTag + path.length = ρ.tag (s.nextTag + path.length) := by
        rw [ρ.tag_of_le late, ρ.tag_of_le (Nat.le_add_right_of_le late), Nat.add_right_comm]
      simp [shownItems, Entries.rename, rename, Function.comp_def, moved]

theorem renderStep_rename {render render' : Path → Renderer}
    (alike : ∀ path v, render' (path.map (rename ρ)) (v.rename ρ) = render path v) (path : Path)
    (v : Value) :
    renderStep render' (s.rename ρ) (path.map (rename ρ)) (v.rename ρ) = renderStep render s path v := by
  have inside := alike (v :: path)
  have isOpen := any_same_rename (ρ := ρ) v path
  rw [List.map_cons] at inside
  cases v with
  | tuple t items =>
      simp only [rename, renameAll_eq_map] at inside isOpen ⊢
      simp only [renderStep, isOpen]
      rcases items with _ | ⟨x, _ | ⟨y, rest⟩⟩
      · rfl
      · simp only [List.map_cons, List.map_nil] at inside ⊢
        rw [inside]
      · have items := renderItems_rename inside (x :: y :: rest)
        simp only [List.map_cons] at items ⊢
        rw [items]
  | list r =>
      simp only [rename] at inside isOpen ⊢
      simp only [renderStep, isOpen, Store.items_rename, renderItems_rename inside]
  | dict r =>
      simp only [rename] at inside isOpen ⊢
      simp only [renderStep, isOpen, Store.entries_rename, mapM_renderEntry_rename inside]
  | view t kind r =>
      simp only [rename] at inside isOpen ⊢
      simp only [renderStep, isOpen, shownItems_rename late, renderItems_rename inside]
  | _ => rfl

theorem renderAt_rename (budget : Nat) (path : Path) (v : Value) :
    renderAt (s.rename ρ) budget (path.map (rename ρ)) (v.rename ρ) = renderAt s budget path v := by
  induction budget generalizing path v with
  | zero => rfl
  | succ budget ih => exact renderStep_rename late ih path v

theorem written_rename (v : Value) : written (s.rename ρ) (v.rename ρ) = written s v :=
  renderAt_rename late depthBudget [] v

theorem shown_rename (v : Value) : shown (s.rename ρ) (v.rename ρ) = shown s v := by
  have other := written_rename late v
  cases v with
  | text | raw => rfl
  | _ => exact other

end Late

/-! ### Weight -/

section Weighing

variable {limit : Nat} {open? open?' : Weigher}

mutual

theorem weighWith_rename
    (alike : ∀ path v total, open?' (path.map (rename ρ)) (v.rename ρ) total = open? path v total)
    (path : List Value) : (v : Value) → (total : Nat) →
    weighWith limit open?' (path.map (rename ρ)) (v.rename ρ) total
      = weighWith limit open? path v total
  | tuple t items, total => by
      have isOpen := any_same_rename (ρ := ρ) (tuple t items) path
      have inside := weighItems_rename alike (tuple t items :: path) items total
      simp only [List.map_cons, rename, renameAll_eq_map] at inside isOpen ⊢
      simp only [weighWith, isOpen, List.isEmpty_map, inside]
  | list r, total => alike path (list r) total
  | dict r, total => alike path (dict r) total
  | none, total | bool _, total | int _ _, total | float _ _, total | complex _ _, total
  | text _ _, total | raw _ _, total | view _ _ _, total | builtin _, total => by
      simp only [rename, weighWith, leafWeight]

theorem weighItems_rename
    (alike : ∀ path v total, open?' (path.map (rename ρ)) (v.rename ρ) total = open? path v total)
    (path : List Value) : (items : List Value) → (total : Nat) →
    weighItems limit open?' (path.map (rename ρ)) (items.map (rename ρ)) total
      = weighItems limit open? path items total
  | [], _ => rfl
  | x :: xs, total => by
      simp only [List.map_cons, weighItems, weighItems_rename alike path xs total,
        weighWith_rename alike path x]

end

end Weighing

theorem children_rename (v : Value) :
    children (s.rename ρ) (v.rename ρ) = (children s v).map (rename ρ) := by
  cases v with
  | list r => exact s.items_rename r
  | dict r =>
      simp [rename, children, Entries.rename, List.flatMap_map, List.map_flatMap]
  | _ => rfl

theorem weighAt_rename (limit room : Nat) (path : List Value) (v : Value) (total : Nat) :
    weighAt (s.rename ρ) limit room (path.map (rename ρ)) (v.rename ρ) total
      = weighAt s limit room path v total := by
  induction room generalizing path v total with
  | zero => exact weighWith_rename (fun _ _ _ => rfl) path v total
  | succ room ih =>
      refine weighWith_rename (fun path v total => ?_) path v total
      have inside (x : Value) (total : Nat) := ih (v :: path) x total
      simp only [List.map_cons] at inside
      simp only [children_rename, List.isEmpty_map, any_same_rename, List.foldr_map, inside]

@[simp]
theorem weight_rename (limit : Nat) (v : Value) :
    weight (s.rename ρ) limit (v.rename ρ) = weight s limit v := by
  simp only [weight, Store.rename, Array.size_map]
  exact weighAt_rename limit _ [] v 0

end Value

end Snippet
