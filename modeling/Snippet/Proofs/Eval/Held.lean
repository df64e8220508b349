import Snippet.Proofs.Eval.Arithmetic
import Snippet.Proofs.Eval.Slices
import Snippet.Proofs.Sorting.Permutation

/-!
What operators, subscripts, methods and functions give and leave in the store, as long as all that
they are given is within the limits. Most results are checked by their caller only.
-/

set_option autoImplicit false

namespace Snippet

open Value (solids solidEntries weight)

variable {α β : Type} {w : Limits} {s s' : Store} {a b v : Value}

/-- All values of a list are within the limits. -/
abbrev AllWithin (w : Limits) (items : List Value) : Prop :=
  ∀ v ∈ items, v.Within w

namespace Text

theorem length_le_of_mem_cutFrom {sep : Text} {limit skip : Nat} {hints : List Bool}
    {piece t found : Text} (member : found ∈ cutFrom sep limit skip hints piece t) :
    found.length ≤ piece.length + t.length := by
  fun_induction cutFrom sep limit skip hints piece t with
  | case1 => grind
  | case2 limit skip hints piece c rest ih => grind
  | case3 => grind
  | case4 limit hints piece c rest matched ih =>
      obtain rfl | later := List.mem_cons.mp member
      · simp
      · have bounded := ih later
        grind
  | case5 limit hints piece c rest other ih => grind

theorem length_le_of_mem_cut {sep t found : Text} {limit : Nat} (member : found ∈ cut sep limit t) :
    found.length ≤ t.length := by
  simpa using length_le_of_mem_cutFrom member

theorem length_le_of_mem_words {limit : Nat} {t found : Text} (member : found ∈ words limit t) :
    found.length ≤ t.length := by
  have shorter (t : Text) (p : Char → Bool) : (t.dropWhile p).length ≤ t.length :=
    (List.dropWhile_suffix p).length_le
  fun_induction words limit t with
  | case1 t none_left => cases member
  | case2 t c rest front =>
      obtain rfl := List.mem_singleton.mp member
      rw [← front]
      exact shorter t isBlank
  | case3 t c rest front limit less ih =>
      have front_le := shorter t isBlank
      rw [front] at front_le
      obtain rfl | later := List.mem_cons.mp member
      · have taken := (List.takeWhile_prefix (l := rest) fun d => !isBlank d).length_le
        simp only [List.length_cons] at front_le ⊢
        omega
      · exact (ih later).trans less.le

end Text

theorem Entries.forall_insert {entries : Entries} {key : Value} {P : Value → Prop}
    (each : ∀ e ∈ entries, P e.1 ∧ P e.2) (of_key : P key) (of_v : P v) :
    ∀ e ∈ entries.insert key v, P e.1 ∧ P e.2 := by
  fun_induction Entries.insert entries key v with
  | case1 key v => exact List.forall_mem_singleton.mpr ⟨of_key, of_v⟩
  | case2 k old rest key v same =>
      obtain ⟨of_first, of_rest⟩ := List.forall_mem_cons.mp each
      exact List.forall_mem_cons.mpr ⟨⟨of_first.1, of_v⟩, of_rest⟩
  | case3 k old rest key v other ih =>
      obtain ⟨of_first, of_rest⟩ := List.forall_mem_cons.mp each
      exact List.forall_mem_cons.mpr ⟨of_first, ih of_rest of_key of_v⟩

theorem solids_cons_le (v : Value) (items : List Value) : solids (v :: items) ≤ solids items + 1 := by
  rw [solids, List.countP_cons]
  exact Nat.add_le_add_left (by split <;> decide) _

namespace Limits

theorem ListFits.of_subperm {r : Ref} {items fewer : List Value} (fits : w.ListFits r items)
    (taken : fewer.Subperm items) : w.ListFits r fewer :=
  fits.of_le (fun v member => fits.each v (taken.subset member)) (taken.countP_le _)

theorem ListFits.of_perm {r : Ref} {items other : List Value} (fits : w.ListFits r items)
    (same : other.Perm items) : w.ListFits r other :=
  fits.of_subperm same.subperm

-- Room for one more item in a list that passed a check.
theorem ListFits.add {r : Ref} {items more : List Value} (each : AllWithin w items)
    (light : solids items ≤ maxLength) (within : v.Within w) (added : more.Perm (v :: items)) :
    w.ListFits r more := by
  have counted : solids more ≤ maxLength + 1 := by
    rw [solids, added.countP_eq]
    exact (solids_cons_le v items).trans (Nat.succ_le_succ light)
  refine ⟨fun u member => ?_, fun _ => counted.trans (by decide), fun _ => counted⟩
  obtain rfl | old := List.mem_cons.mp (added.subset member)
  · exact within
  · exact each u old

theorem ListFits.settled {r : Ref} {items : List Value} (each : AllWithin w items)
    (counted : solids items ≤ listCap) : w.settled.ListFits r items :=
  ⟨fun v member => Value.within_settled.mpr (each v member), fun _ => counted, nofun⟩

theorem DictFits.insert {r : Ref} {entries : Entries} {key : Value} (fits : w.DictFits r entries)
    (of_key : key.Within w) (of_v : v.Within w) (thin : r ∈ w.thin) :
    w.settled.DictFits r (entries.insert key v) := by
  have counted (entries : Entries) :
      solidEntries (entries.insert key v) ≤ solidEntries entries + 1 := by
    fun_induction Entries.insert entries key v <;> grind [solidEntries]
  refine ⟨fun e member => ?_, fun _ => ?_, fun none => none.elim⟩
  · have of_e := Entries.forall_insert fits.each of_key of_v e member
    exact ⟨Value.within_settled.mpr of_e.1, Value.within_settled.mpr of_e.2⟩
  · exact (counted entries).trans (Nat.succ_le_succ (fits.thin thin))

end Limits

open Eval (Keeps KeepsAt Pends Plain Yields Frees Fits)

namespace Value

theorem yields_ofTuple (items : List Value) :
    Yields (ofTuple items) fun v => ∃ tag, v = .tuple tag items := by
  rw [ofTuple]
  split
  · rename_i empty
    rw [List.isEmpty_iff.mp empty]
    exact Yields.pure ⟨_, rfl⟩
  · exact Yields.bind_any fun tag => Yields.pure ⟨tag, rfl⟩

theorem pends_ofTuple {items : List Value} (each : AllWithin w items) : Pends w (ofTuple items) := by
  refine ((plain_ofTuple items).keeps (yields_ofTuple items)).mono ?_
  rintro s v _ ⟨tag, rfl⟩
  exact each

theorem fits_ofTuple {items : List Value} (each : AllWithin w items)
    (fits : solids items ≤ maxLength) : Fits w (ofTuple items) := by
  intro s v s' ran
  obtain ⟨tag, rfl⟩ := yields_ofTuple items s v s' ran
  exact .tuple tag fits each

theorem pends_pure (within : v.Within w) : Pends w (pure v) :=
  Keeps.pure fun _ held => within.pending held

end Value

open Value (pends_pure)

namespace Operator

theorem keepsAt_addPlain (within : s.Within w) (of_a : a.Pending w s) (of_b : b.Pending w s) :
    KeepsAt w s (addPlain a b) fun s v => v.Pending w s := by
  unfold addPlain
  split
  · refine (Keeps.itemsOf _).bind (fun xs of_xs => ?_) s within
    refine (Keeps.itemsOf _).bind fun ys of_ys => ?_
    exact Keeps.ofList (List.forall_mem_append.mpr ⟨of_xs.each, of_ys.each⟩)
  · rw [addTuples]
    split
    · exact ⟨within, of_a⟩
    · split
      · exact ⟨within, of_b⟩
      · exact Value.pends_ofTuple (List.forall_mem_append.mpr ⟨of_a, of_b⟩) s within
  · split
    · rename_i t u left right
      have free := frees_addTexts t u (Value.isFree_of_text left) (Value.isFree_of_text right)
      exact free.pends (plain_addTexts _ _ _ _) s within
    · exact (frees_addNumbers a b).pends (plain_addNumbers a b) s within

theorem pends_addPlain (of_a : a.Within w) (of_b : b.Within w) : Pends w (addPlain a b) :=
  fun _ within => keepsAt_addPlain within (of_a.pending within) (of_b.pending within)

theorem yields_repeated {n : Nat} {xs : List α} :
    Yields (repeated n xs) fun ys => ∀ y ∈ ys, y ∈ xs := by
  rw [repeated]
  split
  · exact Yields.pure (by simp)
  · split
    · exact Yields.throw _
    · refine Yields.pure fun y member => ?_
      obtain ⟨copy, copied, member⟩ := List.mem_flatten.mp member
      exact List.eq_of_mem_replicate copied ▸ member

theorem keeps_repeated {n : Nat} {xs : List Value} (each : AllWithin w xs) :
    Keeps w (repeated n xs) fun _ ys => AllWithin w ys :=
  (plain_repeated n xs).keeps fun s ys s' ran v member =>
    each v (yields_repeated s ys s' ran v member)

theorem pends_repeatValue (of_v : v.Within w) (n : Int) : Pends w (repeatValue v n) := by
  refine (plain_countOf n).keeps_any.bind fun n _ => ?_
  cases of_v with
  | list known =>
      refine (Keeps.itemsOf _).bind fun xs fits => ?_
      exact (keeps_repeated fits.each).bind fun ys each => Keeps.ofList each
  | tuple tag fits each =>
      dsimp only
      split
      · exact pends_pure (.tuple tag fits each)
      · exact (keeps_repeated each).bind fun ys each => Value.pends_ofTuple each
  | text tag fits =>
      dsimp only
      split
      · exact pends_pure (.text tag fits)
      · refine (plain_repeated n _).keeps_any.bind fun t _ => ?_
        exact (Value.frees_ofNewText t).pends (Value.plain_ofNewText t)
  | raw tag fits =>
      refine (plain_repeated n _).keeps_any.bind fun t _ => ?_
      exact (Value.frees_ofNewText t).pends (Value.plain_ofNewText t)
  | _ => exact Keeps.breach _

theorem pends_mulPlain (of_a : a.Within w) (of_b : b.Within w) : Pends w (mulPlain a b) := by
  rw [mulPlain]
  split
  · exact pends_repeatValue of_a _
  · split
    · exact pends_repeatValue of_b _
    · exact (frees_mulNumbers a b).pends (plain_mulNumbers a b)

theorem safe_mod (a b : Value) : Eval.Safe w 0 (mod a b) fun w v => v.Within w := by
  unfold mod
  extract_lets divided
  have of_divided (u : Unit) : Eval.Safe w 0 (divided u) fun w v => v.Within w := by
    refine Eval.Safe.keeps_bind (Value.plain_checkWeight b).keeps_any fun _ _ => ?_
    split
    · rename_i template shown
      exact ((frees_fill template b (Value.isFree_of_text shown)).pends
        (plain_fill a template b)).checked
    · exact ((frees_modNumbers a b).pends (plain_modNumbers a b)).checked
  clear_value divided
  split
  · exact Keeps.safe (Keeps.fail_bind _)
  · exact of_divided ()

end Operator

namespace Subscript

theorem mem_of_find? {entries : Entries} {key found : Value}
    (done : entries.find? key = some found) : ∃ e ∈ entries, e.2 = found := by
  obtain ⟨e, of_e, rfl⟩ := Option.map_eq_some_iff.mp done
  exact ⟨e, List.mem_of_find?_eq_some of_e, rfl⟩

theorem keeps_lookUp (r : Ref) (key : Value) : Keeps w (lookUp r key) fun _ v => v.Within w := by
  unfold lookUp
  split
  · exact Keeps.breach_bind _
  · refine (Keeps.entriesOf r).bind fun entries fits => ?_
    split
    · rename_i found
      obtain ⟨e, member, rfl⟩ := mem_of_find? found
      exact Keeps.pure fun _ _ => (fits.each e member).2
    · exact Keeps.throw _

theorem keeps_getItem (of_a : a.Within w) (index : Value) :
    Keeps w (getItem a index) fun _ v => v.Within w := by
  have one : 1 ≤ w.chars := Nat.le_trans (by decide) w.chars_ge
  cases of_a with
  | text tag fits | raw tag fits =>
      refine (Eval.plain_lift _).keeps_any.bind fun c _ => ?_
      exact (Value.plain_ofText [c]).keeps (Value.fits_ofText one)
  | tuple tag fits each =>
      exact Keeps.lift fun v s done => each v (mem_of_itemAt done)
  | list known =>
      refine (Keeps.itemsOf _).bind fun items fits => ?_
      exact Keeps.lift fun v s done => fits.each v (mem_of_itemAt done)
  | dict known => exact keeps_lookUp _ index
  | _ => exact Keeps.breach _

theorem fits_stretchOf (of_a : a.Within w) {t : Text} (shown : a.text? = some t) {span : Span}
    (inside : span.IsInside) : Fits w (stretchOf a t span) := by
  have whole := of_a.of_text? shown
  have part : (span.of t).length ≤ w.chars := (inside.subperm t).length_le.trans whole
  rw [stretchOf]
  split
  · exact Value.fits_exactText of_a whole
  · split
    · exact Value.fits_ofText part
    · exact Value.fits_ofNewText part

-- A slice of a list is a new list, which is not weighed: it has no more items than the old one.
theorem safe_ofSlice {r : Ref} {items : List Value} (fits : w.ListFits r items)
    (known : r ∈ w.lists) {span : Span} (inside : span.IsInside) :
    Eval.Safe w 0 (Value.ofList (span.of items)) fun w v => v.Within w := by
  intro s within
  have taken := inside.subperm items
  have each : AllWithin w (span.of items) := fun v member => fits.each v (taken.subset member)
  have pushed := within.pushList each
  refine ⟨w.withList s.lists.size, w.grows_withList _, pushed.withList ?_ ?_,
    .list (Set.mem_insert _ _)⟩
  · rw [Array.size_push]
    exact Nat.lt_succ_self _
  · simp only [Store.items, Array.getElem?_push_size, Option.getD_some]
    exact (taken.countP_le _).trans (fits.known known)

theorem safe_getSlice (of_a : a.Within w) (slice : Slice) :
    Eval.Safe w 0 (getSlice a slice) fun w v => v.Within w := by
  have spanned (length : Nat) :
      Keeps w (Eval.lift (slice.span length)) fun _ span => span.IsInside :=
    Keeps.lift fun span s done => Slice.span_isInside done
  cases of_a with
  | text tag fits | raw tag fits =>
      refine Eval.Safe.keeps_bind (spanned _) fun span inside => Keeps.safe ?_
      exact (plain_stretchOf _ _ span).keeps
        (fits_stretchOf (by constructor; exact fits) rfl inside)
  | tuple tag fits each =>
      refine Eval.Safe.keeps_bind (spanned _) fun span inside => Keeps.safe ?_
      split
      · exact Keeps.pure fun _ _ => .tuple tag fits each
      · have taken := inside.subperm (α := Value)
        exact (Value.plain_ofTuple _).keeps (Value.fits_ofTuple
          (fun v member => each v ((taken _).subset member)) (((taken _).countP_le _).trans fits))
  | list known =>
      refine Eval.Safe.keeps_bind (Keeps.itemsOf _) fun items fits => ?_
      refine Eval.Safe.keeps_bind (spanned _) fun span inside => ?_
      exact safe_ofSlice fits known inside
  | _ => exact Eval.Safe.throw _

/-- Not longer than a check lets through, or a dict, which is short anyway. -/
def IsShort (w : Limits) : Value → Prop
  | .text _ t | .raw _ t => t.length ≤ maxLength
  | .list r => r ∈ w.short
  | _ => True

theorem entries_bound {r : Ref} {entries : Entries} (fits : w.DictFits r entries)
    (known : r ∈ w.dicts) {part : Value × Value → Value}
    (part_solid : ∀ e, (part e).isSolid = true → Value.isSolidEntry e = true) :
    solids (entries.map part) ≤ maxLength + 1 := by
  rw [solids, List.countP_map]
  refine (List.countP_mono_left fun e _ solid => part_solid e solid).trans (fits.known known)

-- No more solid results than items of which a test holds, if it holds of what gives them.
theorem yields_mapM {f : α → Eval Value} {p : α → Bool} {xs : List α}
    (each : ∀ x ∈ xs, Yields (f x) fun v => v.Within w ∧ (v.isSolid = true → p x = true)) :
    Yields (xs.mapM f) fun vs => AllWithin w vs ∧ solids vs ≤ xs.countP p := by
  induction xs with
  | nil => exact Yields.pure ⟨nofun, Nat.le_refl _⟩
  | cons x rest ih =>
      rw [List.mapM_cons]
      refine (each x List.mem_cons_self).bind fun v ⟨within, test⟩ => ?_
      refine (ih fun y member => each y (List.mem_cons_of_mem x member)).bind fun vs of_vs => ?_
      refine Yields.pure ⟨List.forall_mem_cons.mpr ⟨within, of_vs.1⟩, ?_⟩
      have counted := of_vs.2
      rw [solids] at counted ⊢
      rw [List.countP_cons, List.countP_cons]
      by_cases solid : v.isSolid = true
      · simp only [solid, test solid, if_true]
        omega
      · rw [if_neg solid]
        split <;> omega

theorem keeps_characters (t : Text) :
    Keeps w (t.mapM fun c => Value.ofText [c]) fun _ items =>
      AllWithin w items ∧ solids items ≤ t.length := by
  have one : 1 ≤ w.chars := Nat.le_trans (by decide) w.chars_ge
  have each (c : Char) : Yields (Value.ofText [c])
      fun v => v.Within w ∧ (v.isSolid = true → (fun _ => true) c = true) :=
    fun s v s' ran => ⟨Value.fits_ofText (t := [c]) one s v s' ran, fun _ => rfl⟩
  have counted := yields_mapM fun c (_ : c ∈ t) => each c
  rw [List.countP_true] at counted
  exact (Eval.plain_mapM fun c _ => Value.plain_ofText [c]).keeps counted

theorem keeps_pairs {r : Ref} {entries : Entries} (fits : w.DictFits r entries)
    (known : r ∈ w.dicts) :
    Keeps w (entries.mapM fun e => Value.ofTuple [e.1, e.2]) fun _ items =>
      AllWithin w items ∧ solids items ≤ maxLength + 1 := by
  have each (e : Value × Value) (member : e ∈ entries) : Yields (Value.ofTuple [e.1, e.2])
      fun v => v.Within w ∧ (v.isSolid = true → Value.isSolidEntry e = true) := by
    intro s v s' ran
    have held : AllWithin w [e.1, e.2] := by simpa [AllWithin] using fits.each e member
    have two : 2 ≤ maxLength := by decide
    have few : solids [e.1, e.2] ≤ maxLength := (Value.solids_le_length _).trans two
    refine ⟨Value.fits_ofTuple held few s v s' ran, fun solid => ?_⟩
    obtain ⟨tag, rfl⟩ := Value.yields_ofTuple _ s v s' ran
    simpa [Value.isSolid, Value.anySolid, Value.isSolidEntry] using solid
  refine ((Eval.plain_mapM fun e _ => Value.plain_ofTuple [e.1, e.2]).keeps
    (yields_mapM each)).mono fun s items _ of_items => ⟨of_items.1, ?_⟩
  exact of_items.2.trans (fits.known known)

theorem keeps_iterate (of_v : v.Within w) :
    Keeps w (iterate v) fun _ items =>
      AllWithin w items ∧ (IsShort w v → solids items ≤ maxLength + 1) := by
  cases of_v with
  | text tag fits | raw tag fits =>
      refine (keeps_characters _).mono fun s items _ of_items => ⟨of_items.1, fun short => ?_⟩
      exact of_items.2.trans (Nat.le_succ_of_le short)
  | tuple tag fits each =>
      exact Keeps.pure fun _ _ => ⟨each, fun _ => fits.trans (Nat.le_succ _)⟩
  | list known =>
      exact (Keeps.itemsOf _).mono fun s items _ fits => ⟨fits.each, fits.short⟩
  | dict known =>
      refine (Keeps.entriesOf _).bind fun entries fits => Keeps.pure fun _ _ => ⟨?_, fun _ => ?_⟩
      · exact List.forall_mem_map.mpr fun e member => (fits.each e member).1
      · exact entries_bound fits known fun e solid => by simp [Value.isSolidEntry, solid]
  | view tag kind known =>
      cases kind with
      | keys =>
          refine (Keeps.entriesOf _).bind fun entries fits =>
            Keeps.pure fun _ _ => ⟨?_, fun _ => ?_⟩
          · exact List.forall_mem_map.mpr fun e member => (fits.each e member).1
          · exact entries_bound fits known fun e solid => by simp [Value.isSolidEntry, solid]
      | values =>
          refine (Keeps.entriesOf _).bind fun entries fits =>
            Keeps.pure fun _ _ => ⟨?_, fun _ => ?_⟩
          · exact List.forall_mem_map.mpr fun e member => (fits.each e member).2
          · exact entries_bound fits known fun e solid => by simp [Value.isSolidEntry, solid]
      | items =>
          refine (Keeps.entriesOf _).bind fun entries fits => ?_
          exact (keeps_pairs fits known).mono fun s items _ of_items =>
            ⟨of_items.1, fun _ => of_items.2⟩
  | _ => exact Keeps.breach _

/-- A container and a value that passed the check before one is put into the other. -/
structure Weighed (w : Limits) (a v : Value) : Prop where
  list : ∀ r, a = .list r → r ∈ w.short ∧ IsShort w v
  dict : ∀ r, a = .dict r → r ∈ w.thin

theorem IsShort.grow {k : Nat} {w' : Limits} (short : IsShort w v) (grows : w.Grows k w') :
    IsShort w' v := by
  cases v with
  | list r => exact grows.short short
  | _ => exact short

theorem Weighed.grow {k : Nat} {w' : Limits} (weighed : Weighed w a v) (grows : w.Grows k w') :
    Weighed w' a v where
  list r same := ⟨grows.short (weighed.list r same).1, (weighed.list r same).2.grow grows⟩
  dict r same := grows.thin (weighed.dict r same)

theorem keepsAt_setItem (within : s.Within w) (of_a : a.Within w) {index : Value}
    (of_index : index.Within w) (of_v : v.Within w) (weighed : Weighed w a v) :
    KeepsAt w.settled s (setItem a index v) fun _ _ => True := by
  cases of_a with
  | list known =>
      refine (Keeps.itemsOf _ s within).bind_into (fun _ => Store.Within.settled)
        fun items s' within' fits => ?_
      refine (Eval.plain_lift _).keepsAt_bind within'.settled fun i s'' within'' _ => ?_
      refine Keeps.setItems ?_ s'' within''
      -- All items but the new one were there before.
      have replaced := subperm_set items i v
      have counted := (replaced.countP_le _).trans (solids_cons_le v items)
      have fewer := fits.short (weighed.list _ rfl).1
      refine Limits.ListFits.settled (fun u member => ?_) ?_
      · obtain rfl | old := List.mem_cons.mp (replaced.subset member)
        · exact of_v
        · exact fits.each u old
      · rw [solids, listCap]
        omega
  | @dict r known =>
      have inserted : KeepsAt w.settled s (Eval.entriesOf r >>= fun entries =>
          Eval.setEntries r (entries.insert index v)) fun _ _ => True := by
        refine (Keeps.entriesOf r s within).bind_into (fun _ => Store.Within.settled)
          fun entries s' within' fits => ?_
        exact Keeps.setEntries (fits.insert of_index of_v (weighed.dict _ rfl)) s' within'.settled
      rw [setItem]
      dsimp only
      split
      · exact Keeps.breach_bind _ s within.settled
      · exact inserted
  | _ => exact Keeps.breach _ s within.settled

theorem keepsAt_setSlice (within : s.Within w) (of_a : a.Within w) (slice : Slice)
    (of_v : v.Within w) (weighed : Weighed w a v) :
    KeepsAt w.settled s (setSlice a slice v) fun _ _ => True := by
  cases of_a with
  | list known =>
      refine (Keeps.itemsOf _ s within).bind_into (fun _ => Store.Within.settled)
        fun items s' within' fits => ?_
      refine KeepsAt.bind_into (fun _ => Store.Within.settled)
        ((Eval.plain_lift _).keeps_any s' within') fun span s'' within'' _ => ?_
      refine KeepsAt.bind_into (fun _ => Store.Within.settled)
        (keeps_iterate of_v s'' within'') fun values later of_later of_values => ?_
      refine KeepsAt.bind (Keeps.lift (Q := fun _ ys => withSlice items span values = .ok ys)
        (fun ys _ done => done) later of_later.settled) fun ys last of_last done => ?_
      refine Keeps.setItems ?_ last of_last
      -- What is stored is among the old items and the new ones, and few of either are solid.
      have placed := subperm_withSlice done
      have counted := placed.countP_le Value.isSolid
      rw [List.countP_append] at counted
      have few_old := fits.short (weighed.list _ rfl).1
      have few_new := of_values.2 (weighed.list _ rfl).2
      rw [solids] at few_old few_new
      refine Limits.ListFits.settled (fun u member => ?_) ?_
      · obtain new | old := List.mem_append.mp (placed.subset member)
        · exact of_values.1 u new
        · exact fits.each u old
      · rw [solids, listCap]
        omega
  | _ => exact Keeps.breach _ s within.settled

end Subscript

end Snippet
