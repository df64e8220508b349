import Snippet.Proofs.Eval.Held

/-!
What methods and functions give and leave in the store. A method that adds to a list is called only
if the list and the new item weigh little; all that a call gives is checked at its end.
-/

set_option autoImplicit false

namespace Snippet

open Value (solids solidEntries weight)
open Eval (Keeps KeepsAt Pends Safe SafeAt Plain Yields Frees Fits)

variable {α β : Type} {w : Limits} {s s' : Store} {a b v base : Value} {args : List Value}
  {keywords : Bindings}

namespace Method

/-! ### Texts -/

theorem keeps_ofTexts {pieces : List Text} (short : ∀ t ∈ pieces, t.length ≤ w.chars) :
    Keeps w (pieces.mapM Value.ofText) fun _ items => AllWithin w items :=
  Keeps.mapM fun t member => (Value.plain_ofText t).keeps (Value.fits_ofText (short t member))

theorem keeps_piecesOf (of_base : base.Within w) {pieces : List Text}
    (short : ∀ t ∈ pieces, t.length ≤ w.chars) :
    Keeps w (piecesOf base pieces) fun _ items => AllWithin w items := by
  unfold piecesOf
  split
  · exact Keeps.pure fun _ _ => List.forall_mem_singleton.mpr of_base
  · exact keeps_ofTexts short

theorem keeps_splitAtBlanks (of_base : base.Within w) {t : Text} (fits : t.length ≤ w.chars)
    (limit : Nat) : Keeps w (splitAtBlanks base t limit) fun _ items => AllWithin w items := by
  have short : ∀ piece ∈ Text.words limit t, piece.length ≤ w.chars := fun piece member =>
    (Text.length_le_of_mem_words member).trans fits
  rw [splitAtBlanks]
  split
  · exact keeps_piecesOf of_base short
  · exact keeps_ofTexts short

theorem keeps_splitAt (of_base : base.Within w) {t : Text} (fits : t.length ≤ w.chars) (sep : Text)
    (limit : Nat) : Keeps w (splitAt base t sep limit) fun _ items => AllWithin w items := by
  rw [splitAt]
  split
  · exact Keeps.pure fun _ _ => List.forall_mem_singleton.mpr of_base
  · split
    · exact Keeps.breach _
    · exact keeps_piecesOf of_base fun piece member =>
        (Text.length_le_of_mem_cut member).trans fits

theorem pends_split (of_base : base.Within w) {t : Text} (fits : t.length ≤ w.chars)
    (args : List Value) (keywords : Bindings) : Pends w (split base t args keywords) := by
  refine (plain_splitArguments args keywords).keeps_any.bind fun p _ => ?_
  obtain ⟨sep, limit⟩ := p
  dsimp only
  have words {n : Int} : Pends w (splitAtBlanks base t (limitOf t n) >>= Value.ofList) :=
    (keeps_splitAtBlanks of_base fits _).bind fun items each => Keeps.ofList each
  have parts {n : Int} {sep : Value} : Pends w
      (textOf sep >>= fun sep => splitAt base t sep (limitOf t n) >>= Value.ofList) := by
    refine (plain_textOf sep).keeps_any.bind fun sep _ => ?_
    exact (keeps_splitAt of_base fits sep _).bind fun items each => Keeps.ofList each
  split
  · split <;> first | exact words | exact parts
  · refine (plain_wordOf _).keeps_any.bind fun limit _ => ?_
    split <;> first | exact words | exact parts

theorem pends_callText (of_base : base.Within w) {t : Text} (shown : base.text? = some t)
    (m : TextMethod) (args : List Value) (keywords : Bindings) :
    Pends w (callText base t m args keywords) := by
  have free := Value.isFree_of_text shown
  cases m with
  | upper | lower | title | capitalize =>
      exact (frees_changed args _).pends (plain_changed args _)
  | strip | lstrip | rstrip =>
      exact (frees_strip t _ args free).pends (plain_strip base t _ args)
  | replace => exact (frees_replace t args free).pends (plain_replace base t args)
  | split => exact pends_split of_base (of_base.of_text? shown) args keywords
  | join => exact (frees_join t args).pends (plain_join t args)
  | startswith | endswith => exact (frees_matchesEnd _ t args).pends (plain_matchesEnd _ t args)
  | count | find => exact (frees_search _ _ t args).pends (plain_search _ _ t args)
  | isdigit | isalpha => exact (frees_allOf args _ t).pends (plain_allOf args _ t)

/-! ### Lists -/

-- Leaving items out or changing their order keeps a list within its limit.
theorem pends_setItems {r : Ref} {items fewer : List Value} (fits : w.ListFits r items)
    (taken : fewer.Subperm items) (of_v : v.Within w) :
    Pends w (Eval.setItems r fewer >>= fun _ => pure v) :=
  (Keeps.setItems (fits.of_subperm taken)).bind fun _ _ => Value.pends_pure of_v

theorem pends_pop (r : Ref) (args : List Value) : Pends w (pop r args) := by
  unfold pop
  extract_lets at_
  have behind (i : Int) : Pends w (at_ i) := by
    refine (Keeps.itemsOf r).bind fun items fits => ?_
    extract_lets i taken
    have of_taken (u : Unit) : Pends w (taken u) := by
      dsimp only [taken]
      split
      · exact Keeps.breach _
      · rename_i found
        exact pends_setItems fits (List.eraseIdx_sublist _ _).subperm
          (fits.each _ (List.mem_of_getElem? found))
    clear_value taken
    split
    · exact Keeps.breach_bind _
    · exact of_taken ()
  clear_value at_
  split
  · exact behind _
  · exact (plain_wordOf _).keeps_any.bind fun i _ => behind i
  · exact Keeps.breach_bind _

theorem pends_remove (r : Ref) (args : List Value) : Pends w (remove r args) := by
  unfold remove
  split
  · refine (Keeps.itemsOf r).bind fun items fits => ?_
    refine Eval.plain_get.keeps_any.bind fun s _ => ?_
    refine (Eval.plain_lift _).keeps_any.bind fun found? _ => ?_
    split
    · exact pends_setItems fits (List.eraseIdx_sublist _ _).subperm .none
    · exact Keeps.breach _
  · exact Keeps.breach _

theorem keepsAt_add (within : s.Within w) {r : Ref} (light : solids (s.items r) ≤ maxLength)
    (of_v : v.Within w) {more : List Value} (added : more.Perm (v :: s.items r)) :
    KeepsAt w s (Eval.setItems r more >>= fun _ => pure Value.none) fun s v =>
      v.Pending w s := by
  have fits := Limits.ListFits.add (r := r) (within.lists r).each light of_v added
  exact (Keeps.setItems fits).bind (fun _ _ => Value.pends_pure .none) s within

theorem keepsAt_insert (within : s.Within w) {r : Ref} (light : solids (s.items r) ≤ maxLength)
    (each : AllWithin w args) : KeepsAt w s (insert r args) fun s v => v.Pending w s := by
  unfold insert
  split
  · rename_i i x
    refine (plain_wordOf i).keepsAt_bind within fun i s' within' same => ?_
    have items : s'.items r = s.items r := by rw [Store.items, Store.items, same.1]
    rw [← items] at light
    refine KeepsAt.itemsOf_bind ?_
    refine keepsAt_add within' light (each x (by simp)) (List.perm_insertIdx _ _ ?_)
    rw [Subscript.clampTo]
    omega
  · exact Keeps.breach _ s within

theorem keeps_sortItems (items : List Value) (reversed : Bool) :
    Keeps w (sortItems items reversed) fun _ ys => ys.Perm items := by
  refine Eval.plain_get.keeps_any.bind fun s _ => ?_
  exact Keeps.lift fun ys s done => Sorting.sort_perm done

theorem keeps_sortInPlace {r : Ref} {items : List Value} (fits : w.ListFits r items)
    (reversed : Bool) : Keeps w (sortInPlace r items reversed) fun _ _ => True := by
  have emptied : w.ListFits r [] := fits.of_subperm (List.nil_sublist _).subperm
  refine (Keeps.setItems emptied).bind fun _ _ => Keeps.tryCatch ?_ fun fault => ?_
  · exact (keeps_sortItems items reversed).bind fun ys same => Keeps.setItems (fits.of_perm same)
  · exact (Keeps.setItems fits).bind fun _ _ => Keeps.throw _

theorem keepsAt_callList (within : s.Within w) {r : Ref} (m : ListMethod)
    (light : m = .append ∨ m = .insert → solids (s.items r) ≤ maxLength)
    (each : AllWithin w args) (keywords : Bindings) :
    KeepsAt w s (callList r m args keywords) fun s v => v.Pending w s := by
  have fits := within.lists r
  refine KeepsAt.itemsOf_bind ?_
  cases m with
  | append =>
      dsimp only
      split
      · rename_i x
        exact keepsAt_add within (light (.inl rfl)) (each x (by simp))
          (List.perm_append_singleton x _)
      · exact Keeps.breach _ s within
  | pop => exact pends_pop r args s within
  | insert => exact keepsAt_insert within (light (.inr rfl)) each
  | remove => exact pends_remove r args s within
  | count => exact (frees_countOf _ args).pends (plain_countOf _ args) s within
  | index => exact (frees_indexOf _ args).pends (plain_indexOf _ args) s within
  | sort =>
      refine (plain_noArguments args).keeps_any.bind (fun _ _ => ?_) s within
      refine (plain_reverseFlag keywords).keeps_any.bind fun reversed _ => ?_
      exact (keeps_sortInPlace fits reversed).bind fun _ _ => Value.pends_pure .none
  | reverse =>
      refine (plain_noArguments args).keeps_any.bind (fun _ _ => ?_) s within
      exact pends_setItems fits (List.reverse_perm _).subperm .none
  | copy =>
      refine (plain_noArguments args).keeps_any.bind (fun _ _ => ?_) s within
      exact Keeps.ofList fits.each

/-! ### Dicts -/

theorem keeps_keyArguments (each : AllWithin w args) :
    Keeps w (keyArguments args) fun _ p => ∀ v ∈ p.2, v.Within w := by
  unfold keyArguments
  split
  · exact Keeps.pure fun _ _ => nofun
  · refine Keeps.pure fun _ _ v same => ?_
    cases same
    exact each _ (by simp)
  · exact Keeps.breach _

theorem pends_dictGet (r : Ref) (each : AllWithin w args) : Pends w (dictGet r args) := by
  refine (keeps_keyArguments each).bind fun ⟨key, fallback⟩ of_fallback => ?_
  have found : Pends w (Eval.entriesOf r >>= fun entries =>
      pure ((entries.find? key).getD (fallback.getD .none))) := by
    refine (Keeps.entriesOf r).bind fun entries fits => Value.pends_pure ?_
    cases found : entries.find? key with
    | some v =>
        obtain ⟨e, member, rfl⟩ := Subscript.mem_of_find? found
        exact (fits.each e member).2
    | none =>
        cases fallback with
        | some v => exact of_fallback v rfl
        | none => exact .none
  dsimp only
  split
  · exact Keeps.breach_bind _
  · exact found

theorem DictFits.erase {r : Ref} {entries : Entries} (fits : w.DictFits r entries) (key : Value) :
    w.DictFits r (entries.erase key) := by
  have fewer (entries : Entries) : (entries.erase key).Sublist entries := by
    fun_induction Entries.erase entries key <;> grind
  exact fits.of_le (fun e member => fits.each e ((fewer entries).subset member))
    ((fewer entries).countP_le)

theorem pends_dictPop (r : Ref) (each : AllWithin w args) : Pends w (dictPop r args) := by
  refine (keeps_keyArguments each).bind fun ⟨key, fallback⟩ of_fallback => ?_
  refine (Keeps.entriesOf r).bind fun entries fits => ?_
  extract_lets taken
  have of_taken (u : Unit) : Pends w (taken u) := by
    dsimp only [taken]
    split
    · rename_i found
      split at found
      · cases found
      · obtain ⟨e, member, rfl⟩ := Subscript.mem_of_find? found
        exact (Keeps.setEntries (DictFits.erase fits key)).bind fun _ _ =>
          Value.pends_pure (fits.each e member).2
    · split
      · exact Value.pends_pure (of_fallback _ rfl)
      · exact Keeps.throw _
  clear_value taken
  split
  · exact Keeps.breach_bind _
  · exact of_taken ()

theorem pends_view {r : Ref} (known : r ∈ w.dicts) (kind : ViewKind) (args : List Value) :
    Pends w (view r kind args) := by
  refine (plain_noArguments args).keeps_any.bind fun _ _ => ?_
  refine Eval.plain_newTag.keeps_any.bind fun tag _ => ?_
  exact Value.pends_pure (.view tag kind known)

theorem pends_callDict {r : Ref} (known : r ∈ w.dicts) (m : DictMethod)
    (each : AllWithin w args) : Pends w (callDict r m args) := by
  cases m with
  | get => exact pends_dictGet r each
  | pop => exact pends_dictPop r each
  | keys | values | items => exact pends_view known _ args

/-! ### Any receiver -/

-- The estimate of a method that adds to a list weighs the list.
theorem solids_le_of_estimate {r : Ref} {m : ListMethod} (adds : m = .append ∨ m = .insert)
    (fits : estimate s (.list r) (.ofList r m) args ≤ maxLength) :
    solids (s.items r) ≤ maxLength := by
  have light : weight s maxLength (.list r) ≤ maxLength := by
    obtain rfl | rfl := adds <;> exact (Nat.le_add_right _ _).trans fits
  exact (Value.solids_le_weight (v := .list r) rfl light).trans light

theorem keepsAt_run {name : Text} {method : BoundMethod} (within : s.Within w)
    (of_base : base.Within w) (bound : bind? base name = some method)
    (fits : estimate s base method args ≤ maxLength) (each : AllWithin w args)
    (keywords : Bindings) :
    KeepsAt w s (run base method args keywords) fun s v => v.Pending w s := by
  cases of_base with
  | text tag short =>
      obtain ⟨m, -, rfl⟩ := Option.map_eq_some_iff.mp bound
      exact pends_callText (.text tag short) rfl m args keywords s within
  | raw tag short =>
      obtain ⟨m, -, rfl⟩ := Option.map_eq_some_iff.mp bound
      exact pends_callText (.raw tag short) rfl m args keywords s within
  | tuple tag few items =>
      obtain ⟨m, -, rfl⟩ := Option.map_eq_some_iff.mp bound
      cases m with
      | count => exact (frees_countOf _ args).pends (plain_countOf _ args) s within
      | index => exact (frees_indexOf _ args).pends (plain_indexOf _ args) s within
  | list known =>
      obtain ⟨m, -, rfl⟩ := Option.map_eq_some_iff.mp bound
      exact keepsAt_callList within m (fun adds => solids_le_of_estimate adds fits) each keywords
  | dict known =>
      obtain ⟨m, -, rfl⟩ := Option.map_eq_some_iff.mp bound
      exact pends_callDict known m each s within
  | _ => cases bound

theorem safe_call (of_base : base.Within w) (name : Text) (each : AllWithin w args)
    (keywords : Bindings) :
    Safe w 0 (call base name args keywords) fun w v => v.Within w := by
  unfold call
  split
  · exact Safe.throw _
  · rename_i method bound
    split
    · exact Safe.throw _
    · refine Safe.keeps_bind
        (Eval.plain_forM fun v => Value.plain_checkWeight v).keeps_any fun _ _ => ?_
      intro s within
      show SafeAt w 0 s (if estimate s base method args > maxLength then _ else _) _
      split
      · exact Keeps.safe (Keeps.fail_bind _) s within
      · rename_i fits
        exact (keepsAt_run within of_base bound (Nat.le_of_not_gt fits) each keywords).checked

end Method

namespace Builtin

open Subscript (keeps_iterate)

theorem mem_of_bestOf {op : OrderOp} {best found : Value} {rest : List Value}
    (done : bestOf op s best rest = .ok found) : found ∈ best :: rest := by
  induction rest generalizing best with
  | nil =>
      cases done
      exact List.mem_singleton_self _
  | cons v rest ih =>
      obtain ⟨beaten, -, done⟩ := bind_eq_ok.mp done
      split at done
      · exact List.mem_cons_of_mem _ (ih done)
      · obtain rfl | later := List.mem_cons.mp (ih done)
        · exact List.mem_cons_self
        · exact List.mem_cons_of_mem _ (List.mem_cons_of_mem _ later)

theorem pends_extreme (op : OrderOp) (each : AllWithin w args) (keywords : Bindings) :
    Pends w (extreme op args keywords) := by
  have best {first : Value} {rest : List Value} (of_items : AllWithin w (first :: rest)) :
      Pends w (get >>= fun s => Eval.lift (bestOf op s first rest)) := by
    refine Eval.plain_get.keeps_any.bind fun s _ => ?_
    refine (Keeps.lift (Q := fun _ v => v.Within w) fun v s' done => ?_).mono
      fun _ _ within of_v => of_v.pending within
    exact of_items v (mem_of_bestOf done)
  unfold extreme
  split
  · refine (keeps_iterate (each _ (by simp))).bind fun items of_items => ?_
    cases items with
    | nil => exact Keeps.breach _
    | cons first rest => exact best of_items.1
  · refine Keeps.bind (P := fun items => AllWithin w items) (Keeps.pure fun _ _ => each)
      fun items of_items => ?_
    cases items with
    | nil => exact Keeps.breach _
    | cons first rest => exact best of_items

theorem pends_emptySum (of_v : v.Within w) : Pends w (emptySum v) := by
  cases of_v with
  | int tag fits =>
      dsimp only [emptySum]
      split
      · exact (Value.frees_ofInt _).pends (Value.plain_ofInt _)
      · exact Value.pends_pure (.int tag fits)
  | float tag x => exact (Value.frees_ofFloat x).pends (Value.plain_ofFloat x)
  | none => exact Value.pends_pure .none
  | bool b => exact Value.pends_pure (.bool b)
  | complex tag z => exact Value.pends_pure (.complex tag z)
  | text tag fits => exact Value.pends_pure (.text tag fits)
  | raw tag fits => exact Value.pends_pure (.raw tag fits)
  | tuple tag fits each => exact Value.pends_pure (.tuple tag fits each)
  | list known => exact Value.pends_pure (.list known)
  | dict known => exact Value.pends_pure (.dict known)
  | view tag kind known => exact Value.pends_pure (.view tag kind known)
  | builtin known => exact Value.pends_pure (.builtin known)

-- The total so far is not checked, and is held by no other value.
theorem keepsAt_foldlM {items : List Value} (each : AllWithin w items) (within : s.Within w)
    (pending : a.Pending w s) :
    KeepsAt w s (items.foldlM Operator.addPlain a) fun s v => v.Pending w s := by
  induction items generalizing a s with
  | nil => exact ⟨within, pending⟩
  | cons v rest ih =>
      obtain ⟨of_v, of_rest⟩ := List.forall_mem_cons.mp each
      rw [List.foldlM_cons]
      exact (Operator.keepsAt_addPlain within pending (of_v.pending within)).bind
        fun total s' within' pending' => ih of_rest within' pending'

theorem pends_sumFrom {items : List Value} (of_v : v.Within w) (each : AllWithin w items) :
    Pends w (sumFrom v items) := by
  unfold sumFrom
  split
  · exact pends_emptySum of_v
  · refine Keeps.bind (P := fun parts : List (List Value) => ∀ part ∈ parts, AllWithin w part)
      (Keeps.mapM fun x member => ?_) fun parts of_parts => ?_
    · split
      · exact (Keeps.itemsOf _).mono fun _ _ _ fits => fits.each
      · exact Keeps.breach _
    · refine (Keeps.itemsOf _).bind fun first fits => Keeps.ofList ?_
      refine List.forall_mem_append.mpr ⟨fits.each, fun x member => ?_⟩
      obtain ⟨part, of_part, member⟩ := List.mem_flatten.mp member
      exact of_parts part of_part x member
  · exact fun s within => keepsAt_foldlM each within (of_v.pending within)

theorem pends_sum (each : AllWithin w args) (keywords : Bindings) :
    Pends w (sum args keywords) := by
  have zero : bitLength 0 ≤ w.bits := Nat.zero_le _
  unfold sum
  split
  · refine ((Value.plain_ofInt 0).keeps (Value.fits_ofInt zero)).bind fun start of_start => ?_
    exact (keeps_iterate (each _ (by simp))).bind fun items of_items =>
      pends_sumFrom of_start of_items.1
  · split
    · exact Keeps.fail _
    · exact (keeps_iterate (each _ (by simp))).bind fun items of_items =>
        pends_sumFrom (each _ (by simp)) of_items.1
  · exact Keeps.breach _

theorem pends_sorted (each : AllWithin w args) (keywords : Bindings) :
    Pends w (sorted args keywords) := by
  unfold sorted
  split
  · refine Eval.plain_get.keeps_any.bind fun s _ => ?_
    refine (keeps_iterate (each _ (by simp))).bind fun items of_items => ?_
    exact (Method.keeps_sortItems items _).bind fun ys same =>
      Keeps.ofList fun v member => of_items.1 v (same.subset member)
  · exact Keeps.breach _

theorem pends_toList (each : AllWithin w args) (keywords : Bindings) :
    Pends w (toList args keywords) := by
  unfold toList
  split
  · exact (keeps_iterate (each _ (by simp))).bind fun items of_items => Keeps.ofList of_items.1
  · exact Keeps.ofList nofun

/-- Gives what is within the limits once it is checked, if it is given what is within them. -/
def IsSized (b : Builtin) : Prop :=
  ∀ w args keywords, AllWithin w args → Pends w (b.run args keywords)

theorem isSized_of_frees {b : Builtin} (free : ∀ args keywords, Frees (b.run args keywords))
    (plain : ∀ args keywords, Plain (b.run args keywords)) : b.IsSized :=
  fun _ args keywords _ => (free args keywords).pends (plain args keywords)

theorem core_isSized : ∀ b ∈ core, b.IsSized := by
  simp only [core, List.forall_mem_cons, entry]
  refine ⟨isSized_of_frees frees_length plain_length, isSized_of_frees frees_toText plain_toText,
    isSized_of_frees frees_toInt plain_toInt, isSized_of_frees frees_toFloat plain_toFloat,
    isSized_of_frees frees_toBool plain_toBool, isSized_of_frees frees_absolute plain_absolute,
    fun w args keywords each => pends_extreme .gt each keywords,
    fun w args keywords each => pends_extreme .lt each keywords,
    fun w args keywords each => pends_sum each keywords,
    isSized_of_frees frees_round plain_round,
    fun w args keywords each => pends_sorted each keywords,
    fun w args keywords each => pends_toList each keywords, nofun⟩

theorem keeps_settle (fault : Fault) {Q : Store → α → Prop} :
    Keeps w (settle fault : Eval α) Q := by
  cases fault with
  | cause c => exact Keeps.fail c
  | breach b => exact Keeps.fail _
  | missingKey key =>
      refine Eval.plain_get.keeps_any.bind fun s _ => ?_
      exact (Eval.plain_lift _).keeps_any.bind fun t _ => Keeps.fail _

theorem pends_invoke {b : Builtin} (sized : b.IsSized) (each : AllWithin w args)
    (keywords : Bindings) : Pends w (b.invoke args keywords) := by
  refine (plain_checkArguments b _ keywords).keeps_any.bind fun _ _ => ?_
  refine (Eval.plain_forM fun v => Value.plain_checkWeight v).keeps_any.bind fun _ _ => ?_
  refine (Eval.plain_forM fun k => Value.plain_checkWeight _).keeps_any.bind fun _ _ => ?_
  exact Keeps.tryCatch (sized w args keywords each) fun fault => keeps_settle fault

end Builtin

end Snippet
