import Snippet.Proofs.Eval.Assigned
import Snippet.Proofs.Eval.Put
import Snippet.Proofs.Run.ReadOnly

/-!
Storing a value at a subscript. The container is changed in one step behind everything that may
fail, so that a failure leaves all lists and dicts as they were and a success changes one of them.
-/

set_option autoImplicit false

namespace Snippet

open Value (weight)
open Subscript (ItemPut EntryPut SlicePut)

variable {α β : Type} {s s' after : Store} {env : Env} {container value key : Value} {t : Text}

/-- Leaves the lists and dicts that exist as they were, if it fails. -/
def FailsUnchanged {ε : Type} (m : EStateM ε Store α) : Prop :=
  ∀ s fault s', m s = .error fault s' → s.Extends s'

namespace FailsUnchanged

variable {m : Eval α} {next : α → Eval β}

theorem of_extending (h : Extending m) : FailsUnchanged m :=
  fun _ _ _ => h.error

theorem throw (fault : Fault) : FailsUnchanged (throw fault : Eval α) :=
  of_extending (.throw fault)

theorem setItems (r : Ref) (items : List Value) : FailsUnchanged (Eval.setItems r items) :=
  fun _ _ _ => nofun

theorem bind (first : Extending m) (then_ : ∀ a, FailsUnchanged (next a)) :
    FailsUnchanged (m >>= next) := by
  intro s fault s' failed
  rw [bind_eq] at failed
  cases done : m s with
  | ok a between =>
      rw [done] at failed
      exact (first.ok done).trans (then_ a between fault s' failed)
  | error other between =>
      rw [done] at failed
      cases failed
      exact first.error done

theorem plain_bind (first : Eval.Plain m) (then_ : ∀ a, FailsUnchanged (next a)) :
    FailsUnchanged (m >>= next) :=
  bind first.extending then_

theorem guarded (h : FailsUnchanged m) : FailsUnchanged (Session.guarded m) := by
  intro s stop s' failed
  unfold Session.guarded at failed
  cases done : m s with
  | ok a between =>
      rw [done] at failed
      cases failed
  | error fault after =>
      rw [done] at failed
      cases failed
      exact h s fault _ done

end FailsUnchanged

/-- All lists and dicts but one container are in another store with the same contents. -/
structure Store.ExtendsBut (container : Value) (s s' : Store) : Prop where
  lists : ∀ r, r < s.lists.size → container ≠ .list r → s'.lists[r]? = s.lists[r]?
  dicts : ∀ r, r < s.dicts.size → container ≠ .dict r → s'.dicts[r]? = s.dicts[r]?

namespace Store.Extends

theorem setItems (h : s.Extends s') (r : Ref) (items : List Value) :
    s.ExtendsBut (.list r) (s'.setItems r items) where
  lists q inside other := by
    rw [← h.lists q inside]
    exact Array.getElem?_setIfInBounds_ne fun same => other (congrArg Value.list same)
  dicts q inside _ := h.dicts q inside

theorem setEntries (h : s.Extends s') (r : Ref) (entries : Entries) :
    s.ExtendsBut (.dict r) (s'.setEntries r entries) where
  lists q inside _ := h.lists q inside
  dicts q inside other := by
    rw [← h.dicts q inside]
    exact Array.getElem?_setIfInBounds_ne fun same => other (congrArg Value.dict same)

end Store.Extends

namespace Subscript

/-- A place in a container. -/
inductive Place where
  | item (key : Value)
  | slice (slice : Slice)

/-- Change what is at a place. -/
def put (container value : Value) : Place → Eval Unit
  | .item key => setItem container key value
  | .slice bounds => setSlice container bounds value

/-- A value is put into a list or a dict of the first store, which leaves the second one. -/
inductive Put (value : Value) : Value → Place → Store → Store → Prop where
  | item {s : Store} {r : Ref} {key : Value} {ys : List Value}
      (put : ItemPut value (s.items r) key ys) :
      Put value (.list r) (.item key) s (s.setItems r ys)
  | entry {s : Store} {r : Ref} {key : Value} {entries : Entries} (hashable : key.isHashable = true)
      (put : EntryPut key value (s.entries r) entries) :
      Put value (.dict r) (.item key) s (s.setEntries r entries)
  | slice {s after : Store} {r : Ref} {slice : Slice} {values ys : List Value}
      (given : iterate value s = .ok values after) (put : SlicePut slice (s.items r) values ys) :
      Put value (.list r) (.slice slice) s (after.setItems r ys)

theorem lift_eq_ok {r : Except Breach α} {a : α} :
    Eval.lift r s = .ok a s' ↔ r = .ok a ∧ s' = s := by
  cases r with
  | ok b =>
      constructor
      · rintro ⟨⟩
        exact ⟨rfl, rfl⟩
      · rintro ⟨⟨⟩, rfl⟩
        rfl
  | error b => exact ⟨nofun, nofun⟩

theorem setItem_list (r : Ref) (key value : Value) (s : Store) :
    setItem (.list r) key value s =
      match position (s.items r).length key with
      | .ok i => .ok () (s.setItems r ((s.items r).set i value))
      | .error b => .error (.breach b) s := by
  show (Eval.lift (position (s.items r).length key) >>= fun i => _) s = _
  rw [bind_eq]
  cases position (s.items r).length key <;> rfl

theorem setItem_dict (r : Ref) (key value : Value) (s : Store) :
    setItem (.dict r) key value s =
      if key.isHashable = true then .ok () (s.setEntries r ((s.entries r).insert key value))
      else .error (.breach .type) s := by
  unfold setItem
  cases key.isHashable <;> rfl

theorem setItem_eq_ok : setItem container key value s = .ok () s' ↔
    Put value container (.item key) s s' := by
  constructor
  · intro done
    cases container with
    | list r =>
        rw [setItem_list] at done
        split at done
        · rename_i i named
          cases done
          exact .item (itemPut_iff.mpr ⟨i, named, rfl⟩)
        · cases done
    | dict r =>
        rw [setItem_dict] at done
        split at done
        · rename_i hashable
          cases done
          exact .entry hashable (entryPut_insert _ _ _)
        · cases done
    | _ => cases done
  · rintro (put | ⟨hashable, put⟩)
    · obtain ⟨i, named, rfl⟩ := itemPut_iff.mp put
      rw [setItem_list, named]
    · rw [setItem_dict, if_pos hashable, put.insert_eq]

theorem setSlice_eq_ok {slice : Slice} : setSlice container slice value s = .ok () s' ↔
    Put value container (.slice slice) s s' := by
  constructor
  · intro done
    cases container with
    | list r =>
        obtain ⟨items, _, ⟨⟩, done⟩ := run_bind_eq_ok.mp done
        obtain ⟨span, _, measured, done⟩ := run_bind_eq_ok.mp done
        obtain ⟨of_span, rfl⟩ := lift_eq_ok.mp measured
        obtain ⟨values, after, given, done⟩ := run_bind_eq_ok.mp done
        obtain ⟨ys, _, changed, written⟩ := run_bind_eq_ok.mp done
        obtain ⟨of_ys, rfl⟩ := lift_eq_ok.mp changed
        cases written
        exact .slice given (slicePut_iff.mpr ⟨span, of_span, of_ys⟩)
    | _ => cases done
  · intro change
    cases change with
    | slice given put =>
    obtain ⟨span, of_span, of_ys⟩ := slicePut_iff.mp put
    refine run_bind_eq_ok.mpr ⟨_, s, rfl, ?_⟩
    refine run_bind_eq_ok.mpr ⟨span, s, lift_eq_ok.mpr ⟨of_span, rfl⟩, ?_⟩
    refine run_bind_eq_ok.mpr ⟨_, _, given, ?_⟩
    exact run_bind_eq_ok.mpr ⟨_, _, lift_eq_ok.mpr ⟨of_ys, rfl⟩, rfl⟩

theorem put_eq_ok {place : Place} : put container value place s = .ok () s' ↔
    Put value container place s s' := by
  cases place with
  | item key => exact setItem_eq_ok
  | slice bounds => exact setSlice_eq_ok

theorem failsUnchanged_put (container value : Value) (place : Place) :
    FailsUnchanged (put container value place) := by
  cases place with
  | item key =>
      show FailsUnchanged (setItem container key value)
      cases container with
      | list r =>
          refine .plain_bind (Eval.plain_itemsOf r) fun items => ?_
          exact .plain_bind (Eval.plain_lift _) fun i => .setItems r _
      | dict r =>
          intro s fault s' failed
          rw [setItem_dict] at failed
          split at failed
          · cases failed
          · cases failed
            exact .refl s
      | _ => exact .throw _
  | slice bounds =>
      show FailsUnchanged (setSlice container bounds value)
      cases container with
      | list r =>
          refine .plain_bind (Eval.plain_itemsOf r) fun items => ?_
          refine .plain_bind (Eval.plain_lift _) fun span => ?_
          refine .plain_bind (plain_iterate value) fun values => ?_
          exact .plain_bind (Eval.plain_lift _) fun ys => .setItems r ys
      | _ => exact .throw _

theorem Put.stored {place : Place} (put : Put value container place s s') :
    ∃ r, container = .list r ∨ container = .dict r := by
  cases put with
  | item put => exact ⟨_, .inl rfl⟩
  | entry hashable put => exact ⟨_, .inr rfl⟩
  | slice given put => exact ⟨_, .inl rfl⟩

theorem Put.extendsBut {first : Store} {place : Place} (put : Put value container place s s')
    (h : first.Extends s) : first.ExtendsBut container s' := by
  cases put with
  | item put => exact h.setItems _ _
  | entry hashable put => exact h.setEntries _ _
  | slice given put => exact (h.trans (.of_sameData ((plain_iterate value).ok given))).setItems _ _

theorem items_setItems {r : Ref} (inside : r < s.lists.size) (items : List Value) :
    (s.setItems r items).items r = items := by
  rw [Store.items, Store.setItems, Array.getElem?_setIfInBounds_self_of_lt inside, Option.getD_some]

theorem entries_setEntries {r : Ref} (inside : r < s.dicts.size) (entries : Entries) :
    (s.setEntries r entries).entries r = entries := by
  rw [Store.entries, Store.setEntries, Array.getElem?_setIfInBounds_self_of_lt inside,
    Option.getD_some]

theorem lookUp_of_find? {r : Ref} (hashable : key.isHashable = true)
    (found : (s.entries r).find? key = some value) : lookUp r key s = .ok value s := by
  simp only [lookUp, hashable, Bool.not_true, Bool.false_eq_true, if_false]
  refine run_bind_eq_ok.mpr ⟨s.entries r, s, rfl, ?_⟩
  rw [found]
  rfl

-- What was put at an index or under a key is read there.
theorem Put.getItem (put : Put value container (.item key) s s')
    (inside : ∀ r, container = .dict r → r < s.dicts.size) :
    getItem container key s' = .ok value s' := by
  cases put with
  | @item _ r _ ys put =>
      obtain ⟨i, named, rfl⟩ := itemPut_iff.mp put
      obtain ⟨-, -, below, -⟩ := position_eq_ok.mp named
      have filled : r < s.lists.size := by
        by_contra missing
        simp [Store.items, Array.getElem?_eq_none (Nat.le_of_not_lt missing)] at below
      have read : itemAt ((s.items r).set i value) key = .ok value := by
        refine bind_eq_ok.mpr ⟨i, by rwa [List.length_set], ?_⟩
        rw [List.getElem?_set_self below]
        rfl
      show Eval.lift (itemAt ((s.setItems r _).items r) key) _ = _
      rw [items_setItems filled]
      exact lift_eq_ok.mpr ⟨read, rfl⟩
  | @entry _ r _ entries hashable put =>
      refine lookUp_of_find? hashable ?_
      rw [entries_setEntries (inside r rfl), put.find?]

end Subscript

namespace Evaluate

open Subscript (Place Put)

/-- The place that a subscript names. -/
def placeOf (env : Env) : Snippet.Subscript → Eval Place
  | .item e => do return .item (← eval env e)
  | .slice _ lower upper step => do return .slice (← slice (eval env) lower upper step)

/-- A list or a dict must have room for the value. -/
def checkRoom (container value : Value) : Eval Unit := do
  match container with
  | .list _ | .dict _ =>
      let s ← get
      if weight s maxLength container + weight s maxLength value > maxLength then
        Eval.fail .resultTooLarge
  | _ => pure ()

theorem place_eq (env : Env) (container : Value) (sub : Snippet.Subscript) (value : Value) :
    place env container sub value = placeOf env sub >>= Subscript.put container value := by
  cases sub <;> simp only [place, placeOf, bind_assoc, pure_bind, Subscript.put]

theorem assignItem_index {column : Nat} {base : Expr} {sub : Snippet.Subscript}
    (read : Expr.read t = .ok (.index column base sub)) :
    assignItem env t value = (do
      let container ← eval env base
      checkRoom container value
      place env container sub value) := by
  unfold assignItem
  rw [read]
  refine congrArg (eval env base >>= ·) (funext fun container => ?_)
  have checked (heavy : Store → Prop) [DecidablePred heavy] (next : Eval Unit) :
      (do
        let s ← get
        if heavy s then Eval.fail .resultTooLarge
        next) =
      (do
        let s ← get
        if heavy s then Eval.fail .resultTooLarge) >>= fun _ => next := by
    funext s
    show (if heavy s then Eval.fail .resultTooLarge >>= fun _ => next else next) s =
      ((if heavy s then Eval.fail .resultTooLarge else pure ()) >>= fun _ => next) s
    split <;> rfl
  cases container with
  | list r => exact checked _ _
  | dict r => exact checked _ _
  | _ => rfl

theorem plain_checkRoom (container value : Value) : (checkRoom container value).Plain := by
  unfold checkRoom
  split <;> grind

theorem checkRoom_eq_ok (stored : ∃ r, container = .list r ∨ container = .dict r) :
    checkRoom container value s = .ok () s' ↔
      s' = s ∧ weight s maxLength container + weight s maxLength value ≤ maxLength := by
  have weighed : checkRoom container value s =
      if weight s maxLength container + weight s maxLength value > maxLength then
        .error (.cause .resultTooLarge) s
      else .ok () s := by
    obtain ⟨r, rfl | rfl⟩ := stored <;>
    · show (if _ then _ else _ : Eval Unit) s = _
      split <;> rfl
  rw [weighed]
  split
  · exact ⟨nofun, fun ⟨_, light⟩ => by omega⟩
  · rename_i light
    constructor
    · rintro ⟨⟩
      exact ⟨rfl, Nat.le_of_not_lt light⟩
    · rintro ⟨rfl, -⟩
      rfl

/-- The target of an assignment, evaluated: a container that has room for the value, a place in it,
and the store that is left. -/
inductive Targets (env : Env) (t : Text) (value : Value) (s : Store) :
    Value → Place → Store → Prop where
  | intro {column : Nat} {base : Expr} {sub : Snippet.Subscript} {container : Value} {place : Place}
      {before after : Store} (read : Expr.read t = .ok (.index column base sub))
      (of_base : eval env base s = .ok container before)
      (room : weight before maxLength container + weight before maxLength value ≤ maxLength)
      (of_sub : placeOf env sub before = .ok place after) :
      Targets env t value s container place after

theorem assignItem_eq_ok : assignItem env t value s = .ok () s' ↔
    ∃ container place after, Targets env t value s container place after ∧
      Put value container place after s' := by
  constructor
  · intro done
    -- A target that is no subscript is refused, so what was stored was stored in one.
    obtain ⟨column, base, sub, read⟩ :
        ∃ column base sub, Expr.read t = .ok (.index column base sub) := by
      unfold assignItem at done
      cases read : Expr.read t with
      | error e =>
          rw [read] at done
          cases e <;> cases done
      | ok e =>
          rw [read] at done
          cases e with
          | index column base sub => exact ⟨_, _, _, rfl⟩
          | _ => cases done
    rw [assignItem_index read] at done
    obtain ⟨container, before, of_base, done⟩ := run_bind_eq_ok.mp done
    obtain ⟨_, checked, room, done⟩ := run_bind_eq_ok.mp done
    -- The room is asked for between the container and the key, in the order the target is worked
    -- out.
    rw [place_eq] at done
    obtain ⟨place, after, of_sub, done⟩ := run_bind_eq_ok.mp done
    have put := Subscript.put_eq_ok.mp done
    obtain ⟨rfl, light⟩ := (checkRoom_eq_ok put.stored).mp room
    exact ⟨container, place, after, .intro read of_base light of_sub, put⟩
  · rintro ⟨container, place, after, ⟨read, of_base, light, of_sub⟩, put⟩
    rw [assignItem_index read]
    refine run_bind_eq_ok.mpr ⟨container, _, of_base, ?_⟩
    refine run_bind_eq_ok.mpr ⟨(), _, (checkRoom_eq_ok put.stored).mpr ⟨rfl, light⟩, ?_⟩
    rw [place_eq]
    exact run_bind_eq_ok.mpr ⟨place, after, of_sub, Subscript.put_eq_ok.mpr put⟩

end Evaluate

namespace Expr

/-- No function and no method is called anywhere in the expression. -/
def HasNoCall (e : Expr) : Prop :=
  e.Everywhere fun p => ∀ column func args, p ≠ .call column func args

theorem hasNoCall_name (column : Nat) (id : Text) : (Expr.name column id).HasNoCall :=
  everywhere_iff.mpr ⟨by simp, by simp [parts]⟩

/-- The container and the index of a subscript if both are names. -/
def namedItem? : Expr → Option (Text × Text)
  | .index _ (.name _ container) (.item (.name _ i)) => some (container, i)
  | _ => none

theorem read_of_namedItem? {container index : Text}
    (named : (read t).toOption.bind namedItem? = some (container, index)) :
    ∃ column start here, read t =
      .ok (.index column (.name start container) (.item (.name here index))) := by
  obtain ⟨e, done, named⟩ := Option.bind_eq_some_iff.mp named
  unfold namedItem? at named
  split at named
  · cases named
    exact ⟨_, _, _, ok_of_toOption done⟩
  · cases named

theorem HasNoCall.isQuiet {e : Expr} (uncalled : e.HasNoCall) (env : Env) :
    e.Everywhere (·.IsQuiet env) := by
  refine uncalled.imp fun p other => ?_
  cases p with
  | call column func args => exact absurd rfl (other column func args)
  | _ => trivial

end Expr

namespace Evaluate

theorem extending_optional {e : Option Expr} (quiet : ∀ p ∈ e, p.Everywhere (·.IsQuiet env)) :
    Extending (optional (eval env) e) := by
  cases e with
  | none => exact .pure none
  | some e =>
      rw [optional, map_eq_pure_bind]
      exact (extending_evalAt (quiet e rfl) evalBudget).bind fun v => .pure _

theorem extending_placeOf {sub : Snippet.Subscript}
    (quiet : ∀ p ∈ subscriptParts sub, p.Everywhere (·.IsQuiet env)) :
    Extending (placeOf env sub) := by
  cases sub with
  | item e =>
      exact (extending_evalAt (quiet e List.mem_cons_self) evalBudget).bind fun v => .pure _
  | slice start lower upper step =>
      simp only [subscriptParts, List.mem_append, Option.mem_toList] at quiet
      have sliced : Extending (slice (eval env) lower upper step) := by
        refine (extending_optional fun p same => quiet p (.inl (.inl same))).bind fun l => ?_
        refine (extending_optional fun p same => quiet p (.inl (.inr same))).bind fun u => ?_
        exact (extending_optional fun p same => quiet p (.inr same)).bind fun k => .pure _
      exact sliced.bind fun bounds => .pure _

theorem failsUnchanged_assignItem (uncalled : ∀ e, Expr.read t = .ok e → e.HasNoCall) (env : Env)
    (value : Value) : FailsUnchanged (assignItem env t value) := by
  cases read : Expr.read t with
  | error e =>
      unfold assignItem
      rw [read]
      cases e <;> exact .throw _
  | ok e =>
      have quiet := ((uncalled e read).isQuiet env).of_parts
      cases e with
      | index column base sub =>
          rw [assignItem_index read]
          rw [parts_index] at quiet
          obtain ⟨of_base, of_sub⟩ := List.forall_mem_cons.mp quiet
          refine .bind (extending_evalAt of_base evalBudget) fun container => ?_
          refine .plain_bind (plain_checkRoom container value) fun _ => ?_
          rw [place_eq]
          refine .bind (extending_placeOf of_sub) fun place => ?_
          exact Subscript.failsUnchanged_put container value place
      | _ =>
          unfold assignItem
          rw [read]
          exact .throw _

-- Until the container is changed, lists and dicts stay as they are.
theorem Targets.extends {place : Subscript.Place}
    (targets : Targets env t value s container place after)
    (uncalled : ∀ e, Expr.read t = .ok e → e.HasNoCall) : s.Extends after := by
  obtain ⟨read, of_base, -, of_sub⟩ := targets
  have quiet := ((uncalled _ read).isQuiet env).of_parts
  rw [parts_index] at quiet
  obtain ⟨quiet_base, quiet_sub⟩ := List.forall_mem_cons.mp quiet
  have first := (extending_evalAt quiet_base evalBudget).ok of_base
  exact first.trans ((extending_placeOf quiet_sub).ok of_sub)

end Evaluate

open Subscript (Put)
open Evaluate (Targets)

/-- Without calls in the target, storing an item either fails and leaves all lists and dicts as they
were, or puts the value into the container that the target names and leaves all others. What was
put at an index or under a key is then read there. No name is bound. -/
theorem storeItem_all_or_nothing (uncalled : ∀ e, Expr.read t = .ok e → e.HasNoCall) (env : Env)
    (value : Value) (s : Store) :
    (∀ stop s', Session.storeItem env t value s = .error stop s' → s.Extends s') ∧
    (∀ s', Session.storeItem env t value s = .ok () s' ↔
      ∃ container place after, Targets env t value s container place after ∧
        Put value container place after s' ∧ s.Extends after ∧ s.ExtendsBut container s') ∧
    (∀ container key after s', Put value container (.item key) after s' →
      (∀ r, container = .dict r → r < after.dicts.size) →
        Subscript.getItem container key s' = .ok value s') ∧
    ∀ setup m,
      (Exec.machineOf (Exec.attempt setup (fun env => Session.storeItem env t value) m)).scope
        = m.scope := by
  refine ⟨fun stop s' => ?_, fun s' => ?_, fun container key after s' put => put.getItem, ?_⟩
  · exact (Evaluate.failsUnchanged_assignItem uncalled env value).guarded s stop s'
  · rw [Session.storeItem, Session.guarded_eq_ok, Evaluate.assignItem_eq_ok]
    constructor
    · rintro ⟨container, place, after, targets, put⟩
      have before := targets.extends uncalled
      exact ⟨container, place, after, targets, put, before, put.extendsBut before⟩
    · rintro ⟨container, place, after, targets, put, -, -⟩
      exact ⟨container, place, after, targets, put⟩
  · intro setup m
    obtain ⟨s, left, -⟩ :=
      Exec.machineOf_attempt setup (fun env => Session.storeItem env t value) m
    rw [left]

-- The last of two items is replaced by the list itself.
theorem storeItem_all_or_nothing_last :
    let env : Env := ⟨⟨[("xs".toList, .list 0), ("i".toList, .int 1 (-1))]⟩, []⟩
    let s : Store := ⟨#[[.none, .none]], #[], 2⟩
    let t := "xs[i]".toList
    (∀ e, Expr.read t = .ok e → e.HasNoCall) ∧
      Session.storeItem env t (.list 0) s = .ok () ⟨#[[.none, .list 0]], #[], 2⟩ ∧
        s.ExtendsBut (.list 0) ⟨#[[.none, .list 0]], #[], 2⟩ := by
  intro env s t
  obtain ⟨column, start, here, read⟩ := Expr.read_of_namedItem?
    (show (Expr.read t).toOption.bind Expr.namedItem? = some ("xs".toList, "i".toList) by
      decide +kernel)
  have uncalled : ∀ e, Expr.read t = .ok e → e.HasNoCall := by
    intro e same
    rw [read] at same
    cases same
    exact .intro (by simp) (List.forall_mem_cons.mpr
      ⟨Expr.hasNoCall_name _ _, List.forall_mem_singleton.mpr (Expr.hasNoCall_name _ _)⟩)
  have targets : Targets env t (.list 0) s (.list 0) (.item (.int 1 (-1))) s :=
    .intro read rfl (by decide) rfl
  have put : Put (.list 0) (.list 0) (.item (.int 1 (-1))) s ⟨#[[.none, .list 0]], #[], 2⟩ :=
    @Put.item _ s 0 _ _ (@ItemPut.put _ [.none] [] .none _ (-1) rfl (.inr rfl))
  have kept := put.extendsBut (.refl s)
  obtain ⟨-, stores, -, -⟩ := storeItem_all_or_nothing uncalled env (.list 0) s
  exact ⟨uncalled, (stores _).mpr ⟨_, _, _, targets, put, .refl s, kept⟩, kept⟩

end Snippet
