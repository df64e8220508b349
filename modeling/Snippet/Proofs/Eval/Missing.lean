import Snippet.Proofs.Eval.Plain

/-!
Failures that are about names. Reading and changing values, the operators, the methods and the
functions that every snippet may call fail for many reasons, but never since a name is missing.
-/

set_option autoImplicit false

namespace Snippet

variable {α β : Type} {Q : Text → Prop}

-- A cause with a wording of its own, which is about no name but those of which `Q` holds.
@[grind] def Cause.MissesOnly (Q : Text → Prop) (c : Cause) : Prop :=
  (∀ name, c = .undefinedName name → Q name) ∧
    (∀ kind, c ≠ .manual kind) ∧ ∀ kind message, c ≠ .custom kind message

@[grind] def Fault.MissesOnly (Q : Text → Prop) : Fault → Prop
  | .cause c => c.MissesOnly Q
  | .breach _ | .missingKey _ => True

/-- Every failure of an evaluation that is about a name is about one of which `Q` holds. -/
def Eval.MissesOnly (Q : Text → Prop) (m : Eval α) : Prop :=
  ∀ s, ¬ Ends (fun fault _ => ¬ fault.MissesOnly Q) m s

theorem toList_ne_nameError {kind : String} (other : kind ≠ "NameError") :
    kind.toList ≠ "NameError".toList :=
  fun same => other (String.toList_inj.mp same)

theorem Cause.MissesOnly.undefined {c : Cause} (h : c.MissesOnly Q)
    (named : c.kind = "NameError".toList) : ∃ name, c = .undefinedName name ∧ Q name := by
  cases c with
  | undefinedName name => exact ⟨name, rfl, h.1 name rfl⟩
  | manual kind => exact absurd rfl (h.2.1 kind)
  | custom kind message => exact absurd rfl (h.2.2 kind message)
  | unreadable e => cases e <;> exact absurd named (toList_ne_nameError (by decide))
  | breach b => cases b <;> exact absurd named (toList_ne_nameError (by decide))
  | _ => exact absurd named (toList_ne_nameError (by decide))

namespace Eval

theorem MissesOnly.fault {m : Eval α} (h : MissesOnly Q m) {s s' : Store} {fault : Fault}
    (failed : m s = .error fault s') : fault.MissesOnly Q := by
  apply Classical.byContradiction
  exact fun misses => h s ⟨fault, s', failed, misses⟩

theorem missesOnly_pure (a : α) : MissesOnly Q (pure a : Eval α) :=
  fun _ => not_ends_pure a

theorem missesOnly_bind {m : Eval α} {k : α → Eval β} (first : MissesOnly Q m)
    (next : ∀ a, MissesOnly Q (k a)) : MissesOnly Q (m >>= k) :=
  fun s => not_ends_bind (first s) fun a => next a

theorem missesOnly_map {m : Eval α} (f : α → β) (h : MissesOnly Q m) : MissesOnly Q (f <$> m) := by
  rw [map_eq_pure_bind]
  exact missesOnly_bind h fun a => missesOnly_pure (f a)

theorem missesOnly_throw {fault : Fault} (h : fault.MissesOnly Q) :
    MissesOnly Q (throw fault : Eval α) := by
  rintro s ⟨other, s', same, misses⟩
  cases same
  exact misses h

theorem missesOnly_catch {m : Eval α} {handle : Fault → Eval α} (first : MissesOnly Q m)
    (next : ∀ fault, fault.MissesOnly Q → MissesOnly Q (handle fault)) :
    MissesOnly Q (tryCatch m handle) := by
  intro s
  cases ran : m s with
  | ok a s' =>
      have passed : tryCatch m handle s = .ok a s' := by rw [tryCatch_eq, ran]
      exact not_ends_of_ok passed
  | error fault s' =>
      have caught : tryCatch m handle s = handle fault s' := by rw [tryCatch_eq, ran]
      rintro ⟨other, after, ended, misses⟩
      rw [caught] at ended
      exact next fault (first.fault ran) s' ⟨other, after, ended, misses⟩

theorem missesOnly_mapM {f : α → Eval β} {xs : List α} (each : ∀ a ∈ xs, MissesOnly Q (f a)) :
    MissesOnly Q (xs.mapM f) :=
  not_ends_mapM each

theorem missesOnly_forM {f : α → Eval PUnit} {xs : List α} (each : ∀ a, MissesOnly Q (f a)) :
    MissesOnly Q (xs.forM f) :=
  not_ends_forM fun a _ => each a

theorem missesOnly_foldlM {f : β → α → Eval β} {xs : List α} {b : β}
    (each : ∀ b a, MissesOnly Q (f b a)) : MissesOnly Q (xs.foldlM f b) := by
  induction xs generalizing b with
  | nil => exact missesOnly_pure b
  | cons a rest ih => exact missesOnly_bind (each b a) fun _ => ih

theorem missesOnly_get : MissesOnly Q (get : Eval Store) :=
  fun _ => not_ends_of_ok rfl

theorem missesOnly_modify (f : Store → Store) : MissesOnly Q (modify f : Eval PUnit) :=
  fun _ => not_ends_of_ok rfl

theorem missesOnly_modifyGet (f : Store → α × Store) :
    MissesOnly Q (modifyGet f : Eval α) :=
  fun _ => not_ends_of_ok rfl

theorem missesOnly_fail {c : Cause} (h : c.MissesOnly Q) : MissesOnly Q (fail c : Eval α) :=
  missesOnly_throw h

theorem missesOnly_setItems (ref : Ref) (items : List Value) :
    MissesOnly Q (setItems ref items) :=
  missesOnly_modify _

theorem missesOnly_setEntries (ref : Ref) (entries : Entries) :
    MissesOnly Q (setEntries ref entries) :=
  missesOnly_modify _

end Eval

theorem Eval.Plain.missesOnly {m : Eval α} (h : m.Plain) : m.MissesOnly Q := by
  rintro s ⟨fault, s', failed, misses⟩
  have ordinary := (h.error failed).2
  cases fault with
  | cause c => exact misses ⟨fun name same => absurd same (ordinary.1 name), ordinary.2⟩
  | breach b | missingKey key => exact misses trivial

namespace Eval

-- What comes behind an evaluation that misses no name.
theorem missesOnly_after {m : Eval α} {k : α → Eval β} (first : m.Plain)
    (next : ∀ a, MissesOnly Q (k a)) : MissesOnly Q (m >>= k) :=
  missesOnly_bind first.missesOnly next

-- What comes behind a check.
theorem missesOnly_guarded {p : Prop} [Decidable p] {stop : Eval Unit} {k : Unit → Eval α}
    (stopped : stop.Plain) (next : MissesOnly Q (k ())) :
    MissesOnly Q (if p then stop >>= k else k ()) := by
  split
  · exact missesOnly_after stopped fun _ => next
  · exact next

end Eval

open Eval (MissesOnly missesOnly_after)

namespace Value

theorem missesOnly_ofList (items : List Value) : MissesOnly Q (ofList items) :=
  Eval.missesOnly_modifyGet _

theorem missesOnly_ofEntries (entries : Entries) : MissesOnly Q (ofEntries entries) :=
  Eval.missesOnly_modifyGet _

end Value

namespace Operator

theorem missesOnly_addPlain (a b : Value) : MissesOnly Q (addPlain a b) := by
  unfold addPlain
  split
  · refine missesOnly_after (Eval.plain_itemsOf _) fun xs => ?_
    exact missesOnly_after (Eval.plain_itemsOf _) fun ys => Value.missesOnly_ofList _
  · exact (plain_addTuples _ _ _ _).missesOnly
  · split
    · exact (plain_addTexts a b _ _).missesOnly
    · exact (plain_addNumbers a b).missesOnly

theorem missesOnly_repeatValue (v : Value) (n : Int) : MissesOnly Q (repeatValue v n) := by
  have kept : MissesOnly Q (pure v : Eval Value) := Eval.missesOnly_pure v
  refine missesOnly_after (plain_countOf n) fun n => ?_
  split
  · refine missesOnly_after (Eval.plain_itemsOf _) fun items => ?_
    exact missesOnly_after (plain_repeated n items) fun all => Value.missesOnly_ofList all
  · split
    · exact kept
    · exact missesOnly_after (plain_repeated n _) fun all => (Value.plain_ofTuple all).missesOnly
  · split
    · exact kept
    · exact missesOnly_after (plain_repeated n _) fun all => (Value.plain_ofNewText all).missesOnly
  · exact missesOnly_after (plain_repeated n _) fun all => (Value.plain_ofNewText all).missesOnly
  · exact (Eval.plain_breach _).missesOnly

theorem missesOnly_mulPlain (a b : Value) : MissesOnly Q (mulPlain a b) := by
  unfold mulPlain
  split
  · exact missesOnly_repeatValue a _
  · split
    · exact missesOnly_repeatValue b _
    · exact (plain_mulNumbers a b).missesOnly

/-- An operator on two values fails for a reason that is about no name. -/
theorem missesOnly_binary (op : BinaryOp) (a b : Value) : MissesOnly Q (binary op a b) := by
  have checked (v : Value) : MissesOnly Q v.checked := (Value.plain_checked v).missesOnly
  cases op with
  | add => exact Eval.missesOnly_bind (missesOnly_addPlain a b) checked
  | sub => exact (plain_sub a b).missesOnly
  | mul =>
      refine missesOnly_after (plain_checkProduct a b) fun _ => ?_
      exact Eval.missesOnly_bind (missesOnly_mulPlain a b) checked
  | div => exact (plain_div a b).missesOnly
  | floorDiv => exact (plain_floorDiv a b).missesOnly
  | mod => exact (plain_mod a b).missesOnly
  | pow => exact (plain_pow a b).missesOnly

end Operator

namespace Subscript

theorem missesOnly_getSlice (base : Value) (slice : Slice) :
    MissesOnly Q (getSlice base slice) := by
  unfold getSlice
  split
  · exact missesOnly_after (Eval.plain_lift _) fun span => (plain_stretchOf _ _ span).missesOnly
  · exact missesOnly_after (Eval.plain_lift _) fun span => (plain_stretchOf _ _ span).missesOnly
  · refine missesOnly_after (Eval.plain_lift _) fun span => ?_
    split
    · exact Eval.missesOnly_pure _
    · exact (Value.plain_ofTuple _).missesOnly
  · refine missesOnly_after (Eval.plain_itemsOf _) fun items => ?_
    exact missesOnly_after (Eval.plain_lift _) fun span => Value.missesOnly_ofList _
  · exact (Eval.plain_breach _).missesOnly

end Subscript

end Snippet
