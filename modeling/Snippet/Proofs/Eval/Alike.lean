import Snippet.Eval.Evaluate
import Snippet.Proofs.Value.Below

/-!
Evaluations that see no identities. Over values and a store under other identities, such an
evaluation does the same under those identities: what it makes has the tags that come next in
either store. It gives out the tags in turn, so that all tags stay below the next one.
-/

set_option autoImplicit false

namespace Snippet

variable {α β : Type} {ρ : Renaming} {k n : Nat}

/-- The same failure over other identities. -/
def Fault.rename (ρ : Renaming) : Fault → Fault
  | cause c => cause c
  | breach b => breach b
  | missingKey key => missingKey (key.rename ρ)

/-! ### Results under other identities -/

def Equal (_ : Nat) (a b : α) : Prop :=
  b = a

def Renamed (ρ : Renaming) (n : Nat) (v w : Value) : Prop :=
  w = v.rename ρ ∧ v.Below n

def RenamedAll (ρ : Renaming) (n : Nat) (xs ys : List Value) : Prop :=
  ys = xs.map (Value.rename ρ) ∧ ∀ v ∈ xs, v.Below n

def RenamedEntries (ρ : Renaming) (n : Nat) (es fs : Entries) : Prop :=
  fs = es.rename ρ ∧ es.Below n

namespace Eval

/-- Results that are the same but for their identities. Behind the first one the next tag is at least
`n`, and all tags are below it. -/
inductive AlikeEnds (ρ : Renaming) (n : Nat) (R : Nat → α → α → Prop) :
    EStateM.Result Fault Store α → EStateM.Result Fault Store α → Prop
  | ok {a a' : α} {s : Store} (related : R s.nextTag a a') (later : n ≤ s.nextTag)
      (below : s.Below s.nextTag) : AlikeEnds ρ n R (.ok a s) (.ok a' (s.rename ρ))
  | error {fault : Fault} {s : Store} (later : n ≤ s.nextTag) (below : s.Below s.nextTag) :
      AlikeEnds ρ n R (.error fault s) (.error (fault.rename ρ) (s.rename ρ))

/-- Two evaluations that do the same over stores that differ in their identities, where `n` is the
next tag of the first one. -/
structure Alike (ρ : Renaming) (n : Nat) (R : Nat → α → α → Prop) (m m' : Eval α) : Prop where
  ends (s : Store) (level : s.nextTag = n) (late : ρ.start ≤ n) (below : s.Below n) :
    AlikeEnds ρ n R (m s) (m' (s.rename ρ))

variable {R : Nat → α → α → Prop} {S : Nat → β → β → Prop} {m m' : Eval α} {f f' : α → Eval β}

theorem AlikeEnds.of_later {r r' : EStateM.Result Fault Store α} (ends : AlikeEnds ρ k R r r')
    (later : n ≤ k) : AlikeEnds ρ n R r r' := by
  cases ends with
  | ok related further below => exact .ok related (Nat.le_trans later further) below
  | error further below => exact .error (Nat.le_trans later further) below

theorem AlikeEnds.of_ok {a : α} {s : Store} {r' : EStateM.Result Fault Store α}
    (ends : AlikeEnds ρ n R (.ok a s) r') :
    ∃ a', r' = .ok a' (s.rename ρ) ∧ R s.nextTag a a' ∧ n ≤ s.nextTag ∧ s.Below s.nextTag := by
  cases ends with
  | ok related later below => exact ⟨_, rfl, related, later, below⟩

theorem AlikeEnds.of_error {fault : Fault} {s : Store} {r' : EStateM.Result Fault Store α}
    (ends : AlikeEnds ρ n R (.error fault s) r') :
    r' = .error (fault.rename ρ) (s.rename ρ) ∧ n ≤ s.nextTag ∧ s.Below s.nextTag := by
  cases ends with
  | error later below => exact ⟨rfl, later, below⟩

namespace Alike

theorem pure {a a' : α} (related : R n a a') : Alike ρ n R (pure a) (pure a') := by
  constructor
  rintro s rfl - below
  exact .ok related (Nat.le_refl _) below

theorem weaken {R' : Nat → α → α → Prop} (alike : Alike ρ n R m m')
    (weaker : ∀ k a a', R k a a' → R' k a a') : Alike ρ n R' m m' := by
  refine ⟨fun s level late below => ?_⟩
  have ran := alike.ends s level late below
  generalize m s = r, m' (s.rename ρ) = r' at ran
  cases ran with
  | ok related later below => exact .ok (weaker _ _ _ related) later below
  | error later below => exact .error later below

theorem bind (first : Alike ρ n R m m')
    (next : ∀ k, n ≤ k → ∀ a a', R k a a' → Alike ρ k S (f a) (f' a')) :
    Alike ρ n S (m >>= f) (m' >>= f') := by
  refine ⟨fun s level late below => ?_⟩
  have ran := first.ends s level late below
  rw [bind_eq, bind_eq]
  generalize m s = r, m' (s.rename ρ) = r' at ran
  cases ran with
  | ok related later below =>
      exact (next _ later _ _ related).ends _ rfl (Nat.le_trans late later) below |>.of_later later
  | error later below => exact .error later below

theorem bind_same (first : Alike ρ n Equal m m')
    (next : ∀ k, n ≤ k → ∀ a, Alike ρ k S (f a) (f' a)) : Alike ρ n S (m >>= f) (m' >>= f') :=
  bind first fun k later a _ same => same ▸ next k later a

theorem bind_renamed {m m' : Eval Value} {f f' : Value → Eval β} (first : Alike ρ n (Renamed ρ) m m')
    (next : ∀ k, n ≤ k → ∀ v, v.Below k → Alike ρ k S (f v) (f' (v.rename ρ))) :
    Alike ρ n S (m >>= f) (m' >>= f') :=
  bind first fun k later v _ renamed => renamed.1 ▸ next k later v renamed.2

theorem bind_renamedAll {m m' : Eval (List Value)} {f f' : List Value → Eval β}
    (first : Alike ρ n (RenamedAll ρ) m m')
    (next : ∀ k, n ≤ k → ∀ xs : List Value, (∀ v ∈ xs, v.Below k) →
      Alike ρ k S (f xs) (f' (xs.map (Value.rename ρ)))) :
    Alike ρ n S (m >>= f) (m' >>= f') :=
  bind first fun k later xs _ renamed => renamed.1 ▸ next k later xs renamed.2

theorem throw (fault : Fault) : Alike ρ n R (throw fault) (throw (fault.rename ρ)) := by
  constructor
  rintro s rfl - below
  exact .error (Nat.le_refl _) below

-- Nothing comes after a failure.
theorem throw_bind (fault : Fault) :
    Alike ρ n S (MonadExcept.throw fault >>= f) (MonadExcept.throw (fault.rename ρ) >>= f') :=
  bind (R := fun _ _ _ => False) (throw fault) nofun

theorem fail (c : Cause) : Alike ρ n R (fail c) (fail c) :=
  throw (.cause c)

theorem fail_bind (c : Cause) : Alike ρ n S (Eval.fail c >>= f) (Eval.fail c >>= f') :=
  throw_bind (.cause c)

theorem breach (b : Breach) : Alike ρ n R (breach b) (breach b) :=
  throw (.breach b)

theorem breach_bind (b : Breach) : Alike ρ n S (Eval.breach b >>= f) (Eval.breach b >>= f') :=
  throw_bind (.breach b)

theorem tryCatch {handle handle' : Fault → Eval α} (first : Alike ρ n R m m')
    (next : ∀ k, n ≤ k → ∀ fault, Alike ρ k R (handle fault) (handle' (fault.rename ρ))) :
    Alike ρ n R (tryCatch m handle) (tryCatch m' handle') := by
  refine ⟨fun s level late below => ?_⟩
  have ran := first.ends s level late below
  rw [tryCatch_eq, tryCatch_eq]
  generalize m s = r, m' (s.rename ρ) = r' at ran
  cases ran with
  | ok related later below => exact .ok related later below
  | error later below =>
      exact (next _ later _).ends _ rfl (Nat.le_trans late later) below |>.of_later later

theorem ite {c : Prop} [Decidable c] {x x' y y' : Eval α} (yes : c → Alike ρ n R x x')
    (no : ¬c → Alike ρ n R y y') : Alike ρ n R (if c then x else y) (if c then x' else y') := by
  split
  · exact yes ‹_›
  · exact no ‹_›

theorem of_late (alike : ρ.start ≤ n → Alike ρ n R m m') : Alike ρ n R m m' :=
  ⟨fun s level late below => (alike late).ends s level late below⟩

/-! ### What leaves the next tag as it is -/

theorem get_bind {f f' : Store → Eval β}
    (next : ∀ s : Store, ρ.start ≤ s.nextTag → Alike ρ n S (f s) (f' (s.rename ρ))) :
    Alike ρ n S (get >>= f) (get >>= f') :=
  ⟨fun s level late below => next s (level ▸ late) |>.ends s level late below⟩

theorem itemsOf (r : Ref) : Alike ρ n (RenamedAll ρ) (itemsOf r) (itemsOf r) := by
  constructor
  rintro s rfl - below
  exact .ok ⟨s.items_rename r, below.lists r⟩ (Nat.le_refl _) below

theorem itemsOf_bind (r : Ref) {f f' : List Value → Eval β}
    (next : ∀ items, (∀ v ∈ items, v.Below n) →
      Alike ρ n S (f items) (f' (items.map (Value.rename ρ)))) :
    Alike ρ n S (Eval.itemsOf r >>= f) (Eval.itemsOf r >>= f') := by
  refine ⟨fun s level late below => ?_⟩
  have then_ := next (s.items r) (below.lists r) |>.ends s level late below
  rwa [← s.items_rename r] at then_

theorem entriesOf_bind (r : Ref) {f f' : Entries → Eval β}
    (next : ∀ entries : Entries, entries.Below n → Alike ρ n S (f entries) (f' (entries.rename ρ))) :
    Alike ρ n S (entriesOf r >>= f) (entriesOf r >>= f') := by
  refine ⟨fun s level late below => ?_⟩
  have then_ := next (s.entries r) (below.dicts r) |>.ends s level late below
  rwa [← s.entries_rename r] at then_

theorem lift_bind (r : Except Breach α) (next : ∀ a, r = .ok a → Alike ρ n S (f a) (f' a)) :
    Alike ρ n S (lift r >>= f) (lift r >>= f') := by
  cases r with
  | ok a => exact next a rfl
  | error b => exact breach_bind b

theorem orBreach_same (b : Breach) (o : Option α) : Alike ρ n Equal (orBreach b o) (orBreach b o) := by
  cases o with
  | some a => exact pure rfl
  | none => exact breach b

theorem orBreach_bind (b : Breach) (o : Option α) (next : ∀ a, o = some a → Alike ρ n S (f a) (f' a)) :
    Alike ρ n S (Eval.orBreach b o >>= f) (Eval.orBreach b o >>= f') := by
  cases o with
  | some a => exact next a rfl
  | none => exact breach_bind b

theorem lift_same (r : Except Breach α) : Alike ρ n Equal (lift r) (lift r) := by
  cases r with
  | ok a => exact pure rfl
  | error b => exact breach b

theorem lift (r : Except Breach α) {g : α → α} (each : ∀ a, r = .ok a → R n a (g a)) :
    Alike ρ n R (lift r) (Eval.lift (g <$> r)) := by
  cases r with
  | ok a => exact pure (each a rfl)
  | error b => exact breach b

theorem setItems (r : Ref) {items : List Value} (each : ∀ v ∈ items, v.Below n) :
    Alike ρ n Equal (setItems r items) (Eval.setItems r (items.map (Value.rename ρ))) := by
  constructor
  rintro s rfl - below
  have done := below.setItems r each
  have ends : AlikeEnds ρ s.nextTag Equal (.ok () (s.setItems r items)) _ :=
    .ok rfl (Nat.le_refl _) done
  rwa [s.rename_setItems r items] at ends

theorem setItems_bind (r : Ref) (items : List Value) {f f' : Unit → Eval β}
    (each : ∀ v ∈ items, v.Below n) (next : Alike ρ n S (f ()) (f' ())) :
    Alike ρ n S (Eval.setItems r items >>= f)
      (Eval.setItems r (items.map (Value.rename ρ)) >>= f') := by
  refine ⟨fun s level late below => ?_⟩
  have then_ := next.ends (s.setItems r items) level late (below.setItems r each)
  rwa [s.rename_setItems r items] at then_

theorem setEntries (r : Ref) {entries : Entries} (each : entries.Below n) :
    Alike ρ n Equal (setEntries r entries) (Eval.setEntries r (entries.rename ρ)) := by
  constructor
  rintro s rfl - below
  have done := below.setEntries r each
  have ends : AlikeEnds ρ s.nextTag Equal (.ok () (s.setEntries r entries)) _ :=
    .ok rfl (Nat.le_refl _) done
  rwa [s.rename_setEntries r entries] at ends

theorem setEntries_bind (r : Ref) {entries : Entries} {f f' : Unit → Eval β}
    (each : entries.Below n) (next : Alike ρ n S (f ()) (f' ())) :
    Alike ρ n S (Eval.setEntries r entries >>= f) (Eval.setEntries r (entries.rename ρ) >>= f') := by
  refine ⟨fun s level late below => ?_⟩
  have then_ := next.ends (s.setEntries r entries) level late (below.setEntries r each)
  rwa [s.rename_setEntries r entries] at then_

/-! ### Lists of evaluations -/

theorem mapM {f f' : α → Eval β} {g : α → α} {xs : List α}
    (mono : ∀ {k l b b'}, k ≤ l → S k b b' → S l b b')
    (each : ∀ x ∈ xs, ∀ k, n ≤ k → Alike ρ k S (f x) (f' (g x))) :
    Alike ρ n (fun k => List.Forall₂ (S k)) (xs.mapM f) ((xs.map g).mapM f') := by
  induction xs generalizing n with
  | nil => exact pure .nil
  | cons x rest ih =>
      obtain ⟨first, others⟩ := List.forall_mem_cons.mp each
      simp only [List.map_cons, List.mapM_cons]
      refine bind (first n (Nat.le_refl n)) fun k later b b' related => ?_
      refine bind (ih fun y member l later' => others y member l (Nat.le_trans later later'))
        fun l later' bs bs' relatedAll => ?_
      exact pure (.cons (mono later' related) relatedAll)

theorem mapM_same {f f' : α → Eval β} {g : α → α} {xs : List α}
    (each : ∀ x ∈ xs, ∀ k, n ≤ k → Alike ρ k Equal (f x) (f' (g x))) :
    Alike ρ n Equal (xs.mapM f) ((xs.map g).mapM f') :=
  (mapM (fun _ => id) each).weaken fun _ _ _ related => by
    induction related with
    | nil => rfl
    | cons first _ ih => exact congrArg₂ List.cons first ih

theorem mapM_renamed {f f' : α → Eval Value} {g : α → α} {xs : List α}
    (each : ∀ x ∈ xs, ∀ k, n ≤ k → Alike ρ k (Renamed ρ) (f x) (f' (g x))) :
    Alike ρ n (RenamedAll ρ) (xs.mapM f) ((xs.map g).mapM f') :=
  (mapM (fun later related => ⟨related.1, related.2.mono later⟩) each).weaken
    fun _ _ _ related => by
      induction related with
      | nil => exact ⟨rfl, nofun⟩
      | cons first _ ih =>
          exact ⟨congrArg₂ List.cons first.1 ih.1, List.forall_mem_cons.mpr ⟨first.2, ih.2⟩⟩

theorem mapM_each {f f' : α → Eval Value} {xs : List α}
    (each : ∀ x ∈ xs, ∀ k, n ≤ k → Alike ρ k (Renamed ρ) (f x) (f' x)) :
    Alike ρ n (RenamedAll ρ) (xs.mapM f) (xs.mapM f') := by
  have ends := mapM_renamed (g := id) each
  rwa [List.map_id] at ends

end Alike

end Eval

open Eval (Alike AlikeEnds)

namespace Value

/-! ### New values -/

theorem alike_newTag (make make' : Tag → Value) (renamed : ∀ t, (make t).rename ρ = make' (ρ.tag t))
    (below : (make n).Below (n + 1)) :
    Alike ρ n (Renamed ρ) (do return make (← Eval.newTag)) (do return make' (← Eval.newTag)) := by
  constructor
  rintro s rfl late below'
  have moved : ρ.tag (s.nextTag + 1) = ρ.tag s.nextTag + 1 := by
    rw [ρ.tag_of_le late, ρ.tag_of_le (Nat.le_succ_of_le late), Nat.add_right_comm]
  have ends : AlikeEnds ρ s.nextTag (Renamed ρ) (.ok _ { s with nextTag := s.nextTag + 1 }) _ :=
    .ok ⟨(renamed s.nextTag).symm, below⟩ (Nat.le_succ _) below'.newTag
  rwa [Store.rename, moved] at ends

theorem alike_shared {v : Value} (renamed : v.rename ρ = v) (below : v.Below 1) :
    Alike ρ n (Renamed ρ) (pure v) (pure v) :=
  .of_late fun late => .pure ⟨renamed.symm, below.mono (Nat.le_trans ρ.positive late)⟩

theorem alike_ofInt (i : Int) : Alike ρ n (Renamed ρ) (ofInt i) (ofInt i) :=
  .ite (fun _ => alike_shared (congrArg (int · i) ρ.tag_shared) Nat.one_pos)
    fun _ => alike_newTag (int · i) _ (fun _ => rfl) (Nat.lt_succ_self n)

theorem alike_ofNat (i : Nat) : Alike ρ n (Renamed ρ) (ofNat i) (ofNat i) :=
  alike_ofInt i

theorem alike_ofFloat (x : Float) : Alike ρ n (Renamed ρ) (ofFloat x) (ofFloat x) :=
  alike_newTag (float · x) _ (fun _ => rfl) (Nat.lt_succ_self n)

theorem alike_ofComplex (z : Complex) : Alike ρ n (Renamed ρ) (ofComplex z) (ofComplex z) :=
  alike_newTag (complex · z) _ (fun _ => rfl) (Nat.lt_succ_self n)

theorem alike_ofText (t : Text) : Alike ρ n (Renamed ρ) (ofText t) (ofText t) :=
  .ite (fun _ => alike_shared (congrArg (text · t) ρ.tag_shared) Nat.one_pos)
    fun _ => alike_newTag (text · t) _ (fun _ => rfl) (Nat.lt_succ_self n)

theorem alike_ofNewText (t : Text) : Alike ρ n (Renamed ρ) (ofNewText t) (ofNewText t) :=
  .ite (fun _ => alike_shared (congrArg (text · t) ρ.tag_shared) Nat.one_pos)
    fun _ => alike_newTag (text · t) _ (fun _ => rfl) (Nat.lt_succ_self n)

theorem alike_ofView (kind : ViewKind) (r : Ref) :
    Alike ρ n (Renamed ρ) (ofView kind r) (ofView kind r) :=
  alike_newTag (view · kind r) _ (fun _ => rfl) (Nat.lt_succ_self n)

theorem alike_ofTuple {items : List Value} (each : ∀ v ∈ items, v.Below n) :
    Alike ρ n (Renamed ρ) (ofTuple items) (ofTuple (items.map (rename ρ))) := by
  cases items with
  | nil => exact alike_shared (congrArg (tuple · []) ρ.tag_shared) ⟨Nat.one_pos, trivial⟩
  | cons v rest =>
      refine alike_newTag (tuple · (v :: rest)) _ (fun t => ?_) ?_
      · exact congrArg (tuple _) (renameAll_eq_map ρ _)
      · exact below_tuple.mpr ⟨Nat.lt_succ_self n, fun w member => (each w member).mono (Nat.le_succ n)⟩

theorem alike_ofList {items : List Value} (each : ∀ v ∈ items, v.Below n) :
    Alike ρ n (Renamed ρ) (ofList items) (ofList (items.map (rename ρ))) := by
  constructor
  rintro s rfl - below
  have made : ofList (items.map (rename ρ)) (s.rename ρ)
      = .ok (list s.lists.size) (Store.rename ρ { s with lists := s.lists.push items }) := by
    show EStateM.Result.ok (list (s.rename ρ).lists.size) _ = _
    simp [Store.rename]
  rw [made]
  exact .ok ⟨rfl, trivial⟩ (Nat.le_refl _) (below.pushList each)

theorem alike_ofEntries {entries : Entries} (each : entries.Below n) :
    Alike ρ n (Renamed ρ) (ofEntries entries) (ofEntries (entries.rename ρ)) := by
  constructor
  rintro s rfl - below
  have made : ofEntries (entries.rename ρ) (s.rename ρ)
      = .ok (dict s.dicts.size) (Store.rename ρ { s with dicts := s.dicts.push entries }) := by
    show EStateM.Result.ok (dict (s.rename ρ).dicts.size) _ = _
    simp [Store.rename]
  rw [made]
  exact .ok ⟨rfl, trivial⟩ (Nat.le_refl _) (below.pushDict each)

variable {v : Value}

theorem alike_exactText (below : v.Below n) (t : Text) :
    Alike ρ n (Renamed ρ) (exactText v t) (exactText (v.rename ρ) t) := by
  have other : Alike ρ n (Renamed ρ) (pure v) (pure (v.rename ρ)) := .pure ⟨rfl, below⟩
  cases v with
  | raw => exact alike_ofNewText t
  | _ => exact other

theorem alike_toWritten (v : Value) :
    Alike ρ n (Renamed ρ) (toWritten v) (toWritten (v.rename ρ)) := by
  refine .get_bind fun s late => ?_
  rw [written_rename late]
  refine .lift_bind _ fun t _ => ?_
  have other : Alike ρ n (Renamed ρ) (ofNewText t) (ofNewText t) := alike_ofNewText t
  cases v with
  | bool => exact alike_shared (congrArg (text · t) ρ.tag_shared) Nat.one_pos
  | _ => exact other

theorem alike_toShown (below : v.Below n) :
    Alike ρ n (Renamed ρ) (toShown v) (toShown (v.rename ρ)) := by
  have other := alike_toWritten (n := n) (ρ := ρ) v
  cases v with
  | text => exact .pure ⟨rfl, below⟩
  | raw _ t => exact alike_ofNewText t
  | _ =>
      simp only [rename, toShown] at other ⊢
      exact other

/-! ### Checks -/

theorem alike_checkWeight_bind {S : Nat → β → β → Prop} {f f' : Unit → Eval β} (v : Value)
    (next : Alike ρ n S (f ()) (f' ())) :
    Alike ρ n S (checkWeight v >>= f) (checkWeight (v.rename ρ) >>= f') := by
  simp only [checkWeight, bind_assoc]
  refine .get_bind fun s _ => ?_
  rw [isContainer_rename, weight_rename]
  split
  · exact .fail_bind _
  · simpa using next

theorem alike_checked (below : v.Below n) :
    Alike ρ n (Renamed ρ) (checked v) (checked (v.rename ρ)) := by
  have other : Alike ρ n (Renamed ρ) (do checkWeight v; return v)
      (do checkWeight (v.rename ρ); return v.rename ρ) :=
    alike_checkWeight_bind v (.pure ⟨rfl, below⟩)
  cases v with
  | int t i =>
      simp only [checked, rename]
      split
      · exact .fail_bind _
      · exact .pure ⟨rfl, below⟩
  | _ => exact other

end Value

end Snippet
