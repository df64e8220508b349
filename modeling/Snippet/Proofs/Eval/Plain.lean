import Snippet.Eval.Evaluate
import Snippet.Proofs.Eval.Closed
import Snippet.Proofs.Program

/-!
Evaluations that leave all lists and dicts as they are, and that fail for reasons of their own:
about no name, and never by a failure that a snippet or an extension words.
-/

set_option autoImplicit false

namespace Snippet

variable {α β : Type}

-- A cause with a wording of its own, which is about no name.
@[simp, grind] def Cause.IsOrdinary (c : Cause) : Prop :=
  (∀ name, c ≠ .undefinedName name) ∧
    (∀ kind, c ≠ .manual kind) ∧ ∀ kind message, c ≠ .custom kind message

@[grind] def Fault.IsOrdinary : Fault → Prop
  | .cause c => c.IsOrdinary
  | .breach _ | .missingKey _ => True

/-- The lists and dicts of two stores are the same. -/
def Store.SameData (s s' : Store) : Prop :=
  s'.lists = s.lists ∧ s'.dicts = s.dicts

theorem Store.SameData.refl (s : Store) : s.SameData s :=
  ⟨rfl, rfl⟩

theorem Store.SameData.trans {s s' s'' : Store} (first : s.SameData s') (second : s'.SameData s'') :
    s.SameData s'' :=
  ⟨second.1.trans first.1, second.2.trans first.2⟩

/-- Changes no list or dict, and fails with ordinary faults only. -/
def Eval.Plain (m : Eval α) : Prop :=
  ∀ s, match m s with
    | .ok _ s' => s.SameData s'
    | .error fault s' => s.SameData s' ∧ fault.IsOrdinary

namespace Eval

theorem Plain.ok {m : Eval α} (h : Plain m) {s s' : Store} {a : α} (ran : m s = .ok a s') :
    s.SameData s' := by
  have after := h s
  rwa [ran] at after

theorem Plain.error {m : Eval α} (h : Plain m) {s s' : Store} {fault : Fault}
    (ran : m s = .error fault s') : s.SameData s' ∧ fault.IsOrdinary := by
  have after := h s
  rwa [ran] at after

@[grind ←]
theorem plain_pure (a : α) : Plain (pure a : Eval α) :=
  fun s => .refl s

@[grind ←]
theorem plain_bind {m : Eval α} {k : α → Eval β} (first : Plain m) (next : ∀ a, Plain (k a)) :
    Plain (m >>= k) := by
  intro s
  rw [bind_eq]
  cases ran : m s with
  | ok a s' =>
      have then_ := next a s'
      dsimp only
      split <;> rename_i done <;> rw [done] at then_
      · exact (first.ok ran).trans then_
      · exact ⟨(first.ok ran).trans then_.1, then_.2⟩
  | error fault s' => exact first.error ran

@[grind ←]
theorem plain_throw {fault : Fault} (h : fault.IsOrdinary) : Plain (throw fault : Eval α) :=
  fun s => ⟨.refl s, h⟩

theorem tryCatch_eq (m : Eval α) (handle : Fault → Eval α) (s : Store) :
    tryCatch m handle s =
      match m s with
      | .ok a s' => .ok a s'
      | .error fault s' => handle fault s' := by
  show EStateM.tryCatch m handle s = _
  delta EStateM.tryCatch
  dsimp only
  cases m s <;> rfl

@[grind ←]
theorem plain_forM {f : α → Eval PUnit} {xs : List α} (each : ∀ a, Plain (f a)) :
    Plain (xs.forM f) := by
  induction xs with
  | nil => exact plain_pure PUnit.unit
  | cons a rest ih => exact plain_bind (each a) fun _ => ih

@[grind ←]
theorem plain_fail {c : Cause} (h : c.IsOrdinary) : Plain (fail c : Eval α) :=
  plain_throw h

@[grind ←]
theorem plain_breach (b : Breach) : Plain (breach b : Eval α) :=
  plain_throw trivial

@[grind ←]
theorem plain_get : Plain (get : Eval Store) :=
  fun s => .refl s

@[grind ←]
theorem plain_newTag : Plain newTag :=
  fun s => .refl s

/-- Plain evaluations are a kind. -/
theorem isClosed_plain : IsClosed Plain where
  pure := plain_pure
  bind := plain_bind
  breach := plain_breach
  missingKey _ := plain_throw trivial
  get := plain_get
  newTag := plain_newTag

@[grind ←]
theorem plain_mapM {f : α → Eval β} {xs : List α} (each : ∀ a ∈ xs, Plain (f a)) :
    Plain (xs.mapM f) :=
  isClosed_plain.mapM each

@[grind ←]
theorem plain_lift (r : Except Breach α) : Plain (lift r) :=
  isClosed_plain.lift r

@[grind ←]
theorem plain_orBreach (b : Breach) (o : Option α) : Plain (orBreach b o) :=
  isClosed_plain.orBreach b o

@[grind ←]
theorem plain_itemsOf (ref : Ref) : Plain (itemsOf ref) :=
  isClosed_plain.itemsOf ref

@[grind ←]
theorem plain_entriesOf (ref : Ref) : Plain (entriesOf ref) :=
  isClosed_plain.entriesOf ref

-- A check that may stop what follows it.
theorem plain_guarded {p : Prop} [Decidable p] {stop : Eval Unit} {k : Unit → Eval α}
    (stopped : Plain stop) (next : Plain (k ())) :
    Plain (if p then stop >>= k else k ()) := by
  split
  · exact plain_bind stopped fun _ => next
  · exact next

-- What is read off the store, and may fail.
theorem plain_read (f : Store → Except Breach α) : Plain (do lift (f (← get))) :=
  plain_bind plain_get fun _ => plain_lift _

end Eval

open Eval

namespace Value

@[grind ←]
theorem plain_ofInt (n : Int) : Plain (ofInt n) :=
  isClosed_plain.ofInt n

@[grind ←]
theorem plain_ofFloat (x : Float) : Plain (ofFloat x) :=
  isClosed_plain.tagged _

@[grind ←]
theorem plain_ofComplex (z : Complex) : Plain (ofComplex z) :=
  isClosed_plain.tagged _

@[grind ←]
theorem plain_ofText (t : Text) : Plain (ofText t) :=
  isClosed_plain.ofText t

@[grind ←]
theorem plain_ofNewText (t : Text) : Plain (ofNewText t) :=
  isClosed_plain.ofNewText t

@[grind ←]
theorem plain_exactText (v : Value) (t : Text) : Plain (exactText v t) :=
  isClosed_plain.exactText v t

@[grind ←]
theorem plain_ofTuple (items : List Value) : Plain (ofTuple items) := by
  unfold ofTuple
  split
  · exact plain_pure _
  · exact isClosed_plain.tagged _

@[grind ←]
theorem plain_toWritten (v : Value) : Plain v.toWritten :=
  isClosed_plain.toWritten v

@[grind ←]
theorem plain_toShown (v : Value) : Plain v.toShown :=
  isClosed_plain.toShown v

@[grind ←]
theorem plain_checkWeight (v : Value) : Plain v.checkWeight := by
  refine plain_bind plain_get fun s => ?_
  split
  · exact plain_fail (by simp)
  · exact plain_pure _

@[grind ←]
theorem plain_checked (v : Value) : Plain v.checked := by
  have given : Plain (pure v : Eval Value) := plain_pure v
  unfold checked
  split
  · exact plain_guarded (plain_fail (by simp)) given
  · exact plain_bind (plain_checkWeight _) fun _ => given

end Value

open Value

namespace Operator

@[grind ←]
theorem plain_addTexts (a b : Value) (s t : Text) : Plain (addTexts a b s t) := by
  unfold addTexts
  split
  · exact plain_exactText b t
  · split
    · exact plain_exactText a s
    · exact plain_ofNewText _

@[grind ←]
theorem plain_addTuples (a b : Value) (xs ys : List Value) :
    Plain (addTuples a b xs ys) := by
  unfold addTuples
  split
  · exact plain_pure a
  · split
    · exact plain_pure b
    · exact plain_ofTuple _

-- Two operands are made numbers of one kind first, and each kind goes on in its own way.
theorem plain_pair {r : Except Breach Pair} {k : Pair → Eval α} (ints : ∀ m n, Plain (k (.ints m n)))
    (floats : ∀ x y, Plain (k (.floats x y))) (complexes : ∀ z w, Plain (k (.complexes z w))) :
    Plain (do k (← lift r)) := by
  refine plain_bind (plain_lift r) fun pair => ?_
  cases pair with
  | ints m n => exact ints m n
  | floats x y => exact floats x y
  | complexes z w => exact complexes z w

@[grind ←]
theorem plain_addNumbers (a b : Value) : Plain (addNumbers a b) :=
  plain_pair (fun _ _ => plain_ofInt _) (fun _ _ => plain_ofFloat _) fun _ _ => plain_ofComplex _

@[grind ←]
theorem plain_checkProduct (a b : Value) : Plain (checkProduct a b) := by
  have refused {c : Cause} (ordinary : c.IsOrdinary) (b : Bool) :
      Plain (if b = true then fail c else pure ()) := by
    split
    · exact plain_fail ordinary
    · exact plain_pure ()
  have too_large : Cause.resultTooLarge.IsOrdinary := by simp
  refine plain_bind plain_get fun s => ?_
  dsimp only
  split
  · exact refused too_large _
  · split
    · exact refused too_large _
    · split
      · split
        · exact plain_fail (by simp)
        · exact plain_pure ()
      · exact plain_pure ()

@[grind ←]
theorem plain_countOf (n : Int) : Plain (countOf n) := by
  unfold countOf
  split
  · exact plain_pure _
  · exact plain_breach _

@[grind ←]
theorem plain_repeated (n : Nat) (xs : List α) : Plain (repeated n xs) := by
  unfold repeated
  split
  · exact plain_pure _
  · split
    · exact plain_breach _
    · exact plain_pure _

@[grind ←]
theorem plain_mulNumbers (a b : Value) : Plain (mulNumbers a b) :=
  plain_pair (fun _ _ => plain_ofInt _) (fun _ _ => plain_ofFloat _) fun _ _ => plain_ofComplex _

theorem plain_floatPower (x y : Float) : Plain (floatPower x y) := by
  unfold floatPower
  extract_lets failed
  have of_failed (why : Real.PowerFailure) : Plain (failed why) := by
    cases why <;> exact plain_breach _
  split
  · exact plain_ofFloat _
  · exact of_failed _
  · split
    · exact plain_ofComplex _
    · exact of_failed _

@[grind ←]
theorem plain_powNumbers (a b : Value) : Plain (powNumbers a b) := by
  refine plain_pair (fun m n => ?_) plain_floatPower fun z w => ?_
  · dsimp only
    split
    · exact plain_ofInt _
    · refine plain_bind (plain_lift _) fun x => plain_bind (plain_lift _) fun y => ?_
      exact plain_floatPower x y
  · dsimp only
    split
    · exact plain_ofComplex _
    · exact plain_breach _
    · exact plain_breach _

@[grind ←]
theorem plain_modNumbers (a b : Value) : Plain (modNumbers a b) := by
  refine plain_pair (fun m n => ?_) (fun x y => ?_) fun _ _ => plain_breach _
  · dsimp only
    split
    · exact plain_breach _
    · split
      · exact plain_pure _
      · exact plain_ofInt _
  · dsimp only
    split
    · exact plain_breach _
    · exact plain_ofFloat _

@[grind ←]
theorem plain_fill (base : Value) (template : Text) (operand : Value) :
    Plain (fill base template operand) := by
  refine plain_bind (isClosed_plain.fillTemplate template operand) fun filled => ?_
  split
  · exact plain_pure base
  · exact plain_pure filled

@[grind ←]
theorem plain_sub (a b : Value) : Plain (sub a b) :=
  plain_pair (fun _ _ => plain_ofInt _) (fun _ _ => plain_ofFloat _) fun _ _ => plain_ofComplex _

@[grind ←]
theorem plain_div (a b : Value) : Plain (div a b) := by
  refine plain_pair (fun m n => ?_) (fun x y => ?_) fun z w => ?_
  · dsimp only
    split
    · exact plain_breach _
    · exact plain_bind (plain_orBreach _ _) fun _ => plain_ofFloat _
  · dsimp only
    split
    · exact plain_breach _
    · exact plain_ofFloat _
  · exact plain_bind (plain_orBreach _ _) fun _ => plain_ofComplex _

@[grind ←]
theorem plain_floorDiv (a b : Value) : Plain (floorDiv a b) := by
  refine plain_pair (fun m n => ?_) (fun x y => ?_) fun _ _ => plain_breach _
  · dsimp only
    split
    · exact plain_breach _
    · exact plain_ofInt _
  · dsimp only
    split
    · exact plain_breach _
    · exact plain_ofFloat _

@[grind ←]
theorem plain_mod (a b : Value) : Plain (mod a b) := by
  unfold mod
  refine plain_guarded (plain_fail (by simp)) ?_
  refine plain_bind (plain_checkWeight b) fun _ => ?_
  split
  · exact plain_bind (plain_fill a _ b) fun _ => plain_checked _
  · exact plain_bind (plain_modNumbers a b) fun _ => plain_checked _

@[grind ←]
theorem plain_pow (a b : Value) : Plain (pow a b) := by
  unfold pow
  split
  · exact plain_guarded (plain_fail (by simp)) (plain_powNumbers a b)
  · exact plain_powNumbers a b

theorem plain_negate (v : Value) : Plain (negate v) := by
  unfold negate
  split
  · exact plain_ofInt _
  · exact plain_ofFloat _
  · exact plain_ofComplex _
  · exact plain_breach _

@[grind ←]
theorem plain_unary (op : UnaryOp) (v : Value) : Plain (unary op v) := by
  cases op with
  | not => exact plain_bind plain_get fun s => plain_pure _
  | minus => exact plain_negate v
  | plus =>
      cases v with
      | bool b => exact plain_ofInt _
      | int | float | complex => exact plain_pure _
      | _ => exact plain_breach _

theorem plain_ordered (op : OrderOp) (a b : Value) : Plain (ordered op a b) :=
  plain_read _

@[grind ←]
theorem plain_compare (op : Comparison) (a b : Value) : Plain (compare op a b) := by
  have reversed (f : Store → Except Breach Bool) : Plain (do return !(← lift (f (← get)))) :=
    plain_bind plain_get fun s => plain_bind (plain_lift _) fun _ => plain_pure _
  cases op with
  | eq | isIn => exact plain_read _
  | ne | notIn => exact reversed _
  | lt | gt | le | ge => exact plain_ordered _ a b
  | same | notSame => exact plain_pure _

end Operator

namespace Subscript

theorem plain_lookUp (ref : Ref) (key : Value) : Plain (lookUp ref key) := by
  unfold lookUp
  refine plain_guarded (plain_breach _) ?_
  refine plain_bind (plain_entriesOf ref) fun entries => ?_
  split
  · exact plain_pure _
  · exact plain_throw trivial

@[grind ←]
theorem plain_getItem (base index : Value) : Plain (getItem base index) := by
  unfold getItem
  split
  · exact plain_bind (plain_lift _) fun _ => plain_ofText _
  · exact plain_bind (plain_lift _) fun _ => plain_ofText _
  · exact plain_lift _
  · exact plain_bind (plain_itemsOf _) fun _ => plain_lift _
  · exact plain_lookUp _ index
  · exact plain_breach _

@[grind ←]
theorem plain_stretchOf (base : Value) (t : Text) (span : Span) :
    Plain (stretchOf base t span) := by
  unfold stretchOf
  split
  · exact plain_exactText base t
  · split
    · exact plain_ofText _
    · exact plain_ofNewText _

@[grind ←]
theorem plain_iterate (v : Value) : Plain (iterate v) := by
  have entries (r : Ref) (f : Entries → List Value) : Plain (do return f (← entriesOf r)) :=
    plain_bind (plain_entriesOf r) fun _ => plain_pure _
  unfold iterate
  split
  · exact plain_mapM fun c _ => plain_ofText [c]
  · exact plain_mapM fun c _ => plain_ofText [c]
  · exact plain_pure _
  · exact plain_itemsOf _
  · exact entries _ _
  · exact entries _ _
  · exact entries _ _
  · exact plain_bind (plain_entriesOf _) fun _ => plain_mapM fun e _ => plain_ofTuple _
  · exact plain_breach _

end Subscript

namespace Method

@[grind ←]
theorem plain_textOf (v : Value) : Plain (textOf v) :=
  plain_orBreach _ _

theorem plain_intOf (v : Value) : Plain (intOf v) :=
  plain_orBreach _ _

@[grind ←]
theorem plain_wordOf (v : Value) : Plain (wordOf v) := by
  refine plain_bind (plain_intOf v) fun n => ?_
  split
  · exact plain_pure n
  · exact plain_breach _

theorem plain_leftOf (base : Value) (t left : Text) : Plain (leftOf base t left) := by
  unfold leftOf
  split
  · exact plain_exactText base t
  · exact plain_ofText left

@[grind ←]
theorem plain_strip (base : Value) (t : Text) (trim : (Char → Bool) → Text → Text)
    (args : List Value) : Plain (strip base t trim args) := by
  unfold strip
  split
  · exact plain_leftOf base t _
  · exact plain_leftOf base t _
  · exact plain_bind (plain_textOf _) fun chars => plain_leftOf base t _
  · exact plain_breach _

@[grind ←]
theorem plain_replace (base : Value) (t : Text) (args : List Value) :
    Plain (replace base t args) := by
  unfold replace
  split
  · refine plain_bind (plain_textOf _) fun old => plain_bind (plain_textOf _) fun new => ?_
    extract_lets replaced
    have behind (count : Int) : Plain (replaced count) := by
      dsimp only [replaced]
      split
      · exact plain_exactText base t
      · exact plain_ofNewText _
    split
    · exact behind _
    · exact plain_bind (plain_wordOf _) behind
    · exact plain_bind (plain_breach _) behind
  · exact plain_breach _

@[grind ←]
theorem plain_splitArguments (args : List Value) (keywords : Bindings) :
    Plain (splitArguments args keywords) := by
  unfold splitArguments
  dsimp only
  split
  · exact plain_pure _
  · exact plain_pure _
  · exact plain_pure _
  · exact plain_breach _

theorem plain_piecesOf (base : Value) (pieces : List Text) : Plain (piecesOf base pieces) := by
  unfold piecesOf
  split
  · exact plain_pure _
  · exact plain_mapM fun t _ => plain_ofText t

@[grind ←]
theorem plain_splitAtBlanks (base : Value) (t : Text) (limit : Nat) :
    Plain (splitAtBlanks base t limit) := by
  unfold splitAtBlanks
  dsimp only
  split
  · exact plain_piecesOf base _
  · exact plain_mapM fun t _ => plain_ofText t

@[grind ←]
theorem plain_splitAt (base : Value) (t sep : Text) (limit : Nat) :
    Plain (splitAt base t sep limit) := by
  unfold splitAt
  split
  · exact plain_pure _
  · split
    · exact plain_breach _
    · exact plain_piecesOf base _

@[grind ←]
theorem plain_join (sep : Text) (args : List Value) : Plain (join sep args) := by
  unfold join
  split
  · refine plain_bind (Subscript.plain_iterate _) fun items => ?_
    dsimp only
    split
    · exact plain_pure _
    · refine plain_bind (plain_mapM fun v _ => plain_textOf v) fun pieces => ?_
      exact plain_guarded (plain_breach _) (plain_ofNewText _)
  · exact plain_breach _

theorem plain_windowOf (length : Nat) (args : List Value) : Plain (windowOf length args) := by
  refine plain_bind (plain_mapM fun v _ => plain_lift _) fun ends => ?_
  dsimp only
  split
  · exact plain_pure _
  · exact plain_pure _
  · exact plain_pure _
  · exact plain_breach _

theorem plain_matchesAny (test : Text → Text → Bool) (w : Window) (t : Text)
    (needles : List Value) : Plain (matchesAny test w t needles) := by
  induction needles with
  | nil => exact plain_pure false
  | cons v rest ih =>
      refine plain_bind (plain_textOf v) fun needle => ?_
      split
      · exact plain_pure true
      · exact ih

@[grind ←]
theorem plain_matchesEnd (test : Text → Text → Bool) (t : Text) (args : List Value) :
    Plain (matchesEnd test t args) := by
  unfold matchesEnd
  split
  · refine plain_bind (plain_windowOf _ _) fun w => ?_
    split
    · exact plain_bind (plain_matchesAny test w t _) fun _ => plain_pure _
    · exact plain_bind (plain_matchesAny test w t _) fun _ => plain_pure _
  · exact plain_breach _

@[grind ←]
theorem plain_search (found : Window → Text → Int) (absent : Int) (t : Text)
    (args : List Value) : Plain (search found absent t args) := by
  unfold search
  split
  · refine plain_bind (plain_windowOf _ _) fun w => plain_bind (plain_textOf _) fun needle => ?_
    exact plain_ofInt _
  · exact plain_breach _

@[grind ←]
theorem plain_noArguments (args : List Value) : Plain (noArguments args) := by
  unfold noArguments
  split
  · exact plain_pure ()
  · exact plain_breach _

@[grind ←]
theorem plain_changed (args : List Value) (t : Text) : Plain (changed args t) :=
  plain_bind (plain_noArguments args) fun _ => plain_ofNewText t

@[grind ←]
theorem plain_allOf (args : List Value) (p : Char → Bool) (t : Text) :
    Plain (allOf args p t) :=
  plain_bind (plain_noArguments args) fun _ => plain_pure _

theorem plain_indexWindow (length : Nat) (args : List Value) : Plain (indexWindow length args) := by
  refine plain_bind (plain_mapM fun v _ => plain_intOf v) fun ends => ?_
  split
  · exact plain_pure _
  · exact plain_pure _
  · exact plain_pure _
  · exact plain_breach _

@[grind ←]
theorem plain_indexOf (items args : List Value) : Plain (indexOf items args) := by
  unfold indexOf
  split
  · refine plain_bind (plain_indexWindow _ _) fun w => plain_bind plain_get fun s => ?_
    refine plain_bind (plain_lift _) fun found => ?_
    split
    · exact plain_ofInt _
    · exact plain_breach _
  · exact plain_breach _

@[grind ←]
theorem plain_countOf (items args : List Value) : Plain (countOf items args) := by
  unfold countOf
  split
  · refine plain_bind plain_get fun s => plain_bind (plain_lift _) fun n => ?_
    exact plain_ofInt _
  · exact plain_breach _

@[grind ←]
theorem plain_sortItems (items : List Value) (reversed : Bool) :
    Plain (sortItems items reversed) :=
  plain_read _

@[grind ←]
theorem plain_reverseFlag (keywords : Bindings) : Plain (reverseFlag keywords) := by
  unfold reverseFlag
  split
  · refine plain_bind (plain_intOf _) fun n => ?_
    split
    · exact plain_breach _
    · exact plain_pure _
  · exact plain_pure false

@[grind ←]
theorem plain_callTuple (items : List Value) (m : TupleMethod) (args : List Value) :
    Plain (callTuple items m args) := by
  cases m with
  | count => exact plain_countOf items args
  | index => exact plain_indexOf items args

@[grind ←]
theorem plain_keyArguments (args : List Value) : Plain (keyArguments args) := by
  unfold keyArguments
  split
  · exact plain_pure _
  · exact plain_pure _
  · exact plain_breach _

@[grind ←]
theorem plain_dictGet (ref : Ref) (args : List Value) : Plain (dictGet ref args) := by
  refine plain_bind (plain_keyArguments args) fun keyed => ?_
  obtain ⟨key, fallback⟩ := keyed
  refine plain_guarded (plain_breach _) ?_
  exact plain_bind (plain_entriesOf ref) fun _ => plain_pure _

@[grind ←]
theorem plain_view (ref : Ref) (kind : ViewKind) (args : List Value) :
    Plain (view ref kind args) :=
  plain_bind (plain_noArguments args) fun _ => isClosed_plain.tagged _

end Method

namespace Builtin

@[grind ←]
theorem plain_checkArguments (b : Builtin) (given : Nat) (keywords : Bindings) :
    Plain (b.checkArguments given keywords) := by
  unfold checkArguments
  extract_lets keyed bounded
  have of_keyed (u : Unit) : Plain (keyed u) := by
    dsimp only [keyed]
    split
    · exact plain_fail (by simp)
    · exact plain_pure ()
  have of_bounded (u : Unit) : Plain (bounded u) := by
    dsimp only [bounded]
    split
    · exact plain_guarded (plain_fail (by simp)) (of_keyed ())
    · exact of_keyed ()
  exact plain_guarded (plain_fail (by simp)) (of_bounded ())

theorem plain_truncated (x : Float) : Plain (truncated x) := by
  unfold truncated
  split
  · exact plain_ofInt _
  · exact plain_breach _

theorem plain_intOf (v : Value) : Plain (intOf v) := by
  unfold intOf
  split
  · exact plain_pure _
  · exact plain_ofInt _
  · exact plain_truncated _
  · split
    · exact plain_bind (plain_orBreach _ _) fun _ => plain_ofInt _
    · exact plain_breach _

theorem plain_intInBase (t : Text) (base : Value) : Plain (intInBase t base) := by
  unfold intInBase
  split
  · exact plain_breach _
  · split
    · exact plain_bind (plain_orBreach _ _) fun _ => plain_ofInt _
    · exact plain_breach _

@[grind ←]
theorem plain_extreme (op : OrderOp) (args : List Value) (keywords : Bindings) :
    Plain (extreme op args keywords) := by
  unfold extreme
  extract_lets best
  have of_best (items : List Value) : Plain (best items) := by
    cases items with
    | nil => exact plain_breach _
    | cons first rest => exact plain_read _
  split
  · exact plain_bind (Subscript.plain_iterate _) of_best
  · exact of_best args

@[grind ←]
theorem plain_emptySum (start : Value) : Plain (emptySum start) := by
  unfold emptySum
  split
  · split
    · exact plain_ofInt _
    · exact plain_pure _
  · exact plain_ofFloat _
  · exact plain_pure _

theorem plain_roundWhole (v : Value) : Plain (roundWhole v) := by
  unfold roundWhole
  split
  · exact plain_pure _
  · exact plain_ofInt _
  · split
    · exact plain_ofInt _
    · exact plain_breach _
  · exact plain_breach _

theorem plain_roundTo (v places : Value) : Plain (roundTo v places) := by
  refine plain_bind (Method.plain_intOf places) fun n => ?_
  split
  · exact plain_bind (plain_orBreach _ _) fun _ => plain_ofFloat _
  · refine plain_bind (Method.plain_intOf v) fun m => ?_
    split
    · exact plain_roundWhole v
    · exact plain_ofInt _

@[grind ←]
theorem plain_length (args : List Value) (keywords : Bindings) : Plain (length args keywords) := by
  unfold length
  split
  · split
    · exact plain_ofInt _
    · exact plain_ofInt _
    · exact plain_ofInt _
    · exact plain_bind (plain_itemsOf _) fun _ => plain_ofInt _
    · exact plain_bind (plain_entriesOf _) fun _ => plain_ofInt _
    · exact plain_fail (by simp)
  · exact plain_breach _

@[grind ←]
theorem plain_toText (args : List Value) (keywords : Bindings) : Plain (toText args keywords) := by
  unfold toText
  split
  · exact plain_toShown _
  · exact plain_ofText _

@[grind ←]
theorem plain_toInt (args : List Value) (keywords : Bindings) : Plain (toInt args keywords) := by
  unfold toInt
  split
  · exact plain_ofInt 0
  · exact plain_intOf _
  · split
    · exact plain_intInBase _ _
    · exact plain_fail (by simp)

@[grind ←]
theorem plain_toFloat (args : List Value) (keywords : Bindings) :
    Plain (toFloat args keywords) := by
  unfold toFloat
  split
  · exact plain_ofFloat 0
  · split
    · exact plain_pure _
    · split
      · exact plain_bind (plain_orBreach _ _) fun _ => plain_ofFloat _
      · exact plain_bind (plain_orBreach _ _) fun _ => plain_ofFloat _
      · exact plain_breach _

@[grind ←]
theorem plain_toBool (args : List Value) (keywords : Bindings) : Plain (toBool args keywords) := by
  unfold toBool
  split
  · exact plain_bind plain_get fun s => plain_pure _
  · exact plain_pure _

@[grind ←]
theorem plain_absolute (args : List Value) (keywords : Bindings) :
    Plain (absolute args keywords) := by
  unfold absolute
  split
  · split
    · exact plain_ofInt _
    · exact plain_pure _
  · exact plain_ofInt _
  · exact plain_ofFloat _
  · dsimp only
    split
    · exact plain_breach _
    · exact plain_ofFloat _
  · exact plain_breach _

@[grind ←]
theorem plain_round (args : List Value) (keywords : Bindings) : Plain (round args keywords) := by
  unfold round
  split
  · exact plain_roundWhole _
  · exact plain_roundWhole _
  · exact plain_roundTo _ _
  · exact plain_breach _

end Builtin

namespace Evaluate

theorem plain_literal (l : Literal) : Plain (literal l) := by
  cases l with
  | none | bool => exact plain_pure _
  | int n => exact plain_ofInt _
  | float x => exact plain_ofFloat x
  | text t => exact plain_ofText t
  | joined t => exact plain_ofNewText t

@[grind ←]
theorem plain_format (v : Value) (spec : Text) : Plain (format v spec) := by
  unfold format
  split
  · exact plain_toShown v
  · split
    · refine plain_bind (plain_lift _) fun spec => plain_bind (plain_lift _) fun formatted => ?_
      split
      · exact plain_exactText v _
      · exact plain_ofText formatted
    · refine plain_bind (plain_lift _) fun spec => plain_bind (plain_lift _) fun t => ?_
      exact plain_ofText t
    · refine plain_bind (plain_lift _) fun spec => plain_bind (plain_lift _) fun t => ?_
      exact plain_ofText t
    · refine plain_bind (plain_lift _) fun spec => plain_bind (plain_lift _) fun t => ?_
      exact plain_ofText t
    · exact plain_breach _

@[grind ←]
theorem plain_convert (conversion : Option Conversion) (v : Value) :
    Plain (convert conversion v) := by
  unfold convert
  split
  · exact plain_pure v
  · exact plain_toShown v
  · exact plain_toWritten v

@[grind ←]
theorem plain_isTrue (v : Value) : Plain (isTrue v) :=
  plain_bind plain_get fun _ => plain_pure _

@[grind ←]
theorem plain_joinParts (parts : List Value) : Plain (joinParts parts) := by
  unfold joinParts
  split
  · exact plain_pure _
  · exact plain_ofNewText _

end Evaluate

end Snippet
