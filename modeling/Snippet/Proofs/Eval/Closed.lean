import Snippet.Eval.Evaluate

/-!
Kinds of evaluations. What is put together from reading the store and counting tags, and fails with
breaches or for a missing key only, belongs to every kind that is closed under these steps. Values
are made and templates are filled in this way.
-/

set_option autoImplicit false

namespace Snippet

variable {α β : Type}

/-- A kind of evaluations that holds the steps that change no list and no dict and fail with no
cause, and what is put together from evaluations of the kind. -/
structure Eval.IsClosed (P : {α : Type} → Eval α → Prop) : Prop where
  pure {α : Type} (a : α) : P (pure a)
  bind {α β : Type} {m : Eval α} {k : α → Eval β} : P m → (∀ a, P (k a)) → P (m >>= k)
  breach {α : Type} (b : Breach) : P (Eval.breach b : Eval α)
  missingKey {α : Type} (key : Value) : P (throw (.missingKey key) : Eval α)
  get : P (get : Eval Store)
  newTag : P Eval.newTag

namespace Eval.IsClosed

variable {P : {α : Type} → Eval α → Prop} (closed : IsClosed P)
include closed

theorem lift (r : Except Breach α) : P (Eval.lift r) := by
  cases r with
  | ok a => exact closed.pure a
  | error b => exact closed.breach b

theorem orBreach (b : Breach) (o : Option α) : P (Eval.orBreach b o) := by
  cases o with
  | none => exact closed.breach b
  | some a => exact closed.pure a

theorem itemsOf (ref : Ref) : P (Eval.itemsOf ref) :=
  closed.bind closed.get fun _ => closed.pure _

theorem entriesOf (ref : Ref) : P (Eval.entriesOf ref) :=
  closed.bind closed.get fun _ => closed.pure _

/-! ### Values -/

-- A value with a new tag.
theorem tagged (f : Tag → Value) : P (do return f (← Eval.newTag)) :=
  closed.bind closed.newTag fun _ => closed.pure _

theorem ofInt (n : Int) : P (Value.ofInt n) := by
  unfold Value.ofInt
  split
  · exact closed.pure _
  · exact closed.tagged _

theorem ofText (t : Text) : P (Value.ofText t) := by
  unfold Value.ofText
  split
  · exact closed.pure _
  · exact closed.tagged _

theorem ofNewText (t : Text) : P (Value.ofNewText t) := by
  unfold Value.ofNewText
  split
  · exact closed.pure _
  · exact closed.tagged _

theorem exactText (v : Value) (t : Text) : P (Value.exactText v t) := by
  unfold Value.exactText
  split
  · exact closed.ofNewText t
  · exact closed.pure v

theorem toWritten (v : Value) : P v.toWritten := by
  unfold Value.toWritten
  refine closed.bind closed.get fun s => closed.bind (closed.lift _) fun t => ?_
  split
  · exact closed.pure _
  · exact closed.ofNewText t

theorem toShown (v : Value) : P v.toShown := by
  unfold Value.toShown
  split
  · exact closed.exactText _ _
  · exact closed.exactText _ _
  · exact closed.toWritten _

theorem mapM {f : α → Eval β} {xs : List α} (each : ∀ a ∈ xs, P (f a)) : P (xs.mapM f) := by
  induction xs with
  | nil => exact closed.pure []
  | cons a rest ih =>
      rw [List.mapM_cons]
      refine closed.bind (each a List.mem_cons_self) fun b => ?_
      refine closed.bind (ih fun c member => each c (List.mem_cons_of_mem a member)) fun bs => ?_
      exact closed.pure _

/-! ### Templates -/

open Format

theorem take (s : Supply) : P s.take := by
  unfold Supply.take
  split
  · exact closed.pure _
  · exact closed.breach _

theorem select (s : Supply) (key : Text) : P (s.select key) := by
  unfold Supply.select
  split
  · refine closed.bind (closed.ofText key) fun name => ?_
    refine closed.bind (closed.entriesOf _) fun entries => ?_
    split
    · exact closed.pure _
    · exact closed.missingKey name
  · exact closed.breach _

theorem takeSize (bound : Nat) (s : Supply) : P (takeSize bound s) := by
  refine closed.bind (closed.take s) fun taken => ?_
  obtain ⟨v, s⟩ := taken
  dsimp only
  split
  · exact closed.breach _
  · split
    · exact closed.breach _
    · exact closed.pure _

theorem readWidth (d : Directive) (s : Supply) (t : Text) : P (readWidth d s t) := by
  unfold Format.readWidth
  split
  · exact closed.bind (closed.takeSize _ s) fun _ => closed.pure _
  · exact closed.pure _

theorem readPrecision (d : Directive) (s : Supply) (t : Text) : P (readPrecision d s t) := by
  unfold Format.readPrecision
  split
  · exact closed.bind (closed.takeSize _ s) fun _ => closed.pure _
  · exact closed.pure _
  · exact closed.pure _

theorem shownBody (code : Char) (v : Value) : P (shownBody code v) := by
  unfold Format.shownBody
  split
  · exact closed.toShown v
  · refine closed.bind (closed.toWritten v) fun written => ?_
    dsimp only
    split
    · exact closed.pure _
    · exact closed.ofNewText _

theorem bodyOf (d : Directive) (code : Char) (v : Value) : P (bodyOf d code v) := by
  unfold Format.bodyOf
  split
  · exact closed.bind (closed.shownBody code v) fun _ => closed.pure _
  · split
    · exact closed.bind (closed.lift _) fun _ => closed.pure _
    · split
      · exact closed.lift _
      · split
        · exact closed.lift _
        · exact closed.breach _

theorem write (d : Directive) (code : Char) (v : Value) (body : Body) : P (d.write code v body) := by
  unfold Directive.write
  dsimp only
  split
  · exact closed.pure _
  · split
    · exact closed.pure _
    · split
      · exact closed.bind (closed.ofNewText _) fun _ => closed.pure _
      · exact closed.pure _
    · exact closed.pure _

theorem fillDirective (t : Text) (s : Supply) : P (fillDirective t s) := by
  unfold Format.fillDirective
  extract_lets filled
  have behind (p : Supply × Text) : P (filled p) := by
    refine closed.bind (closed.readWidth _ _ _) fun width => ?_
    refine closed.bind (closed.readPrecision _ _ _) fun precision => ?_
    obtain ⟨d, s, t⟩ := precision
    dsimp only
    split
    · exact closed.breach _
    · refine closed.bind (closed.take s) fun taken => ?_
      obtain ⟨v, s⟩ := taken
      refine closed.bind (closed.bodyOf d _ v) fun body => ?_
      dsimp only
      split
      · exact closed.breach _
      · exact closed.bind (closed.write d _ v body) fun _ => closed.pure _
  clear_value filled
  split
  · split
    · exact closed.breach _
    · split
      · exact closed.bind (closed.select s _) fun _ => behind _
      · exact closed.breach _
  · exact behind _

theorem joinPieces (pieces : List Piece) : P (joinPieces pieces) := by
  unfold Format.joinPieces
  dsimp only
  split
  · split
    · exact closed.pure _
    · exact closed.ofText _
  · exact closed.ofText _

theorem fillFrom (turns : Nat) (t : Text) (s : Supply) (pieces : List Piece) :
    P (fillFrom turns t s pieces) := by
  induction turns generalizing t s pieces with
  | zero => exact closed.joinPieces pieces
  | succ turns ih =>
      unfold Format.fillFrom
      split
      · split
        · exact closed.breach _
        · exact closed.joinPieces pieces
      · exact ih _ _ _
      · exact closed.bind (closed.fillDirective _ s) fun _ => ih _ _ _
      · exact ih _ _ _

/-- Filling a template belongs to every such kind. -/
theorem fillTemplate (template : Text) (operand : Value) : P (fillTemplate template operand) :=
  closed.fillFrom _ _ _ _

end Eval.IsClosed
end Snippet
