import Snippet.Proofs.Eval.Plain

/-!
Results that hold nothing. Numbers and texts hold no other value, so that what gives one of them
cannot pass on a list, a dict, a tuple or a function.
-/

set_option autoImplicit false

namespace Snippet

variable {α β : Type}

/-- Neither a container nor a view of one, nor a function. -/
def Value.isFree : Value → Bool
  | .tuple .. | .list _ | .dict _ | .view .. | .builtin _ => false
  | _ => true

theorem Value.isFree_of_text {v : Value} {t : Text} (shown : v.text? = some t) :
    v.isFree = true := by
  cases v <;> first | rfl | cases shown

namespace Eval

/-- What holds of every result. -/
def Yields (m : Eval α) (P : α → Prop) : Prop :=
  ∀ s a s', m s = .ok a s' → P a

namespace Yields

variable {P : α → Prop} {R : β → Prop} {m : Eval α} {next : α → Eval β}

theorem pure {a : α} (h : P a) : Yields (pure a) P := by
  rintro s b s' ⟨⟩
  exact h

theorem bind (first : Yields m P) (then_ : ∀ a, P a → Yields (next a) R) :
    Yields (m >>= next) R := by
  intro s b s' ran
  obtain ⟨a, after, here, later⟩ := run_bind_eq_ok.mp ran
  exact then_ a (first s a after here) after b s' later

theorem any (m : Eval α) : Yields m fun _ => True :=
  fun _ _ _ _ => trivial

theorem bind_any (then_ : ∀ a, Yields (next a) R) : Yields (m >>= next) R :=
  (any m).bind fun a _ => then_ a

theorem throw (fault : Fault) : Yields (throw fault : Eval α) P :=
  nofun

theorem lift {r : Except Breach α} (h : ∀ a, r = .ok a → P a) : Yields (Eval.lift r) P := by
  cases r with
  | ok a => exact pure (h a rfl)
  | error b => exact throw _

end Yields

/-- Gives numbers and texts only. -/
def Frees (m : Eval Value) : Prop :=
  Yields m fun v => v.isFree = true

variable {m : Eval α} {next : α → Eval Value}

theorem frees_pure {v : Value} (h : v.isFree = true) : Frees (pure v) :=
  Yields.pure h

theorem frees_bind (then_ : ∀ a, Frees (next a)) : Frees (m >>= next) :=
  Yields.bind_any then_

theorem frees_throw (fault : Fault) : Frees (throw fault) :=
  Yields.throw fault

theorem frees_fail (c : Cause) : Frees (fail c) :=
  frees_throw _

theorem frees_breach (b : Breach) : Frees (breach b) :=
  frees_throw _

end Eval

open Eval (Frees Yields)

namespace Value

-- A number or a text with a new tag.
theorem frees_tagged {f : Tag → Value} (free : ∀ tag, (f tag).isFree = true) :
    Frees (do return f (← Eval.newTag)) :=
  Eval.frees_bind fun tag => Eval.frees_pure (free tag)

theorem frees_ofInt (n : Int) : Frees (ofInt n) := by
  unfold ofInt
  split
  · exact Eval.frees_pure rfl
  · exact frees_tagged fun _ => rfl

theorem frees_ofNat (n : Nat) : Frees (ofNat n) :=
  frees_ofInt n

theorem frees_ofFloat (x : Float) : Frees (ofFloat x) :=
  frees_tagged fun _ => rfl

theorem frees_ofComplex (z : Complex) : Frees (ofComplex z) :=
  frees_tagged fun _ => rfl

theorem frees_ofText (t : Text) : Frees (ofText t) := by
  unfold ofText
  split
  · exact Eval.frees_pure rfl
  · exact frees_tagged fun _ => rfl

theorem frees_ofNewText (t : Text) : Frees (ofNewText t) := by
  unfold ofNewText
  split
  · exact Eval.frees_pure rfl
  · exact frees_tagged fun _ => rfl

theorem frees_exactText {v : Value} (t : Text) (free : v.isFree = true) :
    Frees (exactText v t) := by
  unfold exactText
  split
  · exact frees_ofNewText t
  · exact Eval.frees_pure free

theorem frees_toWritten (v : Value) : Frees v.toWritten := by
  refine Eval.frees_bind fun s => Eval.frees_bind fun t => ?_
  split
  · exact Eval.frees_pure rfl
  · exact frees_ofNewText t

theorem frees_toShown (v : Value) : Frees v.toShown := by
  unfold toShown
  split
  · exact frees_exactText _ rfl
  · exact frees_exactText _ rfl
  · exact frees_toWritten _

end Value

namespace Format

/-- A text value that stands for itself holds nothing. -/
def Piece.IsFree (p : Piece) : Prop :=
  ∀ v ∈ p.value, v.isFree = true

theorem Piece.isFree_plain (t : Text) : (Piece.plain t).IsFree :=
  nofun

theorem frees_shownBody (code : Char) (v : Value) : Frees (shownBody code v) := by
  rw [shownBody]
  split
  · exact Value.frees_toShown v
  · refine (Value.frees_toWritten v).bind fun written free => ?_
    dsimp only
    split
    · exact Eval.frees_pure free
    · exact Value.frees_ofNewText _

/-- A value among the bodies holds nothing. -/
def Body.IsFree : Body → Prop
  | .shown v => v.isFree = true
  | _ => True

theorem Body.isFree_integer (d : Directive) (code : Char) (v : Value) :
    Yields (Eval.lift (integerBody d code v)) Body.IsFree := by
  refine Yields.lift fun body done => ?_
  simp only [integerBody, bind_eq_ok] at done
  obtain ⟨n, -, done⟩ := done
  split at done
  · cases done
  · obtain ⟨digits, -, ⟨⟩⟩ := bind_eq_ok.mp done
    trivial

theorem Body.isFree_float (d : Directive) (code : Char) (v : Value) :
    Yields (Eval.lift (floatBody d code v)) Body.IsFree := by
  refine Yields.lift fun body done => ?_
  obtain ⟨x, -, done⟩ := bind_eq_ok.mp done
  split at done
  · cases done
  · cases done
    trivial

theorem Body.isFree_of (d : Directive) (code : Char) (v : Value) :
    Yields (bodyOf d code v) Body.IsFree := by
  rw [bodyOf]
  split
  · exact (frees_shownBody code v).bind fun shown free => Yields.pure free
  · split
    · exact Yields.bind_any fun t => Yields.pure trivial
    · split
      · exact Body.isFree_integer d code v
      · split
        · exact Body.isFree_float d code v
        · exact Yields.throw _

theorem Piece.isFree_write (d : Directive) (code : Char) (v : Value) {body : Body}
    (free : body.IsFree) : Yields (d.write code v body) Piece.IsFree := by
  unfold Directive.write
  dsimp only
  split
  · exact Yields.pure (Piece.isFree_plain _)
  · cases body with
    | text t => exact Yields.pure (Piece.isFree_plain _)
    | shown v =>
        refine Yields.pure fun w same => ?_
        dsimp only at same
        split at same
        · cases same
          exact free
        · cases same
    | number p =>
        dsimp only
        split
        · refine (Value.frees_ofNewText _).bind fun w of_w => Yields.pure ?_
          rintro v ⟨⟩
          exact of_w
        · exact Yields.pure (Piece.isFree_plain _)

theorem Piece.isFree_fillDirective (t : Text) (s : Supply) :
    Yields (fillDirective t s) fun r => r.1.IsFree := by
  unfold fillDirective
  extract_lets filled
  have behind (p : Supply × Text) : Yields (filled p) fun r => r.1.IsFree := by
    refine Yields.bind_any fun width => Yields.bind_any fun precision => ?_
    obtain ⟨d, s, t⟩ := precision
    dsimp only
    split
    · exact Yields.throw _
    · refine Yields.bind_any fun taken => ?_
      obtain ⟨v, s⟩ := taken
      refine (Body.isFree_of d _ v).bind fun body free => ?_
      dsimp only
      split
      · exact Yields.throw _
      · exact (Piece.isFree_write d _ v free).bind fun piece of_piece => Yields.pure of_piece
  clear_value filled
  split
  · split
    · exact Yields.throw _
    · split
      · exact Yields.bind_any fun s => behind _
      · exact Yields.throw _
  · exact behind _

theorem frees_joinPieces {pieces : List Piece} (free : ∀ p ∈ pieces, p.IsFree) :
    Frees (joinPieces pieces) := by
  fun_cases joinPieces pieces with
  | case1 =>
      exact Eval.frees_pure (free _ List.mem_cons_self _ rfl)
  | case2 | case3 => exact Value.frees_ofText _

theorem frees_fillFrom (turns : Nat) (t : Text) (s : Supply) {pieces : List Piece}
    (free : ∀ p ∈ pieces, p.IsFree) : Frees (fillFrom turns t s pieces) := by
  fun_induction fillFrom turns t s pieces with
  | case1 => exact frees_joinPieces free
  | case2 => exact Eval.frees_throw _
  | case3 => exact frees_joinPieces free
  | case4 turns s pieces rest ih =>
      exact ih (List.forall_mem_cons.mpr ⟨Piece.isFree_plain _, free⟩)
  | case5 turns s pieces rest _ ih =>
      refine (Piece.isFree_fillDirective rest s).bind fun filled of_piece => ?_
      exact ih _ _ _ (List.forall_mem_cons.mpr ⟨of_piece, free⟩)
  | case6 turns t s pieces _ _ _ ih =>
      exact ih (List.forall_mem_cons.mpr ⟨Piece.isFree_plain _, free⟩)

theorem frees_fillTemplate (template : Text) (operand : Value) :
    Frees (fillTemplate template operand) :=
  frees_fillFrom _ _ _ nofun

end Format

namespace Operator

theorem frees_addTexts {a b : Value} (s t : Text) (of_a : a.isFree = true)
    (of_b : b.isFree = true) : Frees (addTexts a b s t) := by
  unfold addTexts
  split
  · exact Value.frees_exactText t of_b
  · split
    · exact Value.frees_exactText s of_a
    · exact Value.frees_ofNewText _

theorem frees_addNumbers (a b : Value) : Frees (addNumbers a b) := by
  refine Eval.frees_bind fun pair => ?_
  cases pair with
  | ints m n => exact Value.frees_ofInt _
  | floats x y => exact Value.frees_ofFloat _
  | complexes z w => exact Value.frees_ofComplex _

theorem frees_mulNumbers (a b : Value) : Frees (mulNumbers a b) := by
  refine Eval.frees_bind fun pair => ?_
  cases pair with
  | ints m n => exact Value.frees_ofInt _
  | floats x y => exact Value.frees_ofFloat _
  | complexes z w => exact Value.frees_ofComplex _

theorem frees_modNumbers (a b : Value) : Frees (modNumbers a b) := by
  refine Eval.frees_bind fun pair => ?_
  cases pair with
  | ints m n =>
      dsimp only
      split
      · exact Eval.frees_breach _
      · split
        · exact Eval.frees_pure rfl
        · exact Value.frees_ofInt _
  | floats x y =>
      dsimp only
      split
      · exact Eval.frees_breach _
      · exact Value.frees_ofFloat _
  | complexes z w => exact Eval.frees_breach _

theorem frees_fill {base : Value} (template : Text) (operand : Value)
    (free : base.isFree = true) : Frees (fill base template operand) := by
  refine (Format.frees_fillTemplate template operand).bind fun filled of_filled => ?_
  split
  · exact Eval.frees_pure free
  · exact Eval.frees_pure of_filled

end Operator

namespace Method

theorem frees_leftOf {base : Value} (t left : Text) (free : base.isFree = true) :
    Frees (leftOf base t left) := by
  unfold leftOf
  split
  · exact Value.frees_exactText t free
  · exact Value.frees_ofText left

theorem frees_strip {base : Value} (t : Text) (trim : (Char → Bool) → Text → Text)
    (args : List Value) (free : base.isFree = true) : Frees (strip base t trim args) := by
  unfold strip
  split
  · exact frees_leftOf t _ free
  · exact frees_leftOf t _ free
  · exact Eval.frees_bind fun chars => frees_leftOf t _ free
  · exact Eval.frees_breach _

theorem frees_replace {base : Value} (t : Text) (args : List Value) (free : base.isFree = true) :
    Frees (replace base t args) := by
  unfold replace
  split
  · refine Eval.frees_bind fun old => Eval.frees_bind fun new => ?_
    extract_lets replaced
    have behind (count : Int) : Frees (replaced count) := by
      dsimp only [replaced]
      split
      · exact Value.frees_exactText t free
      · exact Value.frees_ofNewText _
    split
    · exact behind _
    · exact Eval.frees_bind behind
    · exact Eval.frees_bind behind
  · exact Eval.frees_breach _

theorem frees_join (sep : Text) (args : List Value) : Frees (join sep args) := by
  unfold join
  split
  · refine Eval.frees_bind fun items => ?_
    dsimp only
    split
    · exact Eval.frees_pure rfl
    · refine Eval.frees_bind fun pieces => ?_
      split
      · exact Eval.frees_bind fun _ => Value.frees_ofNewText _
      · exact Value.frees_ofNewText _
  · exact Eval.frees_breach _

theorem frees_matchesEnd (test : Text → Text → Bool) (t : Text) (args : List Value) :
    Frees (matchesEnd test t args) := by
  unfold matchesEnd
  split
  · refine Eval.frees_bind fun w => ?_
    split
    · exact Eval.frees_bind fun _ => Eval.frees_pure rfl
    · exact Eval.frees_bind fun _ => Eval.frees_pure rfl
  · exact Eval.frees_breach _

theorem frees_search (found : Window → Text → Int) (absent : Int) (t : Text)
    (args : List Value) : Frees (search found absent t args) := by
  unfold search
  split
  · exact Eval.frees_bind fun w => Eval.frees_bind fun needle => Value.frees_ofInt _
  · exact Eval.frees_breach _

theorem frees_changed (args : List Value) (t : Text) : Frees (changed args t) :=
  Eval.frees_bind fun _ => Value.frees_ofNewText t

theorem frees_allOf (args : List Value) (p : Char → Bool) (t : Text) :
    Frees (allOf args p t) :=
  Eval.frees_bind fun _ => Eval.frees_pure rfl

theorem frees_indexOf (items args : List Value) : Frees (indexOf items args) := by
  unfold indexOf
  split
  · refine Eval.frees_bind fun w => Eval.frees_bind fun s => Eval.frees_bind fun found => ?_
    split
    · exact Value.frees_ofNat _
    · exact Eval.frees_breach _
  · exact Eval.frees_breach _

theorem frees_countOf (items args : List Value) : Frees (countOf items args) := by
  unfold countOf
  split
  · exact Eval.frees_bind fun s => Eval.frees_bind fun n => Value.frees_ofNat n
  · exact Eval.frees_breach _

end Method

namespace Builtin

theorem frees_truncated (x : Float) : Frees (truncated x) := by
  unfold truncated
  split
  · exact Value.frees_ofInt _
  · exact Eval.frees_breach _

theorem frees_intOf (v : Value) : Frees (intOf v) := by
  unfold intOf
  split
  · exact Eval.frees_pure rfl
  · exact Value.frees_ofInt _
  · exact frees_truncated _
  · split
    · exact Eval.frees_bind fun n => Value.frees_ofInt n
    · exact Eval.frees_breach _

theorem frees_intInBase (t : Text) (base : Value) : Frees (intInBase t base) := by
  unfold intInBase
  split
  · exact Eval.frees_breach _
  · split
    · exact Eval.frees_bind fun n => Value.frees_ofInt n
    · exact Eval.frees_breach _

theorem frees_length (args : List Value) (keywords : Bindings) : Frees (length args keywords) := by
  unfold length
  split
  · split
    · exact Value.frees_ofNat _
    · exact Value.frees_ofNat _
    · exact Value.frees_ofNat _
    · exact Eval.frees_bind fun items => Value.frees_ofNat _
    · exact Eval.frees_bind fun entries => Value.frees_ofNat _
    · exact Eval.frees_fail _
  · exact Eval.frees_breach _

theorem frees_toText (args : List Value) (keywords : Bindings) : Frees (toText args keywords) := by
  unfold toText
  split
  · exact Value.frees_toShown _
  · exact Value.frees_ofText _

theorem frees_toInt (args : List Value) (keywords : Bindings) : Frees (toInt args keywords) := by
  unfold toInt
  split
  · exact Value.frees_ofInt 0
  · exact frees_intOf _
  · split
    · exact frees_intInBase _ _
    · exact Eval.frees_fail _

theorem frees_toFloat (args : List Value) (keywords : Bindings) :
    Frees (toFloat args keywords) := by
  unfold toFloat
  split
  · exact Value.frees_ofFloat 0
  · split
    · exact Eval.frees_pure rfl
    · split
      · exact Eval.frees_bind fun x => Value.frees_ofFloat x
      · exact Eval.frees_bind fun x => Value.frees_ofFloat x
      · exact Eval.frees_breach _

theorem frees_toBool (args : List Value) (keywords : Bindings) : Frees (toBool args keywords) := by
  unfold toBool
  split
  · exact Eval.frees_bind fun s => Eval.frees_pure rfl
  · exact Eval.frees_pure rfl

theorem frees_absolute (args : List Value) (keywords : Bindings) :
    Frees (absolute args keywords) := by
  unfold absolute
  split
  · split
    · exact Value.frees_ofInt _
    · exact Eval.frees_pure rfl
  · exact Value.frees_ofInt _
  · exact Value.frees_ofFloat _
  · dsimp only
    split
    · exact Eval.frees_breach _
    · exact Value.frees_ofFloat _
  · exact Eval.frees_breach _

theorem frees_roundWhole (v : Value) : Frees (roundWhole v) := by
  unfold roundWhole
  split
  · exact Eval.frees_pure rfl
  · exact Value.frees_ofInt _
  · split
    · exact Value.frees_ofInt _
    · exact Eval.frees_breach _
  · exact Eval.frees_breach _

theorem frees_roundTo (v places : Value) : Frees (roundTo v places) := by
  refine Eval.frees_bind fun places => ?_
  split
  · exact Eval.frees_bind fun x => Value.frees_ofFloat x
  · refine Eval.frees_bind fun n => ?_
    split
    · exact frees_roundWhole v
    · exact Value.frees_ofInt _

theorem frees_round (args : List Value) (keywords : Bindings) : Frees (round args keywords) := by
  unfold round
  split
  · exact frees_roundWhole _
  · exact frees_roundWhole _
  · exact frees_roundTo _ _
  · exact Eval.frees_breach _

end Builtin

namespace Evaluate

theorem frees_format (v : Value) (spec : Text) : Frees (format v spec) := by
  unfold format
  split
  · exact Value.frees_toShown v
  · split
    · rename_i shown
      refine Eval.frees_bind fun spec => Eval.frees_bind fun formatted => ?_
      split
      · exact Value.frees_exactText _ (Value.isFree_of_text shown)
      · exact Value.frees_ofText formatted
    · exact Eval.frees_bind fun spec => Eval.frees_bind fun t => Value.frees_ofText t
    · exact Eval.frees_bind fun spec => Eval.frees_bind fun t => Value.frees_ofText t
    · exact Eval.frees_bind fun spec => Eval.frees_bind fun t => Value.frees_ofText t
    · exact Eval.frees_breach _

theorem frees_joinParts {parts : List Value} (free : ∀ v ∈ parts, v.isFree = true) :
    Frees (joinParts parts) := by
  unfold joinParts
  split
  · exact Eval.frees_pure (free _ List.mem_cons_self)
  · exact Value.frees_ofNewText _

end Evaluate

end Snippet
