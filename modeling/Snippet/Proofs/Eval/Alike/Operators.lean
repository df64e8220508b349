import Snippet.Proofs.Eval.Alike.Templates

/-!
Operators see no identities, but for the comparisons that ask for them: those agree on what is the
same value.
-/

set_option autoImplicit false

namespace Snippet

open Eval (Alike)
open Value

variable {ρ : Renaming} {n : Nat} {a b v : Value}

namespace Operator

/-! ### Numbers -/

@[simp]
theorem pairOf_rename : pairOf (a.rename ρ) (b.rename ρ) = pairOf a b := by
  simp only [pairOf, ofValue?_rename]

@[simp]
theorem realPairOf_rename : realPairOf (a.rename ρ) (b.rename ρ) = realPairOf a b := by
  simp only [realPairOf, ofValue?_rename, pairOf_rename]

theorem alike_onPair (onInts : Int → Int → Int) (onFloats : Float → Float → Float)
    (onComplexes : Complex → Complex → Complex) {pair pair' : Except Breach Pair} (same : pair' = pair) :
    Alike ρ n (Renamed ρ)
      (do match ← Eval.lift pair with
        | .ints i j => ofInt (onInts i j)
        | .floats x y => ofFloat (onFloats x y)
        | .complexes z w => ofComplex (onComplexes z w))
      (do match ← Eval.lift pair' with
        | .ints i j => ofInt (onInts i j)
        | .floats x y => ofFloat (onFloats x y)
        | .complexes z w => ofComplex (onComplexes z w)) := by
  subst same
  refine .lift_bind _ fun pair _ => ?_
  cases pair with
  | ints => exact alike_ofInt _
  | floats => exact alike_ofFloat _
  | complexes => exact alike_ofComplex _

theorem alike_addNumbers :
    Alike ρ n (Renamed ρ) (addNumbers a b) (addNumbers (a.rename ρ) (b.rename ρ)) :=
  alike_onPair (· + ·) (· + ·) Complex.add pairOf_rename

theorem alike_sub : Alike ρ n (Renamed ρ) (sub a b) (sub (a.rename ρ) (b.rename ρ)) :=
  alike_onPair (· - ·) (· - ·) Complex.sub pairOf_rename

theorem alike_mulNumbers :
    Alike ρ n (Renamed ρ) (mulNumbers a b) (mulNumbers (a.rename ρ) (b.rename ρ)) :=
  alike_onPair (· * ·) (· * ·) Complex.mul pairOf_rename

theorem alike_div : Alike ρ n (Renamed ρ) (div a b) (div (a.rename ρ) (b.rename ρ)) := by
  rw [div, div, pairOf_rename]
  refine .lift_bind _ fun pair _ => ?_
  cases pair with
  | ints =>
      exact .ite (fun _ => .breach _) fun _ => .orBreach_bind _ _ fun x _ => alike_ofFloat x
  | floats => exact .ite (fun _ => .breach _) fun _ => alike_ofFloat _
  | complexes => exact .orBreach_bind _ _ fun z _ => alike_ofComplex z

theorem alike_floorDiv : Alike ρ n (Renamed ρ) (floorDiv a b) (floorDiv (a.rename ρ) (b.rename ρ)) := by
  rw [floorDiv, floorDiv, realPairOf_rename]
  refine .lift_bind _ fun pair _ => ?_
  cases pair with
  | ints => exact .ite (fun _ => .breach _) fun _ => alike_ofInt _
  | floats => exact .ite (fun _ => .breach _) fun _ => alike_ofFloat _
  | complexes => exact .breach _

theorem alike_modNumbers (below : a.Below n) :
    Alike ρ n (Renamed ρ) (modNumbers a b) (modNumbers (a.rename ρ) (b.rename ρ)) := by
  rw [modNumbers, modNumbers, realPairOf_rename]
  refine .lift_bind _ fun pair _ => ?_
  cases pair with
  | ints i j =>
      refine .ite (fun _ => .breach _) fun _ => ?_
      have other : Alike ρ n (Renamed ρ) (ofInt (Int.fmod i j)) (ofInt (Int.fmod i j)) := alike_ofInt _
      cases a with
      | int =>
          cases isOwnRemainder i j with
          | false => exact other
          | true => exact .pure ⟨rfl, below⟩
      | _ => exact other
  | floats => exact .ite (fun _ => .breach _) fun _ => alike_ofFloat _
  | complexes => exact .breach _

theorem alike_floatPower (x y : Float) : Alike ρ n (Renamed ρ) (floatPower x y) (floatPower x y) := by
  unfold floatPower
  cases Real.power x y with
  | real r => exact alike_ofFloat r
  | failed why => cases why <;> exact .breach _
  | offLine =>
      dsimp only
      cases (Complex.ofReal x).pow (.ofReal y) with
      | ok z => exact alike_ofComplex z
      | error why => cases why <;> exact .breach _

theorem alike_powNumbers :
    Alike ρ n (Renamed ρ) (powNumbers a b) (powNumbers (a.rename ρ) (b.rename ρ)) := by
  rw [powNumbers, powNumbers, pairOf_rename]
  refine .lift_bind _ fun pair _ => ?_
  cases pair with
  | ints i j =>
      refine .ite (fun _ => alike_ofInt _) fun _ => ?_
      exact .lift_bind _ fun x _ => .lift_bind _ fun y _ => alike_floatPower x y
  | floats x y => exact alike_floatPower x y
  | complexes z w =>
      dsimp only
      cases z.pow w with
      | ok z => exact alike_ofComplex z
      | error why => cases why <;> exact .breach _

theorem alike_pow : Alike ρ n (Renamed ρ) (pow a b) (pow (a.rename ρ) (b.rename ρ)) := by
  simp only [pow, int?_rename]
  split
  · split
    · exact .fail_bind _
    · exact alike_powNumbers
  · exact alike_powNumbers

/-! ### Sums -/

theorem isEmptyText_rename : isEmptyText (v.rename ρ) = isEmptyText v := by
  cases v <;> rfl

theorem alike_addTexts (ofA : a.Below n) (ofB : b.Below n) (s t : Text) :
    Alike ρ n (Renamed ρ) (addTexts a b s t) (addTexts (a.rename ρ) (b.rename ρ) s t) := by
  rw [addTexts, addTexts, isEmptyText_rename, isEmptyText_rename]
  exact .ite (fun _ => alike_exactText ofB t) fun _ => .ite (fun _ => alike_exactText ofA s)
    fun _ => alike_ofNewText _

theorem alike_addTuples (ofA : a.Below n) (ofB : b.Below n) {xs ys : List Value}
    (ofXs : ∀ v ∈ xs, v.Below n) (ofYs : ∀ v ∈ ys, v.Below n) :
    Alike ρ n (Renamed ρ) (addTuples a b xs ys)
      (addTuples (a.rename ρ) (b.rename ρ) (xs.map (rename ρ)) (ys.map (rename ρ))) := by
  rw [addTuples, addTuples, List.isEmpty_map, List.isEmpty_map, ← List.map_append]
  exact .ite (fun _ => .pure ⟨rfl, ofA⟩) fun _ => .ite (fun _ => .pure ⟨rfl, ofB⟩)
    fun _ => alike_ofTuple (List.forall_mem_append.mpr ⟨ofXs, ofYs⟩)

theorem alike_addPlain (ofA : a.Below n) (ofB : b.Below n) :
    Alike ρ n (Renamed ρ) (addPlain a b) (addPlain (a.rename ρ) (b.rename ρ)) := by
  have numbers : Alike ρ n (Renamed ρ) (addNumbers a b) (addNumbers (a.rename ρ) (b.rename ρ)) :=
    alike_addNumbers
  cases a with
  | list r =>
      cases b with
      | list q =>
          refine .itemsOf_bind r fun xs ofXs => .itemsOf_bind q fun ys ofYs => ?_
          rw [← List.map_append]
          exact alike_ofList (List.forall_mem_append.mpr ⟨ofXs, ofYs⟩)
      | _ => exact numbers
  | text | raw =>
      cases b with
      | text | raw => exact alike_addTexts ofA ofB _ _
      | _ => exact numbers
  | tuple t xs =>
      cases b with
      | tuple u ys =>
          have ends := alike_addTuples (ρ := ρ) ofA ofB (below_tuple.mp ofA).2 (below_tuple.mp ofB).2
          simpa only [addPlain, rename, renameAll_eq_map] using ends
      | _ => exact numbers
  | _ => exact numbers

theorem alike_add (ofA : a.Below n) (ofB : b.Below n) :
    Alike ρ n (Renamed ρ) (add a b) (add (a.rename ρ) (b.rename ρ)) :=
  .bind_renamed (alike_addPlain ofA ofB) fun _ _ _ below => alike_checked below

/-! ### Products -/

theorem isRepeatable_rename : isRepeatable (v.rename ρ) = isRepeatable v := by
  cases v <;> rfl

theorem alike_checkProduct_bind {α : Type} {S : Nat → α → α → Prop} {f f' : Unit → Eval α}
    (next : Alike ρ n S (f ()) (f' ())) :
    Alike ρ n S (checkProduct a b >>= f) (checkProduct (a.rename ρ) (b.rename ρ) >>= f') := by
  simp only [checkProduct, bind_assoc]
  refine .get_bind fun s _ => ?_
  simp only [isRepeatable_rename, int?_rename, isTrue_rename, weight_rename]
  -- Either way the check passes on nothing.
  have checked (refused : Prop) [Decidable refused] (c : Cause) : Alike ρ n S
      ((if refused then Eval.fail c else pure ()) >>= f)
      ((if refused then Eval.fail c else pure ()) >>= f') := by
    split
    · exact .fail_bind c
    · exact next
  split
  · exact checked _ _
  · split
    · exact checked _ _
    · split
      · exact checked _ _
      · exact next

theorem alike_countOf_bind {α : Type} {S : Nat → α → α → Prop} {f f' : Nat → Eval α} (i : Int)
    (next : ∀ count, Alike ρ n S (f count) (f' count)) :
    Alike ρ n S (countOf i >>= f) (countOf i >>= f') := by
  rw [countOf]
  split
  · exact next _
  · exact .breach_bind _

theorem alike_repeated {α : Type} (count : Nat) (xs : List α) :
    Alike ρ n Equal (repeated count xs) (repeated count xs) :=
  .ite (fun _ => .pure rfl) fun _ => .ite (fun _ => .breach _) fun _ => .pure rfl

theorem alike_repeated_items (count : Nat) {items : List Value} (each : ∀ v ∈ items, v.Below n) :
    Alike ρ n (RenamedAll ρ) (repeated count items) (repeated count (items.map (rename ρ))) := by
  simp only [repeated, List.isEmpty_map, List.length_map]
  refine .ite (fun _ => .pure ⟨rfl, List.forall_mem_nil _⟩) fun _ =>
    .ite (fun _ => .breach _) fun _ => .pure ⟨?_, ?_⟩
  · rw [List.map_flatten, List.map_replicate]
  · intro v member
    obtain ⟨copy, ofCopy, member⟩ := List.mem_flatten.mp member
    exact each v (List.eq_of_mem_replicate ofCopy ▸ member)

theorem alike_repeatValue (below : v.Below n) (i : Int) :
    Alike ρ n (Renamed ρ) (repeatValue v i) (repeatValue (v.rename ρ) i) := by
  refine alike_countOf_bind i fun count => ?_
  have other : Alike ρ n (Renamed ρ) (Eval.breach .type) (Eval.breach .type) := .breach _
  have texts (t : Text) : Alike ρ n (Renamed ρ) (do ofNewText (← repeated count t))
      (do ofNewText (← repeated count t)) :=
    .bind_same (alike_repeated count t) fun _ _ t => alike_ofNewText t
  cases v with
  | list r =>
      refine .itemsOf_bind r fun items each => ?_
      exact .bind_renamedAll (alike_repeated_items count each) fun _ _ _ each => alike_ofList each
  | tuple t items =>
      simp only [rename, renameAll_eq_map]
      refine .ite (fun _ => .pure ⟨by simp [rename], below⟩) fun _ => ?_
      have each := alike_repeated_items (ρ := ρ) count (below_tuple.mp below).2
      exact .bind_renamedAll each fun _ _ _ each => alike_ofTuple each
  | text _ t => exact .ite (fun _ => .pure ⟨rfl, below⟩) fun _ => texts t
  | raw _ t => exact texts t
  | _ => exact other

theorem alike_mulPlain (ofA : a.Below n) (ofB : b.Below n) :
    Alike ρ n (Renamed ρ) (mulPlain a b) (mulPlain (a.rename ρ) (b.rename ρ)) := by
  simp only [mulPlain, isRepeatable_rename, int?_rename]
  split
  · exact alike_repeatValue ofA _
  · split
    · exact alike_repeatValue ofB _
    · exact alike_mulNumbers

theorem alike_mul (ofA : a.Below n) (ofB : b.Below n) :
    Alike ρ n (Renamed ρ) (mul a b) (mul (a.rename ρ) (b.rename ρ)) :=
  alike_checkProduct_bind <|
    .bind_renamed (alike_mulPlain ofA ofB) fun _ _ _ below => alike_checked below

/-! ### Remainders and templates -/

theorem alike_fill {base : Value} (ofBase : base.Below n) (template : Text) (below : v.Below n) :
    Alike ρ n (Renamed ρ) (fill base template v) (fill (base.rename ρ) template (v.rename ρ)) := by
  refine .bind_renamed (Format.alike_fillTemplate template below) fun k later filled ofFilled => ?_
  exact .ite (fun _ => .pure ⟨rfl, ofBase.mono later⟩) fun _ => .pure ⟨rfl, ofFilled⟩

theorem alike_mod (ofA : a.Below n) (ofB : b.Below n) :
    Alike ρ n (Renamed ρ) (mod a b) (mod (a.rename ρ) (b.rename ρ)) := by
  simp only [mod, text?_rename]
  refine .ite (fun _ => .fail_bind _) fun _ => alike_checkWeight_bind b ?_
  cases a.text? with
  | some template =>
      exact .bind_renamed (alike_fill ofA template ofB) fun _ _ _ below => alike_checked below
  | none => exact .bind_renamed (alike_modNumbers ofA) fun _ _ _ below => alike_checked below

theorem alike_binary (op : BinaryOp) (ofA : a.Below n) (ofB : b.Below n) :
    Alike ρ n (Renamed ρ) (binary op a b) (binary op (a.rename ρ) (b.rename ρ)) := by
  cases op with
  | add => exact alike_add ofA ofB
  | sub => exact alike_sub
  | mul => exact alike_mul ofA ofB
  | div => exact alike_div
  | floorDiv => exact alike_floorDiv
  | mod => exact alike_mod ofA ofB
  | pow => exact alike_pow

theorem alike_negate : Alike ρ n (Renamed ρ) (negate v) (negate (v.rename ρ)) := by
  rw [negate, negate, ofValue?_rename]
  split
  · exact alike_ofInt _
  · exact alike_ofFloat _
  · exact alike_ofComplex _
  · exact .breach _

theorem alike_unary (op : UnaryOp) (below : v.Below n) :
    Alike ρ n (Renamed ρ) (unary op v) (unary op (v.rename ρ)) := by
  cases op with
  | not =>
      refine .get_bind fun s _ => ?_
      rw [isTrue_rename]
      exact .pure ⟨rfl, trivial⟩
  | minus => exact alike_negate
  | plus =>
      have other : Alike ρ n (Renamed ρ) (Eval.breach .type) (Eval.breach .type) := .breach _
      cases v with
      | bool b => exact alike_ofInt _
      | int | float | complex => exact .pure ⟨rfl, below⟩
      | _ => exact other

/-! ### Comparisons -/

theorem alike_ordered (op : OrderOp) :
    Alike ρ n Equal (ordered op a b) (ordered op (a.rename ρ) (b.rename ρ)) := by
  refine .get_bind fun s _ => ?_
  rw [order_rename]
  exact .lift_same _

theorem alike_compare (op : Comparison) :
    Alike ρ n Equal (compare op a b) (compare op (a.rename ρ) (b.rename ρ)) := by
  cases op with
  | eq =>
      refine .get_bind fun s _ => ?_
      rw [eq_rename]
      exact .lift_same _
  | ne =>
      refine .get_bind fun s _ => ?_
      rw [eq_rename]
      exact .lift_bind _ fun _ _ => .pure rfl
  | lt | gt | le | ge => exact alike_ordered _
  | isIn =>
      refine .get_bind fun s _ => ?_
      rw [contains_rename]
      exact .lift_same _
  | notIn =>
      refine .get_bind fun s _ => ?_
      rw [contains_rename]
      exact .lift_bind _ fun _ _ => .pure rfl
  | same | notSame =>
      simp only [compare, same_rename]
      exact .pure rfl

end Operator

end Snippet
