import Snippet.Extension.Roots
import Snippet.Proofs.Eval.Alike.Methods
import Snippet.Proofs.Eval.Called

/-!
Functions that see no identities. All functions of the core are such functions, and so are those of
the extension for lessons on numbers.
-/

set_option autoImplicit false

namespace Snippet

open Eval (Alike)
open Value

variable {α : Type} {ρ : Renaming} {n : Nat} {S : Nat → α → α → Prop} {v : Value}
  {args items : List Value}

namespace Builtin

/-- A function that does the same for values under other identities. It makes up no identities: the
new ones are given out in turn. -/
def Uniform (b : Builtin) : Prop :=
  ∀ (ρ : Renaming) (n : Nat) (args : List Value) (keywords : Bindings),
    (∀ v ∈ args, v.Below n) → keywords.Below n →
      Alike ρ n (Renamed ρ) (b.run args keywords) (b.run (args.map (rename ρ)) (keywords.rename ρ))

/-! ### Calls -/

theorem checkArguments_rename (b : Builtin) (given : Nat) (keywords : Bindings) :
    b.checkArguments given (keywords.rename ρ) = b.checkArguments given keywords := by
  unfold checkArguments
  rw [Bindings.find?_rename fun name => !b.keywords.contains name]
  cases keywords.find? fun k => !b.keywords.contains k.1 <;> rfl

theorem alike_checkArguments (b : Builtin) (given : Nat) (keywords : Bindings) :
    Alike ρ n Equal (b.checkArguments given keywords) (b.checkArguments given keywords) := by
  unfold checkArguments
  refine .ite (fun _ => .fail_bind _) fun _ => ?_
  cases keywords.find? fun k => !b.keywords.contains k.1 with
  | none =>
      cases b.most with
      | none => exact .pure rfl
      | some most => exact .ite (fun _ => .fail_bind _) fun _ => .pure rfl
  | some k =>
      cases b.most with
      | none => exact .fail _
      | some most => exact .ite (fun _ => .fail_bind _) fun _ => .fail _

theorem alike_settle (fault : Fault) :
    Alike ρ n (Renamed ρ) (settle fault) (settle (fault.rename ρ)) := by
  cases fault with
  | cause c => exact .fail c
  | breach b => exact .fail _
  | missingKey key =>
      refine .get_bind fun s late => ?_
      rw [written_rename late]
      exact .lift_bind _ fun _ _ => .fail _

theorem alike_checkKeywords_bind (keywords : Bindings) {f f' : PUnit → Eval α}
    (next : Alike ρ n S (f ()) (f' ())) :
    Alike ρ n S ((keywords.forM fun k => checkWeight k.2) >>= f)
      (((keywords.rename ρ).forM fun k => checkWeight k.2) >>= f') := by
  induction keywords with
  | nil => exact next
  | cons k rest ih =>
      show Alike ρ n S ((checkWeight k.2 >>= fun _ => rest.forM fun k => checkWeight k.2) >>= f)
        ((checkWeight (k.2.rename ρ) >>= fun _ =>
          (Bindings.rename ρ rest).forM fun k => checkWeight k.2) >>= f')
      rw [bind_assoc, bind_assoc]
      exact alike_checkWeight_bind k.2 ih

theorem Uniform.alike_invoke {b : Builtin} (uniform : b.Uniform) (each : ∀ v ∈ args, v.Below n)
    {keywords : Bindings} (below : keywords.Below n) :
    Alike ρ n (Renamed ρ) (b.invoke args keywords)
      (b.invoke (args.map (rename ρ)) (keywords.rename ρ)) := by
  rw [invoke, invoke, List.length_map, checkArguments_rename]
  refine .bind_same (alike_checkArguments b _ keywords) fun k later _ => ?_
  have ran := uniform ρ k args keywords (fun v member => (each v member).mono later) (below.mono later)
  exact Method.alike_checkWeights_bind args <| alike_checkKeywords_bind keywords <|
    .tryCatch ran fun _ _ fault => alike_settle fault

/-! ### The core -/

theorem alike_length (args : List Value) (keywords : Bindings) :
    Alike ρ n (Renamed ρ) (length args keywords)
      (length (args.map (rename ρ)) (keywords.rename ρ)) := by
  obtain _ | ⟨v, rest⟩ := args
  · exact .breach _
  · have other (c : Cause) : Alike ρ n (Renamed ρ) (Eval.fail c) (Eval.fail c) := .fail c
    cases v with
    | text | raw => exact alike_ofNat _
    | tuple t items =>
        simp only [length, List.map_cons, rename, renameAll_eq_map, List.length_map]
        exact alike_ofNat _
    | list r =>
        refine .itemsOf_bind r fun items _ => ?_
        rw [List.length_map]
        exact alike_ofNat _
    | dict r =>
        refine .entriesOf_bind r fun entries _ => ?_
        rw [Entries.length_rename]
        exact alike_ofNat _
    | _ => exact other _

theorem alike_toText (each : ∀ v ∈ args, v.Below n) (keywords : Bindings) :
    Alike ρ n (Renamed ρ) (toText args keywords)
      (toText (args.map (rename ρ)) (keywords.rename ρ)) := by
  obtain _ | ⟨v, rest⟩ := args
  · exact alike_ofText []
  · exact alike_toShown (each v List.mem_cons_self)

theorem alike_truncated (x : Float) : Alike ρ n (Renamed ρ) (truncated x) (truncated x) := by
  unfold truncated
  split
  · exact alike_ofInt _
  · exact .breach _

theorem alike_intOf (below : v.Below n) : Alike ρ n (Renamed ρ) (intOf v) (intOf (v.rename ρ)) := by
  have texts (t : Text) : Alike ρ n (Renamed ρ)
      (do ofInt (← Eval.orBreach .value (Numeral.integer? 10 t)))
      (do ofInt (← Eval.orBreach .value (Numeral.integer? 10 t))) :=
    .orBreach_bind _ _ fun i _ => alike_ofInt i
  have other : Alike ρ n (Renamed ρ) (Eval.breach .type) (Eval.breach .type) := .breach _
  cases v with
  | int => exact .pure ⟨rfl, below⟩
  | bool => exact alike_ofInt _
  | float _ x => exact alike_truncated x
  | text _ t | raw _ t => exact texts t
  | _ => exact other

theorem alike_intInBase (t : Text) (base : Value) :
    Alike ρ n (Renamed ρ) (intInBase t base) (intInBase t (base.rename ρ)) := by
  rw [intInBase, intInBase, int?_rename]
  cases base.int? with
  | none => exact .breach _
  | some b =>
      exact .ite (fun _ => .orBreach_bind _ _ fun i _ => alike_ofInt i) fun _ => .breach _

theorem alike_toInt (each : ∀ v ∈ args, v.Below n) (keywords : Bindings) :
    Alike ρ n (Renamed ρ) (toInt args keywords) (toInt (args.map (rename ρ)) (keywords.rename ρ)) := by
  obtain _ | ⟨v, _ | ⟨base, rest⟩⟩ := args
  · exact alike_ofInt 0
  · exact alike_intOf (each v List.mem_cons_self)
  · simp only [toInt, List.map_cons, text?_rename]
    cases v.text? with
    | some t => exact alike_intInBase t base
    | none => exact .fail _

theorem alike_toFloat (each : ∀ v ∈ args, v.Below n) (keywords : Bindings) :
    Alike ρ n (Renamed ρ) (toFloat args keywords)
      (toFloat (args.map (rename ρ)) (keywords.rename ρ)) := by
  obtain _ | ⟨v, rest⟩ := args
  · exact alike_ofFloat 0
  · cases v with
    | float => exact .pure ⟨rfl, each _ List.mem_cons_self⟩
    | int | bool | text | raw => exact .orBreach_bind _ _ fun x _ => alike_ofFloat x
    | _ => exact .breach _

theorem alike_toBool (args : List Value) (keywords : Bindings) :
    Alike ρ n (Renamed ρ) (toBool args keywords) (toBool (args.map (rename ρ)) (keywords.rename ρ)) := by
  obtain _ | ⟨v, rest⟩ := args
  · exact .pure ⟨rfl, trivial⟩
  · refine .get_bind fun s _ => ?_
    rw [isTrue_rename]
    exact .pure ⟨rfl, trivial⟩

theorem alike_absolute (each : ∀ v ∈ args, v.Below n) (keywords : Bindings) :
    Alike ρ n (Renamed ρ) (absolute args keywords)
      (absolute (args.map (rename ρ)) (keywords.rename ρ)) := by
  have other : Alike ρ n (Renamed ρ) (Eval.breach .type) (Eval.breach .type) := .breach _
  obtain _ | ⟨v, rest⟩ := args
  · exact other
  · cases v with
    | int t i =>
        exact .ite (fun _ => alike_ofInt _) fun _ => .pure ⟨rfl, each _ List.mem_cons_self⟩
    | bool => exact alike_ofInt _
    | float => exact alike_ofFloat _
    | complex => exact .ite (fun _ => .breach _) fun _ => alike_ofFloat _
    | _ => exact other

theorem bestOf_rename (op : OrderOp) (s : Store) (best : Value) (items : List Value) :
    bestOf op (s.rename ρ) (best.rename ρ) (items.map (rename ρ))
      = rename ρ <$> bestOf op s best items := by
  induction items generalizing best with
  | nil => rfl
  | cons v rest ih =>
      simp only [List.map_cons, bestOf, order_rename, ih, map_bind]
      congr 1
      funext better
      cases better <;> rfl

theorem alike_extreme (op : OrderOp) (each : ∀ v ∈ args, v.Below n) (keywords : Bindings) :
    Alike ρ n (Renamed ρ) (extreme op args keywords)
      (extreme op (args.map (rename ρ)) (keywords.rename ρ)) := by
  have among {k : Nat} {first : Value} {rest : List Value} (each : ∀ v ∈ first :: rest, v.Below k) :
      Alike ρ k (Renamed ρ) (do Eval.lift (bestOf op (← get) first rest))
        (do Eval.lift (bestOf op (← get) (first.rename ρ) (rest.map (rename ρ)))) := by
    refine .get_bind fun s _ => ?_
    rw [bestOf_rename]
    exact .lift _ fun v found => ⟨rfl, each v (mem_of_bestOf found)⟩
  obtain _ | ⟨source, _ | ⟨more, rest⟩⟩ := args
  · exact .breach _
  · refine .bind_renamedAll (Subscript.alike_iterate (each source List.mem_cons_self))
      fun _ _ items each => ?_
    obtain _ | ⟨first, rest⟩ := items
    · exact .breach _
    · exact among each
  · exact among each

theorem alike_emptySum (below : v.Below n) :
    Alike ρ n (Renamed ρ) (emptySum v) (emptySum (v.rename ρ)) := by
  have other : Alike ρ n (Renamed ρ) (pure v) (pure (v.rename ρ)) := .pure ⟨rfl, below⟩
  cases v with
  | int => exact .ite (fun _ => alike_ofInt _) fun _ => other
  | float => exact alike_ofFloat _
  | _ => exact other

theorem alike_foldlM_addPlain {start : Value} (below : start.Below n) (each : ∀ v ∈ items, v.Below n) :
    Alike ρ n (Renamed ρ) (items.foldlM Operator.addPlain start)
      ((items.map (rename ρ)).foldlM Operator.addPlain (start.rename ρ)) := by
  induction items generalizing n start with
  | nil => exact .pure ⟨rfl, below⟩
  | cons v rest ih =>
      obtain ⟨first, others⟩ := List.forall_mem_cons.mp each
      simp only [List.map_cons, List.foldlM_cons]
      refine .bind_renamed (Operator.alike_addPlain below first) fun k later total below => ?_
      exact ih below fun w member => (others w member).mono later

theorem alike_sumFrom {start : Value} (below : start.Below n) (each : ∀ v ∈ items, v.Below n) :
    Alike ρ n (Renamed ρ) (sumFrom start items) (sumFrom (start.rename ρ) (items.map (rename ρ))) := by
  obtain _ | ⟨v, rest⟩ := items
  · cases start <;> exact alike_emptySum below
  · have other := alike_foldlM_addPlain (ρ := ρ) below each
    cases start with
    | list r =>
        refine .bind (Alike.mapM (S := RenamedAll ρ) (g := rename ρ) ?_ fun w member k later => ?_) ?_
        · exact fun later related => ⟨related.1, fun w member => (related.2 w member).mono later⟩
        · have none : Alike ρ k (RenamedAll ρ) (Eval.breach .type) (Eval.breach .type) := .breach _
          cases w with
          | list q => exact .itemsOf q
          | _ => exact none
        · intro k later lists lists' related
          refine .itemsOf_bind r fun own ofOwn => ?_
          obtain ⟨same, joined⟩ : lists'.flatten = lists.flatten.map (rename ρ)
              ∧ ∀ w ∈ lists.flatten, w.Below k := by
            induction related with
            | nil => exact ⟨rfl, nofun⟩
            | cons first _ ih =>
                exact ⟨by simp [first.1, ih.1], List.forall_mem_append.mpr ⟨first.2, ih.2⟩⟩
          rw [same, ← List.map_append]
          exact alike_ofList (List.forall_mem_append.mpr ⟨ofOwn, joined⟩)
    | _ => exact other

theorem alike_sum (each : ∀ v ∈ args, v.Below n) (keywords : Bindings) :
    Alike ρ n (Renamed ρ) (sum args keywords) (sum (args.map (rename ρ)) (keywords.rename ρ)) := by
  obtain _ | ⟨source, _ | ⟨start, rest⟩⟩ := args
  · exact .breach _
  · refine .bind_renamed (alike_ofInt 0) fun k later zero ofZero => ?_
    have ofSource := (each source List.mem_cons_self).mono later
    exact .bind_renamedAll (Subscript.alike_iterate ofSource) fun l later items each =>
      alike_sumFrom (ofZero.mono later) each
  · have ofStart := each start (List.mem_cons_of_mem source List.mem_cons_self)
    simp only [sum, List.map_cons, text?_rename]
    refine .ite (fun _ => .fail _) fun _ => ?_
    exact .bind_renamedAll (Subscript.alike_iterate (each source List.mem_cons_self))
      fun k later items each => alike_sumFrom (ofStart.mono later) each

theorem alike_roundWhole (below : v.Below n) :
    Alike ρ n (Renamed ρ) (roundWhole v) (roundWhole (v.rename ρ)) := by
  have other : Alike ρ n (Renamed ρ) (Eval.breach .type) (Eval.breach .type) := .breach _
  cases v with
  | int => exact .pure ⟨rfl, below⟩
  | bool => exact alike_ofInt _
  | float _ x =>
      simp only [roundWhole, rename]
      cases Real.nearestInt? x with
      | none => exact .breach _
      | some i => exact alike_ofInt i
  | _ => exact other

theorem alike_roundTo (below : v.Below n) (places : Value) :
    Alike ρ n (Renamed ρ) (roundTo v places) (roundTo (v.rename ρ) (places.rename ρ)) := by
  rw [roundTo, roundTo, Method.intOf_rename]
  refine .orBreach_bind _ _ fun places _ => ?_
  have other : Alike ρ n (Renamed ρ)
      (do
        let i ← Method.intOf v
        if places ≥ 0 then roundWhole v else ofInt (roundTens i (-places).toNat))
      (do
        let i ← Method.intOf (v.rename ρ)
        if places ≥ 0 then roundWhole (v.rename ρ) else ofInt (roundTens i (-places).toNat)) := by
    rw [Method.intOf_rename]
    exact .orBreach_bind _ _ fun i _ => .ite (fun _ => alike_roundWhole below) fun _ => alike_ofInt _
  cases v with
  | float => exact .orBreach_bind _ _ fun x _ => alike_ofFloat x
  | _ => exact other

theorem alike_round (each : ∀ v ∈ args, v.Below n) (keywords : Bindings) :
    Alike ρ n (Renamed ρ) (round args keywords) (round (args.map (rename ρ)) (keywords.rename ρ)) := by
  obtain _ | ⟨v, _ | ⟨places, _ | ⟨more, rest⟩⟩⟩ := args
  · exact .breach _
  · exact alike_roundWhole (each v List.mem_cons_self)
  · have whole := alike_roundWhole (ρ := ρ) (each v List.mem_cons_self)
    have other := alike_roundTo (ρ := ρ) (each v List.mem_cons_self) places
    cases places with
    | none => exact whole
    | _ => exact other
  · have other := alike_roundTo (ρ := ρ) (each v List.mem_cons_self) places
    cases places <;> exact other

theorem alike_sorted (each : ∀ v ∈ args, v.Below n) (keywords : Bindings) :
    Alike ρ n (Renamed ρ) (sorted args keywords)
      (sorted (args.map (rename ρ)) (keywords.rename ρ)) := by
  obtain _ | ⟨source, rest⟩ := args
  · exact .breach _
  · refine .get_bind fun s _ => ?_
    have flag : (keywords.rename ρ).head?.any (fun k => isTrue (s.rename ρ) k.2)
        = keywords.head?.any fun k => isTrue s k.2 := by
      cases keywords with
      | nil => rfl
      | cons k rest => simp [Bindings.rename]
    rw [flag]
    refine .bind_renamedAll (Subscript.alike_iterate (each source List.mem_cons_self))
      fun k _ items each => ?_
    exact .bind_renamedAll (Method.alike_sortItems each _) fun _ _ _ each => alike_ofList each

theorem alike_toList (each : ∀ v ∈ args, v.Below n) (keywords : Bindings) :
    Alike ρ n (Renamed ρ) (toList args keywords)
      (toList (args.map (rename ρ)) (keywords.rename ρ)) := by
  obtain _ | ⟨source, rest⟩ := args
  · exact alike_ofList nofun
  · exact .bind_renamedAll (Subscript.alike_iterate (each source List.mem_cons_self))
      fun _ _ _ each => alike_ofList each

theorem core_uniform : ∀ b ∈ core, b.Uniform := by
  simp only [core, List.forall_mem_cons]
  refine ⟨?length, ?toText, ?toInt, ?toFloat, ?toBool, ?absolute, ?max, ?min, ?sum, ?round, ?sorted,
    ?toList, List.forall_mem_nil _⟩ <;> intro ρ n args keywords each _
  case length => exact alike_length args keywords
  case toText => exact alike_toText each keywords
  case toInt => exact alike_toInt each keywords
  case toFloat => exact alike_toFloat each keywords
  case toBool => exact alike_toBool args keywords
  case absolute => exact alike_absolute each keywords
  case max | min => exact alike_extreme _ each keywords
  case sum => exact alike_sum each keywords
  case round => exact alike_round each keywords
  case sorted => exact alike_sorted each keywords
  case toList => exact alike_toList each keywords

end Builtin

/-! ### The extension for lessons on numbers -/

namespace Roots

theorem alike_numberOf (v : Value) : Alike ρ n Equal (numberOf v) (numberOf (v.rename ρ)) := by
  have other (type : String) : Alike ρ n Equal (Eval.fail (α := RealNumber) (.notReal type))
      (Eval.fail (.notReal type)) := .fail _
  cases v with
  | int _ i => exact .pure rfl
  | float _ x => exact .pure rfl
  | _ => exact other _

theorem alike_squareRoot (v : Value) :
    Alike ρ n (Renamed ρ) (squareRoot v) (squareRoot (v.rename ρ)) := by
  refine .bind_same (alike_numberOf v) fun k _ number => ?_
  cases number with
  | int i =>
      exact .ite (fun _ => .fail _) fun _ => .orBreach_bind _ _ fun x _ => alike_ofFloat _
  | float x => exact .ite (fun _ => .fail _) fun _ => alike_ofFloat _

theorem alike_whole (round? : Float → Option Int) (below : v.Below n) :
    Alike ρ n (Renamed ρ) (whole round? v) (whole round? (v.rename ρ)) := by
  refine .bind_same (alike_numberOf v) fun k later number => ?_
  cases number with
  | int i => exact .pure ⟨rfl, below.mono later⟩
  | float x =>
      dsimp only
      cases round? x with
      | some i => exact alike_ofInt i
      | none => exact .breach _

theorem uniform_unary (name : String) {f : Value → Eval Value}
    (alike : ∀ (ρ : Renaming) (n : Nat) (v : Value), v.Below n →
      Alike ρ n (Renamed ρ) (f v) (f (v.rename ρ))) :
    (Builtin.entry name 1 (some 1) (unary f)).Uniform := by
  intro ρ n args keywords each _
  obtain _ | ⟨v, rest⟩ := args
  · exact .breach _
  · exact alike ρ n v (each v List.mem_cons_self)

theorem requests_uniform (b : Builtin) (doc : Text) (requested : .builtin b doc ∈ requests) :
    b.Uniform := by
  simp only [requests, function, List.mem_cons, reduceCtorEq, Request.builtin.injEq, false_or,
    List.not_mem_nil, or_false] at requested
  obtain ⟨rfl, -⟩ | ⟨rfl, -⟩ | ⟨rfl, -⟩ := requested
  · exact uniform_unary "sqrt" fun _ _ v _ => alike_squareRoot v
  · exact uniform_unary "floor" fun _ _ _ below => alike_whole Real.floor? below
  · exact uniform_unary "ceil" fun _ _ _ below => alike_whole Real.ceil? below

end Roots

end Snippet
