import Snippet.Proofs.Eval.Alike.Operators
import Snippet.Proofs.Eval.Alike.Subscripts
import Snippet.Proofs.Sorting.Natural
import Snippet.Proofs.Sorting.Permutation

/-!
Methods see no identities: an item is found where it was, a list is sorted as it was, and a text is
handed on where it was.
-/

set_option autoImplicit false

namespace Snippet

open Eval (Alike)
open Value

variable {α : Type} {ρ : Renaming} {n : Nat} {S : Nat → α → α → Prop} {v w base : Value}
  {args items : List Value}

namespace Bindings

def rename (ρ : Renaming) (bindings : Bindings) : Bindings :=
  bindings.map (Prod.map id (Value.rename ρ))

def Below (n : Nat) (bindings : Bindings) : Prop :=
  ∀ b ∈ bindings, b.2.Below n

variable {bindings : Bindings}

theorem Below.mono {k : Nat} (below : bindings.Below k) (later : k ≤ n) : bindings.Below n :=
  fun b member => (below b member).mono later

theorem find?_rename (test : Text → Bool) :
    (bindings.rename ρ).find? (fun b => test b.1)
      = (bindings.find? fun b => test b.1).map (Prod.map id (Value.rename ρ)) := by
  rw [rename, List.find?_map]
  rfl

end Bindings

def BoundMethod.rename (ρ : Renaming) : BoundMethod → BoundMethod
  | ofTuple items m => ofTuple (items.map (Value.rename ρ)) m
  | method => method

namespace Method

/-! ### Arguments -/

@[simp]
theorem textOf_rename : textOf (v.rename ρ) = textOf v := by
  rw [textOf, textOf, text?_rename]

@[simp]
theorem intOf_rename : intOf (v.rename ρ) = intOf v := by
  rw [intOf, intOf, int?_rename]

@[simp]
theorem wordOf_rename : wordOf (v.rename ρ) = wordOf v := by
  rw [wordOf, wordOf, intOf_rename]

theorem alike_wordOf_bind (v : Value) {f f' : Int → Eval α} (next : ∀ i, Alike ρ n S (f i) (f' i)) :
    Alike ρ n S (wordOf v >>= f) (wordOf v >>= f') := by
  simp only [wordOf, intOf, bind_assoc]
  refine .orBreach_bind _ _ fun i _ => ?_
  split
  · simpa using next i
  · exact .breach_bind _

theorem alike_noArguments_bind (args : List Value) {f f' : Unit → Eval α}
    (next : Alike ρ n S (f ()) (f' ())) :
    Alike ρ n S (noArguments args >>= f) (noArguments (args.map (rename ρ)) >>= f') := by
  rw [noArguments, noArguments, List.isEmpty_map]
  split
  · exact next
  · exact .breach_bind _

/-! ### Texts -/

theorem alike_leftOf (below : base.Below n) (t left : Text) :
    Alike ρ n (Renamed ρ) (leftOf base t left) (leftOf (base.rename ρ) t left) :=
  .ite (fun _ => alike_exactText below t) fun _ => alike_ofText _

theorem alike_strip (below : base.Below n) (t : Text) (trim : (Char → Bool) → Text → Text)
    (args : List Value) :
    Alike ρ n (Renamed ρ) (strip base t trim args)
      (strip (base.rename ρ) t trim (args.map (rename ρ))) := by
  have left (u : Text) := alike_leftOf (ρ := ρ) below t u
  have given (v : Value) : Alike ρ n (Renamed ρ)
      (do leftOf base t (trim (← textOf v).eraseDups.contains t))
      (do leftOf (base.rename ρ) t (trim (← textOf (v.rename ρ)).eraseDups.contains t)) := by
    rw [textOf_rename]
    exact .orBreach_bind _ _ fun chars _ => left _
  obtain _ | ⟨v, _ | ⟨w, rest⟩⟩ := args
  · exact left _
  · cases v with
    | none => exact left _
    | _ => exact given _
  · cases v <;> exact .breach _

theorem alike_replace (below : base.Below n) (t : Text) (args : List Value) :
    Alike ρ n (Renamed ρ) (replace base t args) (replace (base.rename ρ) t (args.map (rename ρ))) := by
  obtain _ | ⟨old, _ | ⟨new, rest⟩⟩ := args
  · exact .breach _
  · exact .breach _
  · simp only [replace, List.map_cons, textOf_rename, same_rename]
    refine .orBreach_bind _ _ fun oldText _ => .orBreach_bind _ _ fun newText _ => ?_
    obtain _ | ⟨count, _ | ⟨more, rest⟩⟩ := rest
    · exact .ite (fun _ => alike_exactText below t) fun _ => alike_ofNewText _
    · simp only [List.map_cons, List.map_nil, wordOf_rename]
      exact alike_wordOf_bind count fun i =>
        .ite (fun _ => alike_exactText below t) fun _ => alike_ofNewText _
    · exact .breach_bind _

def RenamedPair (ρ : Renaming) (_ : Nat) (p q : Option Value × Option Value) : Prop :=
  q = (p.1.map (rename ρ), p.2.map (rename ρ))

theorem alike_splitArguments (args : List Value) (keywords : Bindings) :
    Alike ρ n (RenamedPair ρ) (splitArguments args keywords)
      (splitArguments (args.map (rename ρ)) (keywords.rename ρ)) := by
  have keyword (name : Text) : ((keywords.rename ρ).find? fun k => k.1 == name).map (·.2)
      = ((keywords.find? fun k => k.1 == name).map (·.2)).map (rename ρ) := by
    rw [Bindings.find?_rename (· == name), Option.map_map, Option.map_map]
    rfl
  simp only [splitArguments, keyword]
  generalize (keywords.find? fun k => k.1 == "sep".toList).map (·.2) = sep
  generalize (keywords.find? fun k => k.1 == "maxsplit".toList).map (·.2) = limit
  obtain _ | ⟨v, _ | ⟨w, _ | ⟨more, rest⟩⟩⟩ := args
  · exact .pure rfl
  · cases sep with
    | none => exact .pure rfl
    | some sep => exact .breach _
  · cases sep with
    | none =>
        cases limit with
        | none => exact .pure rfl
        | some limit => exact .breach _
    | some sep => exact .breach _
  · exact .breach _

theorem alike_texts (pieces : List Text) :
    Alike ρ n (RenamedAll ρ) (pieces.mapM ofText) (pieces.mapM ofText) :=
  .mapM_each fun t _ _ _ => alike_ofText t

theorem alike_piecesOf (below : base.Below n) (pieces : List Text) :
    Alike ρ n (RenamedAll ρ) (piecesOf base pieces) (piecesOf (base.rename ρ) pieces) := by
  have other := alike_texts (ρ := ρ) (n := n) pieces
  cases base with
  | text =>
      obtain _ | ⟨t, _ | ⟨u, rest⟩⟩ := pieces
      · exact other
      · exact .pure ⟨rfl, fun v member => List.mem_singleton.mp member ▸ below⟩
      · exact other
  | _ => exact other

theorem alike_splitAtBlanks (below : base.Below n) (t : Text) (limit : Nat) :
    Alike ρ n (RenamedAll ρ) (splitAtBlanks base t limit) (splitAtBlanks (base.rename ρ) t limit) :=
  .ite (fun _ => alike_piecesOf below _) fun _ => alike_texts _

theorem alike_splitAt (below : base.Below n) (t sep : Text) (limit : Nat) :
    Alike ρ n (RenamedAll ρ) (splitAt base t sep limit) (splitAt (base.rename ρ) t sep limit) := by
  refine .ite (fun _ => .pure ⟨rfl, fun v member => List.mem_singleton.mp member ▸ below⟩) fun _ => ?_
  exact .ite (fun _ => .breach _) fun _ => alike_piecesOf below _

theorem alike_split (below : base.Below n) (t : Text) (args : List Value) (keywords : Bindings) :
    Alike ρ n (Renamed ρ) (split base t args keywords)
      (split (base.rename ρ) t (args.map (rename ρ)) (keywords.rename ρ)) := by
  refine .bind (alike_splitArguments args keywords) ?_
  rintro k later ⟨sep, limit⟩ _ rfl
  have ofBase := below.mono later
  dsimp -zeta only
  extract_lets behind behind'
  -- What follows once the limit is known, the same for every limit.
  have continued (i : Int) : Alike ρ k (Renamed ρ) (behind i) (behind' i) := by
    have blanks := Alike.bind_renamedAll (alike_splitAtBlanks (ρ := ρ) ofBase t (limitOf t i))
      fun _ _ _ each => alike_ofList each
    have given (v : Value) : Alike ρ k (Renamed ρ)
        (do ofList (← splitAt base t (← textOf v) (limitOf t i)))
        (do ofList (← splitAt (base.rename ρ) t (← textOf (v.rename ρ)) (limitOf t i))) := by
      rw [textOf_rename]
      exact .orBreach_bind _ _ fun sep _ =>
        .bind_renamedAll (alike_splitAt ofBase t sep _) fun _ _ _ each => alike_ofList each
    rcases sep with _ | sep
    · exact blanks
    · cases sep with
      | none => exact blanks
      | _ => exact given _
  clear_value behind behind'
  cases limit with
  | none => exact continued (-1)
  | some limit =>
      simp only [Option.map_some, wordOf_rename]
      exact alike_wordOf_bind limit continued

theorem joinedLength_rename (sep : Text) (items : List Value) :
    joinedLength sep (items.map (rename ρ)) = joinedLength sep items := by
  simp only [joinedLength, List.foldl_map, text?_rename, List.length_map]

theorem alike_join (sep : Text) (each : ∀ v ∈ args, v.Below n) :
    Alike ρ n (Renamed ρ) (join sep args) (join sep (args.map (rename ρ))) := by
  obtain _ | ⟨source, _ | ⟨more, rest⟩⟩ := args
  · exact .breach _
  · refine .bind_renamedAll (Subscript.alike_iterate (each source List.mem_cons_self))
      fun k _ items each => ?_
    have other : Alike ρ k (Renamed ρ)
        (do
          let pieces ← items.mapM textOf
          if widthOf (sep ++ pieces.flatten) * joinedLength sep items > maxBytes then
            Eval.breach .memory
          ofNewText (Text.join sep pieces))
        (do
          let pieces ← (items.map (rename ρ)).mapM textOf
          if widthOf (sep ++ pieces.flatten) * joinedLength sep (items.map (rename ρ)) > maxBytes then
            Eval.breach .memory
          ofNewText (Text.join sep pieces)) := by
      rw [joinedLength_rename]
      refine .bind_same (.mapM_same fun v _ _ _ => ?_) fun _ _ pieces => ?_
      · rw [textOf_rename]
        exact .orBreach_same _ _
      · exact .ite (fun _ => .breach_bind _) fun _ => alike_ofNewText _
    obtain _ | ⟨v, _ | ⟨w, rest⟩⟩ := items
    · exact other
    · cases v with
      | text => exact .pure ⟨rfl, each _ List.mem_cons_self⟩
      | _ => exact other
    · cases v <;> exact other
  · exact .breach _

theorem alike_windowOf (length : Nat) (args : List Value) :
    Alike ρ n Equal (windowOf length args) (windowOf length (args.map (rename ρ))) := by
  have ends : Alike ρ n Equal (args.mapM fun v => Eval.lift (Subscript.endOf (some v)))
      ((args.map (rename ρ)).mapM fun v => Eval.lift (Subscript.endOf (some v))) := by
    refine .mapM_same fun v _ _ _ => ?_
    rw [← Option.map_some, Subscript.endOf_rename]
    exact .lift_same _
  refine .bind_same ends fun _ _ ends => ?_
  obtain _ | ⟨start, _ | ⟨stop, _ | ⟨more, rest⟩⟩⟩ := ends
  · exact .pure rfl
  · exact .pure rfl
  · exact .pure rfl
  · exact .breach _

theorem alike_matchesAny (test : Text → Text → Bool) (w : Window) (t : Text) (needles : List Value) :
    Alike ρ n Equal (matchesAny test w t needles) (matchesAny test w t (needles.map (rename ρ))) := by
  induction needles with
  | nil => exact .pure rfl
  | cons v rest ih =>
      simp only [matchesAny, List.map_cons, textOf_rename]
      exact .orBreach_bind _ _ fun needle _ => .ite (fun _ => .pure rfl) fun _ => ih

theorem alike_matchesEnd (test : Text → Text → Bool) (t : Text) (args : List Value) :
    Alike ρ n (Renamed ρ) (matchesEnd test t args) (matchesEnd test t (args.map (rename ρ))) := by
  obtain _ | ⟨needle, ends⟩ := args
  · exact .breach _
  · refine .bind_same (alike_windowOf _ ends) fun k _ w => ?_
    have among (needles : List Value) : Alike ρ k (Renamed ρ)
        (do return .bool (← matchesAny test w t needles))
        (do return .bool (← matchesAny test w t (needles.map (rename ρ)))) :=
      .bind_same (alike_matchesAny test w t needles) fun _ _ b => .pure ⟨rfl, trivial⟩
    cases needle with
    | tuple _ needles =>
        simp only [rename, renameAll_eq_map]
        exact among needles
    | _ => exact among [_]

theorem alike_search (found : Window → Text → Int) (absent : Int) (t : Text) (args : List Value) :
    Alike ρ n (Renamed ρ) (search found absent t args) (search found absent t (args.map (rename ρ))) := by
  obtain _ | ⟨needle, ends⟩ := args
  · exact .breach _
  · refine .bind_same (alike_windowOf _ ends) fun k _ w => ?_
    rw [textOf_rename]
    exact .orBreach_bind _ _ fun needle _ => alike_ofInt _

theorem alike_changed (args : List Value) (t : Text) :
    Alike ρ n (Renamed ρ) (changed args t) (changed (args.map (rename ρ)) t) :=
  alike_noArguments_bind args (alike_ofNewText t)

theorem alike_allOf (args : List Value) (p : Char → Bool) (t : Text) :
    Alike ρ n (Renamed ρ) (allOf args p t) (allOf (args.map (rename ρ)) p t) :=
  alike_noArguments_bind args (.pure ⟨rfl, trivial⟩)

theorem alike_callText (ofBase : base.Below n) (t : Text) (m : TextMethod)
    (each : ∀ v ∈ args, v.Below n) (keywords : Bindings) :
    Alike ρ n (Renamed ρ) (callText base t m args keywords)
      (callText (base.rename ρ) t m (args.map (rename ρ)) (keywords.rename ρ)) := by
  cases m with
  | upper | lower | title | capitalize => exact alike_changed args _
  | strip | lstrip | rstrip => exact alike_strip ofBase t _ args
  | replace => exact alike_replace ofBase t args
  | split => exact alike_split ofBase t args keywords
  | join => exact alike_join t each
  | startswith | endswith => exact alike_matchesEnd _ t args
  | count | find => exact alike_search _ _ t args
  | isdigit | isalpha => exact alike_allOf args _ t

/-! ### Positions and counts -/

theorem alike_indexWindow (length : Nat) (args : List Value) :
    Alike ρ n Equal (indexWindow length args) (indexWindow length (args.map (rename ρ))) := by
  have ends : Alike ρ n Equal (args.mapM intOf) ((args.map (rename ρ)).mapM intOf) := by
    refine .mapM_same fun v _ _ _ => ?_
    rw [intOf_rename]
    exact .orBreach_same _ _
  refine .bind_same ends fun _ _ ends => ?_
  obtain _ | ⟨start, _ | ⟨stop, _ | ⟨more, rest⟩⟩⟩ := ends
  · exact .pure rfl
  · exact .pure rfl
  · exact .pure rfl
  · exact .breach _

theorem alike_indexOf (items args : List Value) :
    Alike ρ n (Renamed ρ) (indexOf items args)
      (indexOf (items.map (rename ρ)) (args.map (rename ρ))) := by
  obtain _ | ⟨x, ends⟩ := args
  · exact .breach _
  · simp only [indexOf, List.map_cons, List.length_map]
    refine .bind_same (alike_indexWindow _ ends) fun k _ w => .get_bind fun s _ => ?_
    rw [← List.map_drop, ← List.map_take, indexIn?_rename]
    refine .lift_bind _ fun found _ => ?_
    cases found with
    | none => exact .breach _
    | some i => exact alike_ofNat _

theorem alike_countOf (items args : List Value) :
    Alike ρ n (Renamed ρ) (countOf items args)
      (countOf (items.map (rename ρ)) (args.map (rename ρ))) := by
  obtain _ | ⟨x, _ | ⟨more, rest⟩⟩ := args
  · exact .breach _
  · refine .get_bind fun s _ => ?_
    rw [countIn_rename]
    exact .lift_bind _ fun count _ => alike_ofNat count
  · exact .breach _

theorem alike_callTuple (items : List Value) (m : TupleMethod) (args : List Value) :
    Alike ρ n (Renamed ρ) (callTuple items m args)
      (callTuple (items.map (rename ρ)) m (args.map (rename ρ))) := by
  cases m with
  | count => exact alike_countOf items args
  | index => exact alike_indexOf items args

/-! ### Lists -/

theorem alike_sortItems (each : ∀ v ∈ items, v.Below n) (reversed : Bool) :
    Alike ρ n (RenamedAll ρ) (sortItems items reversed) (sortItems (items.map (rename ρ)) reversed) := by
  refine .get_bind fun s _ => ?_
  have order : Sorting.along (rename ρ) (order (s.rename ρ) .lt) = Value.order s .lt := by
    funext v w
    exact order_rename .lt v w
  rw [Sorting.sort_map, order]
  refine .lift _ fun sorted done => ⟨rfl, fun v member => ?_⟩
  exact each v ((Sorting.sort_perm done).mem_iff.mp member)

theorem alike_pop (r : Ref) (args : List Value) :
    Alike ρ n (Renamed ρ) (pop r args) (pop r (args.map (rename ρ))) := by
  unfold pop
  extract_lets taken
  have continued (i : Int) : Alike ρ n (Renamed ρ) (taken i) (taken i) := by
    refine .itemsOf_bind r fun items each => ?_
    rw [List.length_map]
    refine .ite (fun _ => .breach_bind _) fun _ => ?_
    rw [List.getElem?_map]
    generalize (if i < 0 then i + (items.length : Int) else i).toNat = i
    cases found : items[i]? with
    | none => exact .breach _
    | some x =>
        rw [Option.map_some, List.eraseIdx_map]
        exact .setItems_bind r _ (fun v member => each v (List.mem_of_mem_eraseIdx member))
          (.pure ⟨rfl, each x (List.mem_of_getElem? found)⟩)
  clear_value taken
  obtain _ | ⟨v, _ | ⟨w, rest⟩⟩ := args
  · exact continued (-1)
  · simp only [List.map_cons, List.map_nil, wordOf_rename]
    exact alike_wordOf_bind v continued
  · exact .breach_bind _

theorem alike_insert (r : Ref) (each : ∀ v ∈ args, v.Below n) :
    Alike ρ n (Renamed ρ) (insert r args) (insert r (args.map (rename ρ))) := by
  obtain _ | ⟨i, _ | ⟨x, _ | ⟨more, rest⟩⟩⟩ := args
  · exact .breach _
  · exact .breach _
  · have ofX := each x (List.mem_cons_of_mem i List.mem_cons_self)
    simp only [insert, List.map_cons, List.map_nil, wordOf_rename]
    refine alike_wordOf_bind i fun i => .itemsOf_bind r fun items each => ?_
    rw [List.length_map, ← List.map_insertIdx]
    refine .setItems_bind r _ (fun v member => ?_) (.pure ⟨rfl, trivial⟩)
    obtain rfl | member := List.eq_or_mem_of_mem_insertIdx member
    · exact ofX
    · exact each v member
  · exact .breach _

theorem alike_remove (r : Ref) (args : List Value) :
    Alike ρ n (Renamed ρ) (remove r args) (remove r (args.map (rename ρ))) := by
  obtain _ | ⟨x, _ | ⟨more, rest⟩⟩ := args
  · exact .breach _
  · refine .itemsOf_bind r fun items each => .get_bind fun s _ => ?_
    rw [indexIn?_rename]
    refine .lift_bind _ fun found _ => ?_
    cases found with
    | none => exact .breach _
    | some i =>
        dsimp only
        rw [List.eraseIdx_map]
        exact .setItems_bind r _ (fun v member => each v (List.mem_of_mem_eraseIdx member))
          (.pure ⟨rfl, trivial⟩)
  · exact .breach _

theorem alike_reverseFlag_bind (keywords : Bindings) {f f' : Bool → Eval α}
    (next : ∀ b, Alike ρ n S (f b) (f' b)) :
    Alike ρ n S (reverseFlag keywords >>= f) (reverseFlag (keywords.rename ρ) >>= f') := by
  obtain _ | ⟨⟨name, v⟩, rest⟩ := keywords
  · exact next false
  · simp only [reverseFlag, Bindings.rename, List.map_cons, Prod.map, intOf_rename, bind_assoc]
    refine .orBreach_bind _ _ fun i _ => ?_
    split
    · exact .breach_bind _
    · simpa using next (i != 0)

theorem alike_sortInPlace (r : Ref) (each : ∀ v ∈ items, v.Below n) (reversed : Bool) :
    Alike ρ n Equal (sortInPlace r items reversed) (sortInPlace r (items.map (rename ρ)) reversed) := by
  refine .setItems_bind r [] nofun (.tryCatch ?_ fun k later fault => ?_)
  · exact .bind_renamedAll (alike_sortItems each reversed) fun _ _ sorted each => .setItems r each
  · exact .setItems_bind r _ (fun v member => (each v member).mono later) (.throw fault)

theorem alike_callList (r : Ref) (m : ListMethod) (ofArgs : ∀ v ∈ args, v.Below n)
    (keywords : Bindings) :
    Alike ρ n (Renamed ρ) (callList r m args keywords)
      (callList r m (args.map (rename ρ)) (keywords.rename ρ)) := by
  refine .itemsOf_bind r fun items each => ?_
  cases m with
  | append =>
      obtain _ | ⟨x, _ | ⟨more, rest⟩⟩ := args
      · exact .breach _
      · have appended : ∀ v ∈ items ++ [x], v.Below n :=
          List.forall_mem_append.mpr ⟨each, ofArgs⟩
        have stored : (items ++ [x]).map (rename ρ) = items.map (rename ρ) ++ [x.rename ρ] :=
          List.map_append
        show Alike ρ n (Renamed ρ) _ (do
          Eval.setItems r (items.map (rename ρ) ++ [x.rename ρ])
          return .none)
        rw [← stored]
        exact .setItems_bind r _ appended (.pure ⟨rfl, trivial⟩)
      · exact .breach _
  | pop => exact alike_pop r args
  | insert => exact alike_insert r ofArgs
  | remove => exact alike_remove r args
  | count => exact alike_countOf items args
  | index => exact alike_indexOf items args
  | sort =>
      refine alike_noArguments_bind args (alike_reverseFlag_bind keywords fun b => ?_)
      exact .bind_same (alike_sortInPlace r each b) fun _ _ _ => .pure ⟨rfl, trivial⟩
  | reverse =>
      refine alike_noArguments_bind args ?_
      rw [← List.map_reverse]
      exact .setItems_bind r _ (fun v member => each v (List.mem_reverse.mp member))
        (.pure ⟨rfl, trivial⟩)
  | copy => exact alike_noArguments_bind args (alike_ofList each)

/-! ### Dicts -/

theorem alike_keyArguments_bind {f f' : Value × Option Value → Eval α} (each : ∀ v ∈ args, v.Below n)
    (next : ∀ key fallback, (∀ v ∈ fallback, v.Below n) →
      Alike ρ n S (f (key, fallback)) (f' (key.rename ρ, fallback.map (rename ρ)))) :
    Alike ρ n S (keyArguments args >>= f) (keyArguments (args.map (rename ρ)) >>= f') := by
  obtain _ | ⟨key, _ | ⟨v, _ | ⟨more, rest⟩⟩⟩ := args
  · exact .breach_bind _
  · exact next key .none nofun
  · exact next key (some v) fun w same =>
      Option.some.inj same ▸ each v (List.mem_cons_of_mem key List.mem_cons_self)
  · exact .breach_bind _

theorem alike_dictGet (r : Ref) (each : ∀ v ∈ args, v.Below n) :
    Alike ρ n (Renamed ρ) (dictGet r args) (dictGet r (args.map (rename ρ))) := by
  refine alike_keyArguments_bind each fun key fallback ofFallback => ?_
  dsimp only
  rw [isHashable_rename]
  refine .ite (fun _ => .breach_bind _) fun _ => .entriesOf_bind r fun entries below => ?_
  rw [Entries.find?_rename]
  cases found : entries.find? key with
  | some v => exact .pure ⟨rfl, below.find? found⟩
  | none =>
      cases fallback with
      | none => exact .pure ⟨rfl, trivial⟩
      | some v => exact .pure ⟨rfl, ofFallback v rfl⟩

theorem alike_dictPop (r : Ref) (each : ∀ v ∈ args, v.Below n) :
    Alike ρ n (Renamed ρ) (dictPop r args) (dictPop r (args.map (rename ρ))) := by
  refine alike_keyArguments_bind each fun key fallback ofFallback => ?_
  refine .entriesOf_bind r fun entries below => ?_
  simp only [Entries.isEmpty_rename, isHashable_rename, Entries.find?_rename, Entries.erase_rename]
  refine .ite (fun _ => .breach_bind _) fun _ => ?_
  have taken : (if entries.isEmpty then Option.none else (entries.find? key).map (rename ρ))
      = (if entries.isEmpty then Option.none else entries.find? key).map (rename ρ) := by
    split <;> rfl
  rw [taken]
  cases found : if entries.isEmpty then Option.none else entries.find? key with
  | some v =>
      have ofV : v.Below n := by
        split at found
        · cases found
        · exact below.find? found
      exact .setEntries_bind r below.erase (.pure ⟨rfl, ofV⟩)
  | none =>
      cases fallback with
      | none => exact .throw _
      | some v => exact .pure ⟨rfl, ofFallback v rfl⟩

theorem alike_view (r : Ref) (kind : ViewKind) (args : List Value) :
    Alike ρ n (Renamed ρ) (view r kind args) (view r kind (args.map (rename ρ))) :=
  alike_noArguments_bind args (alike_ofView kind r)

theorem alike_callDict (r : Ref) (m : DictMethod) (each : ∀ v ∈ args, v.Below n) :
    Alike ρ n (Renamed ρ) (callDict r m args) (callDict r m (args.map (rename ρ))) := by
  cases m with
  | get => exact alike_dictGet r each
  | pop => exact alike_dictPop r each
  | keys | values | items => exact alike_view r _ args

/-! ### Calls -/

theorem bind?_rename (name : Text) : bind? (base.rename ρ) name = (bind? base name).map (.rename ρ) := by
  cases base with
  | text | raw =>
      simp only [rename, bind?]
      cases named? textMethods name <;> rfl
  | list =>
      simp only [rename, bind?]
      cases named? listMethods name <;> rfl
  | tuple =>
      simp only [rename, bind?, renameAll_eq_map]
      cases named? tupleMethods name <;> rfl
  | dict =>
      simp only [rename, bind?]
      cases named? dictMethods name <;> rfl
  | _ => rfl

theorem estimate_rename (s : Store) (base : Value) (method : BoundMethod) (args : List Value) :
    estimate (s.rename ρ) (base.rename ρ) (method.rename ρ) (args.map (rename ρ))
      = estimate s base method args := by
  cases method with
  | ofList r m =>
      have weighed : ((args.map (rename ρ)).getLast?.map (weight (s.rename ρ) maxLength)).getD 1
          = (args.getLast?.map (weight s maxLength)).getD 1 := by
        rw [List.getLast?_map, Option.map_map]
        congr 2
        funext v
        exact weight_rename maxLength v
      cases m with
      | append | insert => simp only [BoundMethod.rename, estimate, weight_rename, weighed]
      | _ => rfl
  | ofText t m =>
      cases m with
      | replace =>
          obtain _ | ⟨old, _ | ⟨new, rest⟩⟩ := args
          · rfl
          · rfl
          · simp only [BoundMethod.rename, List.map_cons, estimate, text?_rename]
      | join =>
          obtain _ | ⟨v, rest⟩ := args
          · rfl
          · cases v with
            | list q =>
                simp only [BoundMethod.rename, List.map_cons, rename, estimate, Store.items_rename,
                  joinedLength_rename]
            | tuple =>
                simp only [BoundMethod.rename, List.map_cons, rename, renameAll_eq_map, estimate,
                  joinedLength_rename]
            | _ => rfl
      | _ => rfl
  | _ => rfl

theorem strayKeyword?_rename (allowed : List String) (keywords : Bindings) :
    strayKeyword? allowed (keywords.rename ρ) = strayKeyword? allowed keywords := by
  rw [strayKeyword?, strayKeyword?,
    Bindings.find?_rename fun name => !allowed.any (·.toList == name), Option.map_map]
  rfl

theorem alike_run (ofBase : base.Below n) {name : Text} {method : BoundMethod}
    (bound : bind? base name = some method) (each : ∀ v ∈ args, v.Below n) (keywords : Bindings) :
    Alike ρ n (Renamed ρ) (run base method args keywords)
      (run (base.rename ρ) (method.rename ρ) (args.map (rename ρ)) (keywords.rename ρ)) := by
  cases method with
  | ofText t m => exact alike_callText ofBase t m each keywords
  | ofList r m => exact alike_callList r m each keywords
  | ofTuple items m => exact alike_callTuple items m args
  | ofDict r m => exact alike_callDict r m each

theorem alike_checkWeights_bind (args : List Value) {f f' : PUnit → Eval α}
    (next : Alike ρ n S (f ()) (f' ())) :
    Alike ρ n S (args.forM checkWeight >>= f) ((args.map (rename ρ)).forM checkWeight >>= f') := by
  induction args with
  | nil => exact next
  | cons v rest ih =>
      show Alike ρ n S ((checkWeight v >>= fun _ => rest.forM checkWeight) >>= f)
        ((checkWeight (v.rename ρ) >>= fun _ => (rest.map (rename ρ)).forM checkWeight) >>= f')
      rw [bind_assoc, bind_assoc]
      exact alike_checkWeight_bind v ih

theorem alike_call (ofBase : base.Below n) (name : Text) (each : ∀ v ∈ args, v.Below n)
    (keywords : Bindings) :
    Alike ρ n (Renamed ρ) (call base name args keywords)
      (call (base.rename ρ) name (args.map (rename ρ)) (keywords.rename ρ)) := by
  rw [call, call, bind?_rename, typeName_rename]
  cases bound : bind? base name with
  | none => exact .fail _
  | some method =>
      simp only [Option.map_some, strayKeyword?_rename]
      cases strayKeyword? (keywordsOf name) keywords with
      | some keyword => exact .fail _
      | none =>
          refine alike_checkWeights_bind args (.get_bind fun s _ => ?_)
          rw [estimate_rename]
          refine .ite (fun _ => .fail_bind _) fun _ => ?_
          exact .bind_renamed (alike_run ofBase bound each keywords) fun _ _ _ below =>
            alike_checked below

end Method

end Snippet
