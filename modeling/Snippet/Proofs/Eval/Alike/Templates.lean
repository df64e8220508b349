import Snippet.Proofs.Eval.Alike

/-!
Templates see no identities: the directives take the same values under other identities, and write
the same texts.
-/

set_option autoImplicit false

namespace Snippet.Format

open Eval (Alike)
open Value (below_tuple alike_ofText alike_ofNewText alike_toShown alike_toWritten)

variable {α : Type} {ρ : Renaming} {k n : Nat} {S : Nat → α → α → Prop} {v : Value}

/-! ### Values that directives take and write -/

namespace Supply

def rename (ρ : Renaming) (s : Supply) : Supply where
  pending := s.pending.map (Value.rename ρ)
  keyed := s.keyed.map (Value.rename ρ)

def Below (n : Nat) (s : Supply) : Prop :=
  ∀ v ∈ s.pending, v.Below n

variable {s : Supply}

theorem Below.mono (below : s.Below k) (later : k ≤ n) : s.Below n :=
  fun v member => (below v member).mono later

theorem ofOperand_rename (v : Value) : ofOperand (v.rename ρ) = (ofOperand v).rename ρ := by
  cases v <;> simp [ofOperand, rename, Value.rename]

theorem below_ofOperand (below : v.Below n) : (ofOperand v).Below n := by
  have alone : ∀ w ∈ [v], w.Below n := fun w member => List.mem_singleton.mp member ▸ below
  cases v with
  | tuple t items => exact (below_tuple.mp below).2
  | _ => exact alone

theorem isNone_keyed_rename (s : Supply) : (s.rename ρ).keyed.isNone = s.keyed.isNone :=
  Option.isNone_map

theorem isEmpty_pending_rename (s : Supply) :
    (s.rename ρ).pending.isEmpty = s.pending.isEmpty :=
  List.isEmpty_map

theorem alike_take_bind {f f' : Value × Supply → Eval α} (below : s.Below n)
    (next : ∀ (v : Value) (s : Supply), v.Below n → s.Below n →
      Alike ρ n S (f (v, s)) (f' (v.rename ρ, s.rename ρ))) :
    Alike ρ n S (s.take >>= f) ((s.rename ρ).take >>= f') := by
  obtain ⟨_ | ⟨v, rest⟩, keyed⟩ := s
  · exact .breach_bind _
  · obtain ⟨first, rest⟩ := List.forall_mem_cons.mp below
    exact next v ⟨_, keyed⟩ first rest

end Supply

def RenamedSupply (ρ : Renaming) (n : Nat) (s s' : Supply) : Prop :=
  s' = s.rename ρ ∧ s.Below n

theorem Supply.alike_select (s : Supply) (key : Text) :
    Alike ρ n (RenamedSupply ρ) (s.select key) ((s.rename ρ).select key) := by
  obtain ⟨pending, _ | keyed⟩ := s
  · exact .breach _
  · have other : Alike ρ n (RenamedSupply ρ) (Eval.breach .type) (Eval.breach .type) := .breach _
    cases keyed with
    | dict r =>
        refine .bind_renamed (alike_ofText key) fun k _ name _ => ?_
        refine .entriesOf_bind r fun entries entriesBelow => ?_
        rw [Entries.find?_rename]
        cases found : entries.find? name with
        | none => exact .throw _
        | some v =>
            exact .pure ⟨rfl, fun w member => List.mem_singleton.mp member ▸ entriesBelow.find? found⟩
    | _ => exact other

def Body.rename (ρ : Renaming) : Body → Body
  | text t => text t
  | shown v => shown (v.rename ρ)
  | number p => number p

def Body.Below (n : Nat) : Body → Prop
  | text _ | number _ => True
  | shown v => v.Below n

def RenamedBody (ρ : Renaming) (n : Nat) (b b' : Body) : Prop :=
  b' = b.rename ρ ∧ b.Below n

def Piece.rename (ρ : Renaming) (p : Piece) : Piece :=
  ⟨p.text, p.value.map (Value.rename ρ)⟩

def Piece.Below (n : Nat) (p : Piece) : Prop :=
  ∀ v ∈ p.value, v.Below n

theorem Piece.Below.mono {p : Piece} (below : p.Below k) (later : k ≤ n) : p.Below n :=
  fun v member => (below v member).mono later

theorem Piece.below_plain (t : Text) : (plain t).Below n :=
  nofun

def RenamedPiece (ρ : Renaming) (n : Nat) (p p' : Piece) : Prop :=
  p' = p.rename ρ ∧ p.Below n

/-! ### Reading directives -/

theorem alike_takeSize_bind {s : Supply} {f f' : Int × Supply → Eval α} (bound : Nat)
    (below : s.Below n)
    (next : ∀ (i : Int) (s : Supply), s.Below n → Alike ρ n S (f (i, s)) (f' (i, s.rename ρ))) :
    Alike ρ n S (takeSize bound s >>= f) (takeSize bound (s.rename ρ) >>= f') := by
  simp only [takeSize, bind_assoc]
  refine Supply.alike_take_bind below fun v s _ below => ?_
  rw [Value.int?_rename]
  cases v.int? with
  | none => exact .breach_bind _
  | some i =>
      dsimp only
      split
      · exact .breach_bind _
      · simpa using next i s below

theorem alike_readWidth_bind {s : Supply} {f f' : Directive × Supply × Text → Eval α}
    (d : Directive) (t : Text) (below : s.Below n)
    (next : ∀ d (s : Supply) t, s.Below n → Alike ρ n S (f (d, s, t)) (f' (d, s.rename ρ, t))) :
    Alike ρ n S (readWidth d s t >>= f) (readWidth d (s.rename ρ) t >>= f') := by
  unfold readWidth
  split
  · simp only [bind_assoc, pure_bind]
    exact alike_takeSize_bind _ below fun i s below => next _ s _ below
  · exact next _ s _ below

theorem alike_readPrecision_bind {s : Supply} {f f' : Directive × Supply × Text → Eval α}
    (d : Directive) (t : Text) (below : s.Below n)
    (next : ∀ d (s : Supply) t, s.Below n → Alike ρ n S (f (d, s, t)) (f' (d, s.rename ρ, t))) :
    Alike ρ n S (readPrecision d s t >>= f) (readPrecision d (s.rename ρ) t >>= f') := by
  unfold readPrecision
  split
  · simp only [bind_assoc, pure_bind]
    exact alike_takeSize_bind _ below fun i s below => next _ s _ below
  · exact next _ s _ below
  · exact next _ s _ below

/-! ### Writing directives -/

theorem alike_shownBody (code : Char) (below : v.Below n) :
    Alike ρ n (Renamed ρ) (shownBody code v) (shownBody code (v.rename ρ)) := by
  refine .ite (fun _ => alike_toShown below) fun _ => ?_
  refine .bind_renamed (alike_toWritten v) fun k _ w below => ?_
  rw [Value.text?_rename]
  exact .ite (fun _ => .pure ⟨rfl, below⟩) fun _ => alike_ofNewText _

theorem integerBody_rename (d : Directive) (code : Char) (v : Value) :
    integerBody d code (v.rename ρ) = integerBody d code v := by
  cases v <;> rfl

theorem floatBody_rename (d : Directive) (code : Char) (v : Value) :
    floatBody d code (v.rename ρ) = floatBody d code v := by
  cases v <;> rfl

theorem characterOf_rename (v : Value) : characterOf (v.rename ρ) = characterOf v := by
  simp only [characterOf, Value.text?_rename, Value.int?_rename]

theorem number_of_integerBody {d : Directive} {code : Char} {body : Body}
    (done : integerBody d code v = .ok body) : ∃ p, body = .number p := by
  simp only [integerBody, bind_eq_ok] at done
  obtain ⟨n, -, done⟩ := done
  split at done
  · cases done
  · obtain ⟨digits, -, ⟨⟩⟩ := bind_eq_ok.mp done
    exact ⟨_, rfl⟩

theorem number_of_floatBody {d : Directive} {code : Char} {body : Body}
    (done : floatBody d code v = .ok body) : ∃ p, body = .number p := by
  obtain ⟨x, -, done⟩ := bind_eq_ok.mp done
  split at done
  · cases done
  · cases done
    exact ⟨_, rfl⟩

theorem alike_liftBody {r : Except Breach Body} (number : ∀ b, r = .ok b → ∃ p, b = .number p) :
    Alike ρ n (RenamedBody ρ) (Eval.lift r) (Eval.lift r) := by
  cases r with
  | error b => exact .breach b
  | ok b =>
      obtain ⟨p, rfl⟩ := number b rfl
      exact .pure ⟨rfl, trivial⟩

theorem alike_bodyOf (d : Directive) (code : Char) (below : v.Below n) :
    Alike ρ n (RenamedBody ρ) (bodyOf d code v) (bodyOf d code (v.rename ρ)) := by
  simp only [bodyOf, integerBody_rename, floatBody_rename, characterOf_rename]
  refine .ite (fun _ => ?_) fun _ => .ite (fun _ => ?_) fun _ => .ite (fun _ => ?_) fun _ =>
    .ite (fun _ => ?_) fun _ => .breach _
  · exact .bind_renamed (alike_shownBody code below) fun k _ w below => .pure ⟨rfl, below⟩
  · exact .lift_bind _ fun t _ => .pure ⟨rfl, trivial⟩
  · exact alike_liftBody fun b => number_of_integerBody
  · exact alike_liftBody fun b => number_of_floatBody

theorem fill_rename (d : Directive) (body : Body) : d.fill (body.rename ρ) = d.fill body := by
  cases body with
  | shown v => simp only [Body.rename, Directive.fill, Value.text?_rename]
  | _ => rfl

theorem writesDigits_rename (d : Directive) (code : Char) (v : Value) :
    d.writesDigits code (v.rename ρ) = d.writesDigits code v := by
  cases v <;> rfl

theorem alike_write (d : Directive) (code : Char) {body : Body} (below : body.Below n) :
    Alike ρ n (RenamedPiece ρ) (d.write code v body) (d.write code (v.rename ρ) (body.rename ρ)) := by
  unfold Directive.write
  rw [fill_rename, writesDigits_rename]
  dsimp only
  refine .ite (fun _ => .pure ⟨rfl, Piece.below_plain _⟩) fun _ => ?_
  cases body with
  | text t => exact .pure ⟨rfl, Piece.below_plain _⟩
  | shown v =>
      simp only [Body.rename, Value.text?_rename]
      refine .pure ⟨?_, fun w given => ?_⟩
      · split <;> rfl
      · dsimp only at given
        split at given
        · cases given
          exact below
        · cases given
  | number p =>
      refine .ite (fun _ => ?_) fun _ => .pure ⟨rfl, Piece.below_plain _⟩
      refine .bind_renamed (alike_ofNewText _) fun k _ w below => .pure ⟨rfl, ?_⟩
      rintro v ⟨⟩
      exact below

/-! ### Filling -/

/-- What a directive leaves to be read and to be taken, and what it writes. -/
def RenamedFilled (ρ : Renaming) (n : Nat) (r r' : Piece × Text × Supply) : Prop :=
  r' = (r.1.rename ρ, r.2.1, r.2.2.rename ρ) ∧ r.1.Below n ∧ r.2.2.Below n

theorem alike_fillDirective (t : Text) {s : Supply} (below : s.Below n) :
    Alike ρ n (RenamedFilled ρ) (fillDirective t s) (fillDirective t (s.rename ρ)) := by
  unfold fillDirective
  extract_lets filled
  -- What follows the key, with whatever supply is left then.
  have behind {k : Nat} (s : Supply) (t : Text) (below : s.Below k) :
      Alike ρ k (RenamedFilled ρ) (filled (s, t)) (filled (s.rename ρ, t)) := by
    refine alike_readWidth_bind _ _ below fun d s t below => ?_
    refine alike_readPrecision_bind _ _ below fun d s t below => ?_
    dsimp only
    split
    · exact .breach _
    · refine Supply.alike_take_bind below fun v s ofValue below => ?_
      refine .bind (alike_bodyOf d _ ofValue) ?_
      rintro k later body _ ⟨rfl, ofBody⟩
      refine .ite (fun _ => .breach_bind _) fun _ => ?_
      refine .bind (alike_write d _ ofBody) ?_
      rintro l later' piece _ ⟨rfl, ofPiece⟩
      exact .pure ⟨rfl, ofPiece, (below.mono later).mono later'⟩
  clear_value filled
  split
  · rw [Supply.isNone_keyed_rename]
    split
    · exact .breach_bind _
    · split
      · refine .bind (Supply.alike_select s _) ?_
        rintro k later s _ ⟨rfl, below⟩
        exact behind s _ below
      · exact .breach_bind _
  · exact behind s t below

theorem alike_joinPieces {pieces : List Piece} (below : ∀ p ∈ pieces, p.Below n) :
    Alike ρ n (Renamed ρ) (joinPieces pieces) (joinPieces (pieces.map (Piece.rename ρ))) := by
  have texts : (pieces.map (Piece.rename ρ)).reverse.map (·.text) = pieces.reverse.map (·.text) := by
    simp [Piece.rename, ← List.map_reverse, Function.comp_def]
  obtain _ | ⟨⟨last, _ | v⟩, rest⟩ := pieces
  · exact alike_ofText _
  · simp only [joinPieces, texts]
    exact alike_ofText _
  · simp only [joinPieces, texts]
    exact .ite (fun _ => .pure ⟨rfl, below _ List.mem_cons_self v rfl⟩) fun _ => alike_ofText _

theorem alike_fillFrom (turns : Nat) (t : Text) {s : Supply} {pieces : List Piece} (below : s.Below n)
    (written : ∀ p ∈ pieces, p.Below n) :
    Alike ρ n (Renamed ρ) (fillFrom turns t s pieces)
      (fillFrom turns t (s.rename ρ) (pieces.map (Piece.rename ρ))) := by
  induction turns generalizing n t s pieces with
  | zero => exact alike_joinPieces written
  | succ turns ih =>
      have plain (t : Text) : ∀ p ∈ .plain t :: pieces, p.Below n :=
        List.forall_mem_cons.mpr ⟨Piece.below_plain t, written⟩
      unfold fillFrom
      split
      · rw [Supply.isEmpty_pending_rename, Supply.isNone_keyed_rename]
        refine .ite (fun _ => .breach_bind _) fun _ => alike_joinPieces written
      · exact ih _ below (plain _)
      · refine .bind (alike_fillDirective _ below) ?_
        rintro k later ⟨piece, rest, s⟩ _ ⟨rfl, ofPiece, below⟩
        refine ih _ below (List.forall_mem_cons.mpr ⟨ofPiece, fun p member => ?_⟩)
        exact (written p member).mono later
      · exact ih _ below (plain _)

theorem alike_fillTemplate (template : Text) (below : v.Below n) :
    Alike ρ n (Renamed ρ) (fillTemplate template v) (fillTemplate template (v.rename ρ)) := by
  rw [fillTemplate, fillTemplate, Supply.ofOperand_rename]
  exact alike_fillFrom _ _ (Supply.below_ofOperand below) nofun

end Snippet.Format
