import Snippet.Proofs.Expr.Operator

/-!
What is read behind an expression: calls, subscripts and attributes.
-/

set_option autoImplicit false

namespace Snippet.Grammar

open Reader Snippet.Symbol

-- A trailer in brackets is one turn of the loop behind its base.
theorem Writes.trailed {opening closing : TokenKind} {base : Layout} {inner : List Symbol}
    {nestings : List Nat} {b e : Expr} (hb : Writes base b)
    (brackets : opening = .openParen ∨ opening = .openBracket)
    (later : ∀ n a turns rest, a.bare = b.bare →
      Reaches (∀ m ∈ nestings, m ≤ n) (trailersLoop (readAt n) (turns + 1) a)
        (fixed opening :: (inner ++ [fixed closing])) rest
        fun r => ∃ e', r = trailersLoop (readAt n) turns e' ∧ e'.bare = e.bare) :
    Writes (Layout.trailed opening closing base inner nestings) e := by
  have base_level := level_operand base .trailed
  have first := hb.operand .trailed
  refine ⟨fun n => ?_, hb.opens_append rfl (Nat.le_refl _) ?_⟩
  · have leads := first.reads n
    have fits : (base.operand .trailed).nesting ≤ n ∧ (∀ m ∈ nestings, m ≤ n - 1)
        ↔ (Layout.trailed opening closing base inner nestings).nesting ≤ n := by
      have := first.reads.positive
      rw [← maxOf_le]
      simp only [Layout.trailed, Layout.enclosed]
      omega
    have between : stops .atom opening = true := by
      obtain rfl | rfl := brackets <;> rfl
    have shown := List.cons_ne_nil (fixed opening) (inner ++ [fixed closing])
    rw [base_level] at leads
    refine Leads.congr ?_ fits
    exact leads.turn shown (fun _ _ => between) fun a turns rest same _ => later _ a turns rest same
  · rintro _ ⟨⟩
    obtain rfl | rfl := brackets <;> decide

theorem Writes.member {base : Layout} {b : Expr} {id : Text} {c : Nat} (hb : Writes base b) :
    Writes (Layout.member base id) (.member c b id) := by
  have base_level := level_operand base .trailed
  refine ⟨fun n => ?_, hb.opens_append rfl (Nat.le_refl _) ?_⟩
  · have leads := (hb.operand .trailed).reads n
    have shown := List.cons_ne_nil (fixed .dot) [.name id]
    rw [base_level] at leads
    refine Leads.congr ?_ (and_iff_left trivial)
    refine leads.turn shown (fun _ _ => rfl) fun a turns rest same _ => ?_
    refine Reaches.peek_bind fun token here => ?_
    have kind : token.kind = .dot := congrArg Symbol.kind here
    simp only [kind]
    refine Reaches.advance_bind (Reaches.expect_bind rfl fun name here' => ?_)
    refine Reaches.done ⟨_, rfl, ?_⟩
    rw [show name.value = id from congrArg Symbol.value here']
    simp only [Expr.bare, same]
  · rintro _ ⟨⟩
    nofun

open Layout (argumentSymbols optionSymbols stepSymbols)

-- An argument by position has no name before `=`, and comes before those that have one.
theorem takes_argument {a : Argument} {n : Nat} {afterKeyword : Bool} (h : Writes a.2.layout a.2)
    (ordered : afterKeyword = true → a.1.isSome) :
    Takes (a.2.layout.whole.nesting ≤ n) (argument (readAt n) afterKeyword)
      (argumentSymbols (a.1, a.2.layout))
      (fun kind => stops .conditional kind = true ∧ kind ≠ .assign)
      (fun b => (b.1, b.2.bare) = (a.1, a.2.bare)) := by
  obtain ⟨keyword, e⟩ := a
  rintro rest ⟨stopped, unassigned⟩
  cases keyword with
  | some id =>
      refine Reaches.peek_bind fun token here => ?_
      obtain ⟨kind, value⟩ := Symbol.mk.inj here
      refine Reaches.peekSecond_bind fun second behind => ?_
      have assigns : second.kind = .assign := behind.elim (fun kind => kind) fun none => by simp at none
      rw [kind, assigns]
      refine Reaches.advance_bind (Reaches.advance_bind ?_)
      refine (Reaches.bind_nil (h.takes_whole n) stopped fun e' same => ?_).congr
        (and_iff_left trivial)
      exact Reaches.done ⟨_, rfl, Prod.ext (congrArg some value) same⟩
  | none =>
      have before : afterKeyword = false := by simpa using ordered
      obtain ⟨s, tail, written, -, unnamed⟩ := h.opens
      have unassigned' (named : s.kind = .name) : leading tail (nextKind rest) ≠ .assign := by
        cases tail with
        | nil => exact unassigned
        | cons t tail => exact unnamed named t rfl
      show Reaches _ _ e.layout.symbols _ _
      rw [written]
      refine Reaches.peek_bind fun token here => ?_
      refine Reaches.peekSecond_bind fun second behind => ?_
      have other : (token.kind == .name && second.kind == .assign) = false := by
        rw [show token.kind = s.kind from congrArg Symbol.kind here]
        simp only [Bool.and_eq_false_imp, beq_iff_eq, beq_eq_false_iff_ne]
        intro named
        obtain kind | ⟨-, kind⟩ := behind <;> rw [kind]
        · exact unassigned' named
        · rw [named]
          nofun
      rw [other, before, ← written]
      refine (Reaches.bind_nil (h.takes_whole n) stopped fun e' same => ?_).congr
        (and_iff_left trivial)
      exact Reaches.done ⟨_, rfl, Prod.ext rfl same⟩

theorem argumentSymbols_ne {a : Argument} (h : Writes a.2.layout a.2) (behind : List Symbol)
    (next : TokenKind) :
    leading (argumentSymbols (a.1, a.2.layout) ++ behind) next ≠ .closeParen := by
  obtain ⟨_ | id, e⟩ := a
  · exact h.opens.leading_ne rfl behind next
  · nofun

theorem commas_cons_cons (piece other : List Symbol) (rest : List (List Symbol)) :
    commas (piece :: other :: rest) = piece ++ fixed .comma :: commas (other :: rest) := by
  simp [commas]

-- What is written for the arguments of a call.
def argumentsSymbols (args : List Argument) : List Symbol :=
  commas (args.map fun a => argumentSymbols (a.1, a.2.layout))

theorem isSome_behind {a b : Argument} {args : List Argument} {afterKeyword : Bool}
    (before : ∀ b ∈ args, a.1.isSome → b.1.isSome)
    (after : afterKeyword = true → ∀ b ∈ a :: args, b.1.isSome) (same : b.1 = a.1)
    (keyword : (afterKeyword || b.1.isSome) = true) : ∀ b ∈ args, b.1.isSome := by
  rw [Bool.or_eq_true, same] at keyword
  obtain keyword | keyword := keyword
  · exact fun b member => after keyword b (List.mem_cons_of_mem a member)
  · exact fun b member => before b member keyword

theorem takes_argumentsLoop {args : List Argument} {n turns : Nat} {afterKeyword : Bool}
    (h : ∀ a ∈ args, Writes a.2.layout a.2)
    (ordered : args.Pairwise fun a b => a.1.isSome → b.1.isSome)
    (after : afterKeyword = true → ∀ a ∈ args, a.1.isSome) (counted : args.length ≤ turns) :
    Takes (∀ a ∈ args, a.2.layout.whole.nesting ≤ n)
      (argumentsLoop (readAt n) .closeParen turns afterKeyword) (argumentsSymbols args)
      (· = .closeParen) (List.map (fun a => (a.1, a.2.bare)) · = args.map fun a => (a.1, a.2.bare)) := by
  induction args generalizing turns afterKeyword with
  | nil =>
      intro rest closes
      cases turns with
      | zero => exact (Reaches.done ⟨[], rfl, rfl⟩).congr (by simp)
      | succ turns =>
          refine Reaches.peek_bind_nil fun token kind => ?_
          rw [kind, closes]
          exact (Reaches.done ⟨[], rfl, rfl⟩).congr (by simp)
  | cons a args ih =>
      intro rest closes
      obtain ⟨turns, rfl⟩ := Nat.exists_eq_add_of_le' (Nat.lt_of_lt_of_le (Nat.succ_pos _) counted)
      obtain ⟨before, ordered⟩ := List.pairwise_cons.mp ordered
      have written := h a List.mem_cons_self
      have first : Takes (a.2.layout.whole.nesting ≤ n) (argument (readAt n) afterKeyword) _ _ _ :=
        takes_argument written fun keyword => after keyword a List.mem_cons_self
      have others : (∀ b ∈ args, Writes b.2.layout b.2) := fun b member =>
        h b (List.mem_cons_of_mem a member)
      refine Reaches.peek_bind_kind fun token kind => ?_
      have opens : (token.kind == .closeParen) = false := by
        rw [kind]
        exact beq_false_of_ne (argumentSymbols_ne written _ _)
      rw [opens, List.forall_mem_cons]
      cases args with
      | nil =>
          show Reaches _ _ (_ ++ []) _ _
          refine Reaches.bind first ⟨by rw [closes]; rfl, by rw [closes]; nofun⟩ fun b same => ?_
          refine Reaches.accept_bind_other (by rw [closes]; nofun) ?_
          exact (Reaches.done ⟨[b], rfl, List.cons_eq_cons.mpr ⟨same, rfl⟩⟩).congr (by simp)
      | cons b args =>
          show Reaches _ _ (commas (_ :: _ :: _)) _ _
          rw [commas_cons_cons]
          refine Reaches.bind first ⟨rfl, nofun⟩ fun a' same => ?_
          refine Reaches.accept_bind rfl ?_
          have after' := isSome_behind before after (Prod.ext_iff.mp same).1
          have taken := ih others ordered after' (Nat.le_of_succ_le_succ counted)
          refine (Reaches.bind_nil taken closes fun found hold => ?_).congr (and_iff_left trivial)
          exact Reaches.done ⟨a' :: found, rfl, List.cons_eq_cons.mpr ⟨same, hold⟩⟩

theorem length_le_commas (pieces : List (List Symbol)) :
    pieces.length ≤ (commas pieces).length + 1 := by
  cases pieces with
  | nil => exact Nat.zero_le _
  | cons piece pieces =>
      have several : pieces.length ≤ (pieces.flatMap (fixed .comma :: ·)).length :=
        length_le_flatMap fun _ => List.cons_ne_nil _ _
      simp only [commas, List.length_append, List.length_cons]
      omega

theorem takes_arguments {args : List Argument} {n : Nat} (h : ∀ a ∈ args, Writes a.2.layout a.2)
    (ordered : args.Pairwise fun a b => a.1.isSome → b.1.isSome) :
    Takes (∀ a ∈ args, a.2.layout.whole.nesting ≤ n) (arguments (readAt n) .closeParen)
      (argumentsSymbols args) (· = .closeParen)
      (List.map (fun a => (a.1, a.2.bare)) · = args.map fun a => (a.1, a.2.bare)) := by
  intro rest closes
  refine Reaches.remaining_bind fun turns counted => ?_
  refine takes_argumentsLoop h ordered (fun keyword => Bool.noConfusion keyword) ?_ rest closes
  have several := length_le_commas (args.map fun a => argumentSymbols (a.1, a.2.layout))
  rw [List.length_map] at several
  cases rest with
  | nil => contradiction
  | cons token rest =>
      rw [argumentsSymbols, List.length_cons] at counted
      omega

theorem Writes.call {func : Layout} {args : List Argument} {f : Expr} {c : Nat}
    (ordered : args.Pairwise fun a b => a.1.isSome → b.1.isSome) (hf : Writes func f)
    (h : ∀ a ∈ args, Writes a.2.layout a.2) :
    Writes (Layout.call func (args.map fun a => (a.1, a.2.layout))) (.call c f args) := by
  refine hf.trailed (.inl rfl) fun n base turns rest same => ?_
  rw [List.map_map, List.map_map, List.forall_mem_map]
  refine Reaches.peek_bind fun token here => ?_
  have kind : token.kind = .openParen := congrArg Symbol.kind here
  simp only [kind]
  refine Reaches.advance_bind ?_
  refine (Reaches.bind (takes_arguments h ordered) rfl fun found hold => ?_).congr
    (and_iff_left trivial)
  refine Reaches.discard_bind rfl (Reaches.done ⟨_, rfl, ?_⟩)
  simp only [Expr.bare, bareArguments_eq, same, hold]

theorem takes_slicePart_some {w : Layout} {e : Expr} {n : Nat} {closing : List TokenKind}
    (h : Writes w e) (ends : ∀ kind ∈ closing, startsExpr kind = false) :
    Takes (w.whole.nesting ≤ n) (slicePart (readAt n) closing) w.symbols
      (stops .conditional · = true) (Option.map Expr.bare · = some e.bare) := by
  intro rest stopped
  refine Reaches.peek_bind_kind fun token kind => ?_
  have inside : closing.contains token.kind = false := by
    rw [List.contains_eq_any_beq, List.any_eq_false]
    intro k member same
    have other := h.opens.leading_ne (ends k member) [] (nextKind rest)
    rw [List.append_nil, ← kind] at other
    exact other (eq_of_beq same)
  rw [inside]
  refine (Reaches.bind_nil (h.takes_whole n) stopped fun e' same => ?_).congr (and_iff_left trivial)
  exact Reaches.done ⟨_, rfl, congrArg some same⟩

theorem takes_slicePart {e : Option Expr} {n : Nat} {closing : List TokenKind}
    (h : ∀ x ∈ e, Writes x.layout x) (ends : ∀ kind ∈ closing, startsExpr kind = false) :
    Takes (∀ x ∈ e, x.layout.whole.nesting ≤ n) (slicePart (readAt n) closing)
      (optionSymbols (e.map Expr.layout))
      (fun kind => closing.contains kind = true ∧ stops .conditional kind = true)
      (Option.map Expr.bare · = e.map Expr.bare) := by
  rintro rest ⟨closes, stopped⟩
  cases e with
  | none =>
      refine Reaches.peek_bind_nil fun token kind => ?_
      rw [kind, closes]
      exact (Reaches.done ⟨_, rfl, rfl⟩).congr (by simp)
  | some x => exact (takes_slicePart_some (h x rfl) ends rest stopped).congr (by simp)

theorem takes_subscript_item {w : Layout} {e : Expr} (h : Writes w e) (n : Nat) :
    Takes (w.whole.nesting ≤ n) (subscript (readAt n)) w.symbols (· = .closeBracket)
      (Subscript.bare · = .item e.bare) := by
  intro rest closes
  have stopped : stops .conditional (nextKind rest) = true := by
    rw [closes]
    rfl
  refine Reaches.peek_bind_kind fun first _ => ?_
  refine (Reaches.bind_nil (takes_slicePart_some h ?_) stopped fun e' same => ?_).congr
    (and_iff_left trivial)
  · simp [startsExpr]
  · obtain ⟨e', rfl, holds⟩ := Option.map_eq_some_iff.mp same
    refine Reaches.peek_bind_nil fun token kind => ?_
    rw [kind, closes]
    exact Reaches.done ⟨_, rfl, congrArg Subscript.item holds⟩

-- The last part of a slice stands behind a colon of its own.
theorem reaches_step {step : Option Expr} {n : Nat} {rest : List Token}
    {k : Option Expr → Reader Subscript} {K : Reader Subscript → Prop}
    (h : ∀ x ∈ step, Writes x.layout x) (closes : nextKind rest = .closeBracket)
    (later : ∀ found, found.map Expr.bare = step.map Expr.bare → Reaches True (k found) [] rest K) :
    Reaches (∀ x ∈ step, x.layout.whole.nesting ≤ n)
      (accept .colon >>= fun more =>
        if more then slicePart (readAt n) [.closeBracket] >>= k else pure none >>= k)
      (stepSymbols (step.map Expr.layout)) rest K := by
  cases step with
  | none =>
      refine Reaches.accept_bind_other (by rw [closes]; nofun) ?_
      exact (later none rfl).congr (by simp)
  | some x =>
      have last : Takes (x.layout.whole.nesting ≤ n) (slicePart _ [.closeBracket]) _ _ _ :=
        takes_slicePart_some (h x rfl) (by simp [startsExpr])
      have fits : (x.layout.whole.nesting ≤ n ∧ True)
          ↔ ∀ y ∈ some x, y.layout.whole.nesting ≤ n := by
        simp
      refine Reaches.accept_bind rfl ?_
      exact (Reaches.bind_nil last (by rw [closes]; rfl) later).congr fits

theorem takes_subscript_slice {lower upper step : Option Expr} {n : Nat}
    (hl : ∀ x ∈ lower, Writes x.layout x) (hu : ∀ x ∈ upper, Writes x.layout x)
    (hs : ∀ x ∈ step, Writes x.layout x) :
    Takes ((∀ x ∈ lower, x.layout.whole.nesting ≤ n) ∧ (∀ x ∈ upper, x.layout.whole.nesting ≤ n)
        ∧ ∀ x ∈ step, x.layout.whole.nesting ≤ n)
      (subscript (readAt n))
      (optionSymbols (lower.map Expr.layout) ++ fixed .colon ::
        (optionSymbols (upper.map Expr.layout) ++ stepSymbols (step.map Expr.layout)))
      (· = .closeBracket) (Subscript.bare · =
        .slice 0 (lower.map Expr.bare) (upper.map Expr.bare) (step.map Expr.bare)) := by
  intro rest closes
  have part : ∀ kind ∈ [TokenKind.colon, .closeBracket], startsExpr kind = false := by
    simp [startsExpr]
  refine Reaches.peek_bind_kind fun first _ => ?_
  refine Reaches.bind (takes_slicePart hl (by simp [startsExpr])) ⟨rfl, rfl⟩ fun lower' same => ?_
  refine Reaches.peek_bind fun token here => ?_
  rw [show token.kind = .colon from congrArg Symbol.kind here]
  -- With or without a lower bound, the colon makes it a slice.
  cases lower' with
  | none | some _ =>
      refine Reaches.discard_bind rfl ?_
      refine Reaches.bind (takes_slicePart hu part) ?_ fun upper' same' => ?_
      · rw [closes]
        cases step <;> exact ⟨rfl, rfl⟩
      · refine reaches_step hs closes fun step' same'' => Reaches.done ⟨_, rfl, ?_⟩
        simp only [Subscript.bare, bareOption_eq, same, same', same'']

theorem Writes.item {base position : Layout} {b p : Expr} {c : Nat} (hb : Writes base b)
    (hp : Writes position p) : Writes (Layout.item base position) (.index c b (.item p)) := by
  refine hb.trailed (.inr rfl) fun n base' turns rest same => ?_
  rw [List.forall_mem_singleton]
  refine Reaches.peek_bind fun token here => ?_
  have kind : token.kind = .openBracket := congrArg Symbol.kind here
  simp only [kind]
  refine Reaches.advance_bind ?_
  refine (Reaches.bind (takes_subscript_item hp n) rfl fun sub hold => ?_).congr
    (and_iff_left trivial)
  refine Reaches.discard_bind rfl (Reaches.done ⟨_, rfl, ?_⟩)
  simp only [Expr.bare, Subscript.bare, same, hold]

theorem Writes.slice {base : Layout} {b : Expr} {lower upper step : Option Expr} {c d : Nat}
    (hb : Writes base b) (hl : ∀ x ∈ lower, Writes x.layout x)
    (hu : ∀ x ∈ upper, Writes x.layout x) (hs : ∀ x ∈ step, Writes x.layout x) :
    Writes (Layout.slice base (lower.map Expr.layout) (upper.map Expr.layout)
      (step.map Expr.layout)) (.index c b (.slice d lower upper step)) := by
  refine hb.trailed (.inr rfl) fun n base' turns rest same => ?_
  have fits : ((∀ x ∈ lower, x.layout.whole.nesting ≤ n)
        ∧ (∀ x ∈ upper, x.layout.whole.nesting ≤ n) ∧ ∀ x ∈ step, x.layout.whole.nesting ≤ n)
      ↔ ∀ m ∈ ((lower.map Expr.layout).toList ++ (upper.map Expr.layout).toList
        ++ (step.map Expr.layout).toList).map (·.whole.nesting), m ≤ n := by
    cases lower <;> cases upper <;> cases step <;> simp
  refine Reaches.congr ?_ fits
  refine Reaches.peek_bind fun token here => ?_
  have kind : token.kind = .openBracket := congrArg Symbol.kind here
  simp only [kind]
  refine Reaches.advance_bind ?_
  refine (Reaches.bind (takes_subscript_slice hl hu hs) rfl fun sub hold => ?_).congr
    (and_iff_left trivial)
  refine Reaches.discard_bind rfl (Reaches.done ⟨_, rfl, ?_⟩)
  simp only [Expr.bare, Subscript.bare, bareOption_eq, same, hold]

end Snippet.Grammar
