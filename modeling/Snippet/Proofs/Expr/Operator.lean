import Snippet.Proofs.Expr.Atom

/-!
What is read at the levels of operators: the operands of every operator are read at the levels
where they are written.
-/

set_option autoImplicit false

namespace Snippet.Grammar

open Reader Snippet.Symbol

-- No budget at all reads nothing.
theorem Reads.positive {w : Layout} {e : Expr} (reads : Reads w e) : 1 ≤ w.nesting := by
  refine Nat.pos_of_ne_zero fun none => ?_
  let ts : List Token :=
    w.symbols.map fun s => { kind := s.kind, value := s.value, column := 0, span := [] }
  have same : ts.map Token.symbol = w.symbols := by
    simp only [ts, List.map_map]
    exact List.map_id _
  obtain ⟨read, -⟩ := reads.takes 0 [Token.finishAt 1] rfl (List.cons_ne_nil _ _) ts same
  obtain ⟨_, ⟨e', rfl, -⟩, ran⟩ := read (Nat.le_of_eq none)
  cases ran

-- The operand in front decides how an expression starts.
theorem Writes.opens_append {w v : Layout} {e : Expr} {level : Level} {symbols : List Symbol}
    (h : Writes w e) (written : v.symbols = (w.operand level).symbols ++ symbols)
    (looser : v.level.rank ≤ level.rank) (behind : ∀ s ∈ symbols.head?, s.kind ≠ .assign) :
    Opens v := by
  obtain ⟨s, tail, begins, starting, unassigned⟩ := (h.operand level).opens
  rw [level_operand] at starting
  refine ⟨s, tail ++ symbols, ?_, starts_mono looser starting, fun named => ?_⟩
  · rw [written, begins, List.cons_append]
  · cases tail with
    | nil => exact behind
    | cons t tail => exact unassigned named

theorem Writes.chained {level : Level} {s : Symbol} {left right : Layout} {l r e : Expr}
    {join? : TokenKind → Option (Expr → Expr → Expr)} {join : Expr → Expr → Expr}
    (hl : Writes left l) (hr : Writes right r)
    (loops : ∀ levels, loopOf levels level = chainLoop (levels level.tighter) join?)
    (joins : join? s.kind = some join) (between : stops level.inner s.kind = true)
    (unassigned : s.kind ≠ .assign)
    (same : ∀ l' r', l'.bare = l.bare → r'.bare = r.bare → (join l' r').bare = e.bare) :
    Writes (Layout.chained level s left right) e := by
  have left_level := level_operand left level
  have first := hl.operand level
  refine ⟨fun n => ?_, ?_⟩
  · have leads := first.reads n
    have shown := List.cons_ne_nil s (right.operand level.tighter).symbols
    have fits : (left.operand level).nesting ≤ n ∧ (right.operand level.tighter).nesting ≤ n - 1
        ↔ (Layout.chained level s left right).nesting ≤ n := by
      have := first.reads.positive
      simp only [Layout.chained]
      omega
    rw [left_level] at leads
    -- The operator and its right operand are one more turn of the loop behind the left one.
    refine Leads.congr ?_ fits
    refine leads.turn shown (fun _ _ => between) fun l' turns rest holds stopped => ?_
    rw [loops]
    refine Reaches.peek_bind fun token here => ?_
    rw [show token.kind = s.kind from congrArg Symbol.kind here, joins]
    have follows := stops_mono (Level.rank_inner_le level) stopped
    refine Reaches.advance_bind ?_
    refine (Reaches.bind_nil (hr.takes_operand level.tighter (n - 1)) follows
      fun r' holds' => ?_).congr (and_iff_left trivial)
    exact Reaches.done ⟨_, rfl, same l' r' holds holds'⟩
  · refine hl.opens_append rfl (Nat.le_refl _) ?_
    rintro _ ⟨⟩
    exact unassigned

theorem Writes.bool {op : BoolOp} {left right : Layout} {l r : Expr} {c : Nat}
    (hl : Writes left l) (hr : Writes right r) :
    Writes (Layout.bool op left right) (.bool c op l r) := by
  cases op with
  | and =>
      exact hl.chained hr (fun _ => rfl) rfl rfl nofun fun l' r' same same' => by
        simp only [Expr.bare, same, same']
  | or =>
      exact hl.chained hr (fun _ => rfl) rfl rfl nofun fun l' r' same same' => by
        simp only [Expr.bare, same, same']

theorem Writes.prefixed {level : Level} {s : Symbol} {w : Layout} {op : UnaryOp} {e : Expr} {c : Nat}
    (h : Writes w e) (loops : ∀ levels, loopOf levels level = fun _ e => pure e)
    (tight : level.inner = level) (starting : starts level s.kind = true) (unnamed : s.kind ≠ .name)
    (reads : ∀ levels, ∃ k : Token → Reader Expr, Grammar.level levels level = (peek >>= k)
      ∧ ∀ token, token.kind = s.kind → k token =
        (advance >>= fun _ => levels level >>= fun e => pure (.unary token.column op e))) :
    Writes (Layout.prefixed level s w) (.unary c op e) := by
  refine ⟨Reads.of_level (Nat.le_add_right 1 _) fun n => ?_, s, _, rfl, starting,
    fun named => absurd named unnamed⟩
  have fits : (w.operand level).nesting ≤ n ↔ (Layout.prefixed level s w).nesting ≤ n + 1 := by
    simp only [Layout.prefixed]
    omega
  obtain ⟨k, reads, behaves⟩ := reads (readAt n)
  show Leads _ (Grammar.level (readAt n) level) _ _ (loopOf (readAt n) level) _
  rw [loops, reads]
  refine Leads.of_takes fun rest stopped => Reaches.congr ?_ fits
  change stops level.inner (nextKind rest) = true at stopped
  rw [tight] at stopped
  refine Reaches.peek_bind fun token here => ?_
  rw [behaves token (congrArg Symbol.kind here)]
  refine Reaches.advance_bind ?_
  refine (Reaches.bind_nil (h.takes_operand level n) stopped fun e' same => ?_).congr
    (and_iff_left trivial)
  exact Reaches.done ⟨_, rfl, by simp only [Expr.bare, same]⟩

theorem Writes.unary {op : UnaryOp} {w : Layout} {e : Expr} {c : Nat} (h : Writes w e) :
    Writes (Layout.unary op w) (.unary c op e) := by
  cases op with
  | not =>
      refine h.prefixed (fun _ => rfl) rfl rfl nofun fun levels => ⟨_, rfl, fun token kind => ?_⟩
      rw [kind]
      rfl
  | minus =>
      refine h.prefixed (fun _ => rfl) rfl rfl nofun fun levels => ⟨_, rfl, fun token kind => ?_⟩
      rw [kind]
      rfl
  | plus =>
      refine h.prefixed (fun _ => rfl) rfl rfl nofun fun levels => ⟨_, rfl, fun token kind => ?_⟩
      rw [kind]
      rfl

-- No token goes on at the level of signs alone.
theorem stops_unary {kind : TokenKind} (stopped : stops .power kind = true) :
    stops .unary kind = true := by
  cases kind <;> first | rfl | contradiction

-- The base of a power is an operand with its brackets, the exponent may have a sign.
theorem Writes.power {base exponent : Layout} {b x : Expr} {c : Nat} (hb : Writes base b)
    (hx : Writes exponent x) : Writes (Layout.power base exponent) (.binary c .pow b x) := by
  refine ⟨Reads.of_level (Nat.le_add_right 1 _) fun n => ?_, ?_⟩
  · have fits : (base.operand .trailed).nesting ≤ n ∧ (exponent.operand .unary).nesting ≤ n
        ↔ (Layout.power base exponent).nesting ≤ n + 1 := by
      simp only [Layout.power]
      omega
    refine Leads.of_takes fun rest stopped => Reaches.congr ?_ fits
    refine Reaches.bind (hb.takes_operand .trailed n) rfl fun b' same => ?_
    refine Reaches.accept_bind rfl ?_
    refine (Reaches.bind_nil (hx.takes_operand .unary n) (stops_unary stopped)
      fun x' same' => ?_).congr (and_iff_left trivial)
    exact Reaches.done ⟨_, rfl, by simp only [Expr.bare, same, same']⟩
  · refine hb.opens_append rfl (show Level.power.rank ≤ _ by decide) ?_
    rintro _ ⟨⟩
    nofun

theorem Writes.binary {op : BinaryOp} {left right : Layout} {l r : Expr} {c : Nat}
    (hl : Writes left l) (hr : Writes right r) :
    Writes (Layout.binary op left right) (.binary c op l r) := by
  have same {op : BinaryOp} (l' r' : Expr) (hl' : l'.bare = l.bare) (hr' : r'.bare = r.bare) :
      (Expr.binary l'.column op l' r').bare = (Expr.binary c op l r).bare := by
    simp only [Expr.bare, hl', hr']
  cases op with
  | add | sub => exact hl.chained hr (fun _ => rfl) rfl rfl nofun same
  | mul | div | floorDiv | mod => exact hl.chained hr (fun _ => rfl) rfl rfl nofun same
  | pow => exact hl.power hr

theorem Writes.conditional {test body orelse : Layout} {t b o : Expr} {c : Nat}
    (ht : Writes test t) (hb : Writes body b) (ho : Writes orelse o) :
    Writes (Layout.conditional test body orelse) (.conditional c t b o) := by
  refine ⟨Reads.of_level (Nat.le_add_right 1 _) fun n => ?_, ?_⟩
  · have fits : (body.operand .or).nesting ≤ n ∧ (test.operand .or).nesting ≤ n
          ∧ orelse.whole.nesting ≤ n
        ↔ (Layout.conditional test body orelse).nesting ≤ n + 1 := by
      simp only [Layout.conditional, maxOf, List.foldr]
      omega
    refine Leads.of_takes fun rest stopped => Reaches.congr ?_ fits
    refine Reaches.bind (hb.takes_operand .or n) rfl fun b' same => ?_
    refine Reaches.accept_bind rfl ?_
    refine Reaches.bind (ht.takes_operand .or n) rfl fun t' same' => ?_
    refine Reaches.discard_bind rfl ?_
    refine (Reaches.bind_nil (ho.takes_whole n) stopped fun o' same'' => ?_).congr
      (and_iff_left trivial)
    exact Reaches.done ⟨_, rfl, by simp only [Expr.bare, same, same', same'']⟩
  · refine hb.opens_append rfl (Nat.zero_le _) ?_
    rintro _ ⟨⟩
    decide

open Layout (comparisonSymbols)

-- An `is` takes a `not` behind it too.
theorem takes_comparison? (op : Comparison) :
    Takes True comparison? (comparisonSymbols op) (· ≠ .not) (· = some op) := by
  have single {op : Comparison} {kind : TokenKind} (found : comparisonOf? kind = some op) :
      Takes True comparison? [fixed kind] (· ≠ .not) (· = some op) := by
    intro rest _
    refine Reaches.peek_bind fun token here => ?_
    rw [show token.kind = kind from congrArg Symbol.kind here, found]
    exact Reaches.advance_bind (Reaches.done ⟨_, rfl, rfl⟩)
  cases op with
  | eq | ne | lt | gt | le | ge | isIn => exact single rfl
  | notIn =>
      intro rest _
      refine Reaches.peek_bind fun token here => ?_
      rw [show token.kind = .not from congrArg Symbol.kind here]
      refine Reaches.peekSecond_bind fun second behind => ?_
      obtain kind | ⟨none, -⟩ := behind
      · rw [show second.kind = .in from kind]
        exact Reaches.advance_bind (Reaches.advance_bind (Reaches.done ⟨_, rfl, rfl⟩))
      · contradiction
  | same =>
      intro rest other
      refine Reaches.peek_bind fun token here => ?_
      rw [show token.kind = .is from congrArg Symbol.kind here]
      exact Reaches.advance_bind (Reaches.accept_bind_other other (Reaches.done ⟨_, rfl, rfl⟩))
  | notSame =>
      intro rest _
      refine Reaches.peek_bind fun token here => ?_
      rw [show token.kind = .is from congrArg Symbol.kind here]
      exact Reaches.advance_bind (Reaches.accept_bind rfl (Reaches.done ⟨_, rfl, rfl⟩))

-- The first symbol of a comparison ends an operand.
theorem comparisonSymbols_eq (op : Comparison) :
    ∃ s rest, comparisonSymbols op = s :: rest ∧ stops .sum s.kind = true ∧ s.kind ≠ .assign := by
  cases op <;> exact ⟨_, _, rfl, rfl, nofun⟩

-- What is written for an operator and its operand.
def linkSymbols (link : Comparison × Expr) : List Symbol :=
  comparisonSymbols link.1 ++ (link.2.layout.operand .sum).symbols

theorem linkSymbols_ne_nil (link : Comparison × Expr) : linkSymbols link ≠ [] := by
  obtain ⟨s, rest, written, -⟩ := comparisonSymbols_eq link.1
  rw [linkSymbols, written]
  exact List.cons_ne_nil _ _

theorem stops_linkSymbols {links : List (Comparison × Expr)} {kind : TokenKind}
    (stopped : stops .comparison kind = true) :
    stops .sum (leading (links.flatMap linkSymbols) kind) = true := by
  cases links with
  | nil => exact stops_mono (by decide) stopped
  | cons link links =>
      obtain ⟨s, rest, written, stopped, -⟩ := comparisonSymbols_eq link.1
      rw [List.flatMap_cons, linkSymbols, written]
      exact stopped

theorem takes_linksLoop {links : List (Comparison × Expr)} {n turns : Nat}
    (h : ∀ l ∈ links, Writes l.2.layout l.2) (counted : links.length ≤ turns) :
    Takes (∀ l ∈ links, (l.2.layout.operand .sum).nesting ≤ n) (linksLoop (readAt n .sum) turns)
      (links.flatMap linkSymbols) (stops .comparison · = true)
      (List.map (fun l => (l.1, l.2.bare)) · = links.map fun l => (l.1, l.2.bare)) := by
  induction links generalizing turns with
  | nil =>
      intro rest stopped
      refine ((takes_linksLoop_nil _ turns rest stopped).congr (by simp)).weaken ?_
      rintro _ ⟨_, rfl, rfl⟩
      exact ⟨[], rfl, rfl⟩
  | cons link links ih =>
      intro rest stopped
      obtain ⟨turns, rfl⟩ := Nat.exists_eq_add_of_le' (Nat.lt_of_lt_of_le (Nat.succ_pos _) counted)
      have written := h link List.mem_cons_self
      have later := ih (fun l member => h l (List.mem_cons_of_mem link member))
        (Nat.le_of_succ_le_succ counted)
      obtain ⟨s, tail, begins, starting, -⟩ := (written.operand .sum).opens
      -- No operand starts with `not`, which would be taken as a part of the operator.
      have other : s.kind ≠ .not := by
        intro kind
        rw [level_operand, kind] at starting
        contradiction
      rw [List.flatMap_cons, linkSymbols, List.append_assoc, List.forall_mem_cons]
      refine (Reaches.bind (takes_comparison? link.1) ?_ ?_).congr (and_iff_right trivial)
      · rw [begins]
        exact other
      · rintro _ rfl
        refine Reaches.bind (written.takes_operand .sum n) (stops_linkSymbols stopped)
          fun e' same => ?_
        refine (Reaches.bind_nil later stopped fun found hold => ?_).congr (and_iff_left trivial)
        exact Reaches.done ⟨_, rfl, List.cons_eq_cons.mpr ⟨Prod.ext rfl same, hold⟩⟩

theorem Writes.compared {first : Expr} {links : List (Comparison × Expr)} {c : Nat}
    (shown : links ≠ []) (hf : Writes first.layout first)
    (hl : ∀ l ∈ links, Writes l.2.layout l.2) :
    Writes (Layout.compared first.layout (links.map fun l => (l.1, l.2.layout)))
      (.compare c first links) := by
  have symbols : (Layout.compared first.layout (links.map fun l => (l.1, l.2.layout))).symbols
      = (first.layout.operand .sum).symbols ++ links.flatMap linkSymbols := by
    simp only [Layout.compared, List.map_map, List.flatMap_map]
    rfl
  refine ⟨Reads.of_level (Nat.le_add_right 1 _) fun n => ?_, ?_⟩
  · have fits : (first.layout.operand .sum).nesting ≤ n
          ∧ (∀ l ∈ links, (l.2.layout.operand .sum).nesting ≤ n)
        ↔ (Layout.compared first.layout (links.map fun l => (l.1, l.2.layout))).nesting ≤ n + 1 := by
      rw [Layout.compared, Nat.add_comm 1, Nat.add_le_add_iff_right, maxOf_le,
        List.forall_mem_cons, List.map_map, List.map_map, List.forall_mem_map]
      rfl
    refine Leads.of_takes fun rest stopped => Reaches.congr ?_ fits
    rw [symbols]
    refine Reaches.bind (hf.takes_operand .sum n) (stops_linkSymbols stopped) fun first' same => ?_
    refine Reaches.remaining_bind fun turns counted => ?_
    have several : links.length ≤ turns :=
      Nat.le_trans (length_le_flatMap linkSymbols_ne_nil) (Nat.le_trans (Nat.le_add_right _ _) counted)
    refine (Reaches.bind_nil (takes_linksLoop hl several) stopped fun found hold => ?_).congr
      (and_iff_left trivial)
    have nonempty : found ≠ [] := by
      rintro rfl
      exact shown (List.map_eq_nil_iff.mp hold.symm)
    rw [List.isEmpty_eq_false_iff.mpr nonempty]
    refine Reaches.done ⟨_, rfl, ?_⟩
    simp only [Expr.bare, bareLinks_eq, same, hold]
  · refine hf.opens_append symbols (show Level.comparison.rank ≤ _ by decide) fun s begins => ?_
    obtain ⟨link, others, rfl⟩ := List.exists_cons_of_ne_nil shown
    obtain ⟨t, tail, written, -, unassigned⟩ := comparisonSymbols_eq link.1
    rw [List.flatMap_cons, linkSymbols, written] at begins
    cases begins
    exact unassigned

end Snippet.Grammar
