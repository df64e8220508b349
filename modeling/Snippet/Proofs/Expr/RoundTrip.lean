import Snippet.Proofs.Expr.Trailer
import Snippet.Proofs.Expr.Written

/-!
Reading what is written: every plain expression is read back from its layout, up to its columns.
-/

set_option autoImplicit false

namespace Snippet

open Grammar Reader

theorem Expr.Plain.writes {e : Expr} (plain : e.Plain) : Writes e.layout e := by
  induction plain with
  | literal literal =>
      rw [Expr.layout]
      exact Writes.literal literal
  | name _ =>
      rw [Expr.layout]
      exact Writes.name
  | list _ ih =>
      rw [Expr.layout, layouts_eq]
      exact Writes.list ih
  | tuple _ ih =>
      rw [Expr.layout, layouts_eq]
      exact Writes.tuple ih
  | dict _ _ ihKey ihValue =>
      rw [Expr.layout, entryLayouts_eq]
      exact Writes.dict ihKey ihValue
  | unary _ ih =>
      rw [Expr.layout]
      exact ih.unary
  | binary _ _ ihLeft ihRight =>
      rw [Expr.layout]
      exact ihLeft.binary ihRight
  | bool _ _ ihLeft ihRight =>
      rw [Expr.layout]
      exact ihLeft.bool ihRight
  | compare shown _ _ ihFirst ihLinks =>
      rw [Expr.layout, linkLayouts_eq]
      exact Writes.compared shown ihFirst ihLinks
  | conditional _ _ _ ihTest ihBody ihOrelse =>
      rw [Expr.layout]
      exact Writes.conditional ihTest ihBody ihOrelse
  | member _ _ ih =>
      rw [Expr.layout]
      split
      · exact ih.bracketed.member
      · exact ih.member
  | call ordered _ _ _ ihFunc ihArgs =>
      rw [Expr.layout, argumentLayouts_eq]
      exact ihFunc.call ordered ihArgs
  | item _ _ ihBase ihPosition =>
      rw [Expr.layout]
      exact ihBase.item ihPosition
  | slice _ _ _ _ ihBase ihLower ihUpper ihStep =>
      rw [Expr.layout, optionLayout_eq, optionLayout_eq, optionLayout_eq]
      exact ihBase.slice ihLower ihUpper ihStep

-- Without a comma behind it, a single expression is no tuple.
theorem Grammar.Writes.takes_exprList {w : Layout} {e : Expr} (h : Writes w e) (n : Nat) :
    Takes (w.whole.nesting ≤ n) (exprList (readAt n)) w.symbols (· = .finish)
      (·.bare = e.bare) := by
  intro rest ended
  have stopped : stops .conditional (nextKind rest) = true := by
    rw [ended]
    rfl
  refine (Reaches.bind_nil (h.takes_whole n) stopped fun e' same => ?_).congr (and_iff_left trivial)
  refine Reaches.peek_bind_nil fun token kind => ?_
  rw [kind, ended]
  exact Reaches.done ⟨e', rfl, same⟩

theorem Grammar.readWhole_of_scan {α : Type} {reader : Reader α} {t : Text} {tokens : List Token}
    (scanned : Token.scan t = .ok tokens) :
    readWhole reader t = ((reader >>= fun a => expectEnd >>= fun _ => pure a) (.ofList tokens)).map
      Prod.fst := by
  rw [readWhole, scanned]
  show Except.bind ((reader >>= fun a => expectEnd >>= fun _ => pure a) (.ofList tokens))
    (fun found => .ok found.1) = _
  cases (reader >>= fun a => expectEnd >>= fun _ => pure a) (.ofList tokens) <;> rfl

namespace Expr

-- An expression as a text, with a blank between any two symbols.
def written (e : Expr) : Text :=
  Symbol.spaced e.layout.symbols

/-- However a plain expression is spelled, it is read back up to its columns; beyond the budget
every spelling of it is too deep. -/
theorem read_spelled {e : Expr} (plain : e.Plain) :
    Spells e.layout.symbols e.written ∧
      ∀ t, Spells e.layout.symbols t →
        (e.layout.whole.nesting ≤ readBudget → (read t).map bare = .ok e.bare) ∧
          (readBudget < e.layout.whole.nesting → read t = .error .tooDeep) := by
  refine ⟨spells_spaced plain.spelled, fun t spelled => ?_⟩
  obtain ⟨tokens, last, scanned, symbols⟩ := scanFrom_spells spelled 1
  obtain ⟨fits, deep⟩ :=
    plain.writes.takes_exprList readBudget [Token.finishAt last] rfl (List.cons_ne_nil _ _) tokens
      symbols
  rw [read, readWhole_of_scan scanned, bind_run]
  refine ⟨fun enough => ?_, fun short => ?_⟩
  · obtain ⟨_, ⟨e', rfl, same⟩, ran⟩ := fits enough
    rw [ran]
    exact congrArg Except.ok same
  · rw [deep (by omega)]
    rfl

theorem read_spelled_signed_power :
    (read "not - a ** - b".toList).map bare = .ok (.unary 0 .not (.unary 0 .minus
      (.binary 0 .pow (.name 0 "a".toList) (.unary 0 .minus (.name 0 "b".toList))))) := by
  have name {id : Text} (identifier : isIdentifier id = true) : Plain (.name 0 id) := .name identifier
  have plain : Plain (.unary 0 .not (.unary 0 .minus
      (.binary 0 .pow (.name 0 "a".toList) (.unary 0 .minus (.name 0 "b".toList))))) :=
    .unary (.unary (.binary (name (by decide)) (.unary (name (by decide)))))
  obtain ⟨spelled, reads⟩ := read_spelled plain
  exact (reads _ spelled).1 (by decide)

end Expr

end Snippet
