import Snippet.Proofs.Token.Spelling

/-!
Writing plain expressions: every symbol of their layout has a spelling.
-/

set_option autoImplicit false

namespace Snippet

open Grammar Snippet.Symbol

theorem spelling_fixed {kind : TokenKind}
    (listed : (keywords ++ operators).any (·.2 == kind) = true) :
    Spelling (fixed kind) (fixed kind).written := by
  have table : (keywords ++ operators).all (·.2 != .string) = true := by decide
  obtain ⟨word, found⟩ := Option.isSome_iff_exists.mp (List.find?_isSome.mpr (List.any_eq_true.mp listed))
  have member := List.mem_of_find?_eq_some found
  have kind_eq : word.2 = kind := by simpa using List.find?_some found
  have not_text := List.all_eq_true.mp table word member
  rw [kind_eq, bne, Bool.not_eq_true'] at not_text
  have written : (fixed kind).written = word.1.toList := by
    simp only [Symbol.written, fixed, spelling, found, not_text]
    rfl
  have same : fixed kind = ⟨word.2, word.1.toList⟩ := by
    simp only [fixed, spelling, found, kind_eq]
  rw [written, same]
  exact (List.mem_append.mp member).elim .keyword .operator

namespace Grammar.Layout

/-- Every symbol of a layout has a spelling. -/
def Spelled (w : Layout) : Prop :=
  ∀ s ∈ w.symbols, Spelling s s.written

namespace Spelled

variable {w base : Layout} {level : Level} {inner : List Symbol} {nestings : List Nat}

theorem enclosed {opening closing : TokenKind} (h : ∀ s ∈ inner, Spelling s s.written)
    (opens : (keywords ++ operators).any (·.2 == opening) = true)
    (closes : (keywords ++ operators).any (·.2 == closing) = true) :
    (Layout.enclosed opening closing inner nestings).Spelled := by
  simp only [Spelled, Layout.enclosed, List.forall_mem_cons, List.forall_mem_append]
  exact ⟨spelling_fixed opens, h, spelling_fixed closes, nofun⟩

theorem bracketed (h : w.Spelled) : w.bracketed.Spelled :=
  enclosed h rfl rfl

theorem operand (h : w.Spelled) (level : Level) : (w.operand level).Spelled := by
  rw [Layout.operand]
  split
  · exact h.bracketed
  · exact h

theorem chained {s : Symbol} {left right : Layout} (hl : left.Spelled) (hr : right.Spelled)
    (hs : Spelling s s.written) : (Layout.chained level s left right).Spelled := by
  simp only [Spelled, Layout.chained, List.forall_mem_append, List.forall_mem_cons]
  exact ⟨hl.operand level, hs, hr.operand level.tighter⟩

theorem prefixed {s : Symbol} (h : w.Spelled) (hs : Spelling s s.written) :
    (Layout.prefixed level s w).Spelled := by
  simp only [Spelled, Layout.prefixed, List.forall_mem_cons]
  exact ⟨hs, h.operand level⟩

theorem trailed {opening closing : TokenKind} (hb : base.Spelled)
    (h : ∀ s ∈ inner, Spelling s s.written)
    (opens : (keywords ++ operators).any (·.2 == opening) = true)
    (closes : (keywords ++ operators).any (·.2 == closing) = true) :
    (Layout.trailed opening closing base inner nestings).Spelled := by
  simp only [Spelled, Layout.trailed, List.forall_mem_append]
  exact ⟨hb.operand .trailed, @enclosed _ nestings _ _ h opens closes⟩

end Spelled

end Grammar.Layout

theorem spelled_commas {pieces : List (List Symbol)}
    (h : ∀ piece ∈ pieces, ∀ s ∈ piece, Spelling s s.written) :
    ∀ s ∈ commas pieces, Spelling s s.written := by
  cases pieces with
  | nil => nofun
  | cons piece pieces =>
      simp only [commas, List.forall_mem_append, List.forall_mem_flatMap, List.forall_mem_cons] at h ⊢
      exact ⟨h.1, fun piece member => ⟨spelling_fixed rfl, h.2 piece member⟩⟩

namespace Grammar.Layout.Spelled

theorem literal (v : Literal) : (Layout.literal v).Spelled := by
  have single {s : Symbol} (h : Spelling s s.written) : (Layout.single s).Spelled :=
    List.forall_mem_singleton.mpr h
  cases v with
  | none | float _ => exact single (spelling_fixed rfl)
  | bool b => cases b <;> exact single (spelling_fixed rfl)
  | int n => exact single (.number n)
  | text t => exact single (.text rfl (quoted_flatMap t))
  | joined t =>
      show ∀ s ∈ [Symbol.text [], Symbol.text t], _
      simp only [List.forall_mem_cons]
      exact ⟨.text rfl .nil, .text rfl (quoted_flatMap t), nofun⟩

theorem unary {w : Layout} (h : w.Spelled) (op : UnaryOp) : (Layout.unary op w).Spelled := by
  cases op <;> exact h.prefixed (spelling_fixed rfl)

theorem power {left right : Layout} (hl : left.Spelled) (hr : right.Spelled) :
    (Layout.power left right).Spelled := by
  simp only [Spelled, Layout.power, List.forall_mem_append, List.forall_mem_cons]
  exact ⟨hl.operand .trailed, spelling_fixed rfl, hr.operand .unary⟩

theorem binary {left right : Layout} (hl : left.Spelled) (hr : right.Spelled) (op : BinaryOp) :
    (Layout.binary op left right).Spelled := by
  cases op with
  | pow => exact hl.power hr
  | _ => exact hl.chained hr (spelling_fixed rfl)

theorem bool {left right : Layout} (hl : left.Spelled) (hr : right.Spelled) (op : BoolOp) :
    (Layout.bool op left right).Spelled := by
  cases op <;> exact hl.chained hr (spelling_fixed rfl)

theorem conditional {test body orelse : Layout} (ht : test.Spelled) (hb : body.Spelled)
    (ho : orelse.Spelled) : (Layout.conditional test body orelse).Spelled := by
  simp only [Spelled, Layout.conditional, List.forall_mem_append, List.forall_mem_cons]
  exact ⟨hb.operand .or, spelling_fixed rfl, ht.operand .or, spelling_fixed rfl, ho⟩

theorem compared {first : Layout} {links : List (Comparison × Layout)} (hf : first.Spelled)
    (h : ∀ l ∈ links, l.2.Spelled) : (Layout.compared first links).Spelled := by
  have symbols (op : Comparison) : ∀ s ∈ comparisonSymbols op, Spelling s s.written := by
    cases op <;> simp only [comparisonSymbols, List.forall_mem_cons]
    case notIn | notSame => exact ⟨spelling_fixed rfl, spelling_fixed rfl, nofun⟩
    all_goals exact ⟨spelling_fixed rfl, nofun⟩
  simp only [Spelled, Layout.compared, List.forall_mem_append, List.forall_mem_flatMap,
    List.forall_mem_map]
  exact ⟨hf.operand .sum, fun l member => ⟨symbols l.1, (h l member).operand .sum⟩⟩

theorem list {items : List Layout} (h : ∀ w ∈ items, w.Spelled) : (Layout.list items).Spelled :=
  enclosed (spelled_commas (List.forall_mem_map.mpr h)) rfl rfl

theorem tuple {items : List Layout} (h : ∀ w ∈ items, w.Spelled) : (Layout.tuple items).Spelled := by
  refine enclosed ?_ rfl rfl
  split
  · simp only [List.forall_mem_append, List.forall_mem_cons]
    exact ⟨h _ List.mem_cons_self, spelling_fixed rfl, nofun⟩
  · exact spelled_commas (List.forall_mem_map.mpr h)

theorem dict {entries : List (Layout × Layout)} (hk : ∀ e ∈ entries, e.1.Spelled)
    (hv : ∀ e ∈ entries, e.2.Spelled) : (Layout.dict entries).Spelled := by
  refine enclosed (spelled_commas (List.forall_mem_map.mpr fun e member => ?_)) rfl rfl
  simp only [List.forall_mem_append, List.forall_mem_cons]
  exact ⟨hk e member, spelling_fixed rfl, hv e member⟩

theorem member {base : Layout} {id : Text} (hb : base.Spelled) (identifier : isIdentifier id = true) :
    (Layout.member base id).Spelled := by
  simp only [Spelled, Layout.member, List.forall_mem_append, List.forall_mem_cons]
  exact ⟨hb.operand .trailed, spelling_fixed rfl, .name identifier, nofun⟩

theorem call {func : Layout} {args : List (Option Text × Layout)} (hf : func.Spelled)
    (keywords : ∀ a ∈ args, ∀ id ∈ a.1, isIdentifier id = true) (h : ∀ a ∈ args, a.2.Spelled) :
    (Layout.call func args).Spelled := by
  refine trailed hf (spelled_commas (List.forall_mem_map.mpr fun a member => ?_)) rfl rfl
  obtain ⟨_ | id, w⟩ := a
  · exact h _ member
  · simp only [argumentSymbols, List.forall_mem_cons]
    exact ⟨.name (keywords _ member id rfl), spelling_fixed rfl, h _ member⟩

theorem slice {base : Layout} {lower upper step : Option Layout} (hb : base.Spelled)
    (hl : ∀ w ∈ lower, w.Spelled) (hu : ∀ w ∈ upper, w.Spelled) (hs : ∀ w ∈ step, w.Spelled) :
    (Layout.slice base lower upper step).Spelled := by
  have option {w : Option Layout} (h : ∀ x ∈ w, x.Spelled) :
      ∀ s ∈ optionSymbols w, Spelling s s.written := by
    cases w with
    | none => nofun
    | some x => exact h x rfl
  refine trailed hb ?_ rfl rfl
  simp only [List.forall_mem_append, List.forall_mem_cons]
  refine ⟨option hl, spelling_fixed rfl, option hu, ?_⟩
  cases step with
  | none => nofun
  | some x => exact List.forall_mem_cons.mpr ⟨spelling_fixed rfl, hs x rfl⟩

end Grammar.Layout.Spelled

theorem Expr.Plain.spelled {e : Expr} (plain : e.Plain) : e.layout.Spelled := by
  induction plain with
  | literal _ =>
      rw [Expr.layout]
      exact Layout.Spelled.literal _
  | name identifier =>
      rw [Expr.layout]
      exact List.forall_mem_singleton.mpr (.name identifier)
  | list _ ih =>
      rw [Expr.layout, layouts_eq]
      exact Layout.Spelled.list (List.forall_mem_map.mpr ih)
  | tuple _ ih =>
      rw [Expr.layout, layouts_eq]
      exact Layout.Spelled.tuple (List.forall_mem_map.mpr ih)
  | dict _ _ ihKey ihValue =>
      rw [Expr.layout, entryLayouts_eq]
      exact Layout.Spelled.dict (List.forall_mem_map.mpr ihKey) (List.forall_mem_map.mpr ihValue)
  | unary _ ih =>
      rw [Expr.layout]
      exact ih.unary _
  | binary _ _ ihLeft ihRight =>
      rw [Expr.layout]
      exact ihLeft.binary ihRight _
  | bool _ _ ihLeft ihRight =>
      rw [Expr.layout]
      exact ihLeft.bool ihRight _
  | compare _ _ _ ihFirst ihLinks =>
      rw [Expr.layout, linkLayouts_eq]
      exact ihFirst.compared (List.forall_mem_map.mpr ihLinks)
  | conditional _ _ _ ihTest ihBody ihOrelse =>
      rw [Expr.layout]
      exact ihTest.conditional ihBody ihOrelse
  | member identifier _ ih =>
      rw [Expr.layout]
      split
      · exact ih.bracketed.member identifier
      · exact ih.member identifier
  | call _ keywords _ _ ihFunc ihArgs =>
      rw [Expr.layout, argumentLayouts_eq]
      exact ihFunc.call (List.forall_mem_map.mpr keywords) (List.forall_mem_map.mpr ihArgs)
  | item _ _ ihBase ihPosition =>
      rw [Expr.layout]
      exact ihBase.trailed ihPosition rfl rfl
  | slice _ _ _ _ ihBase ihLower ihUpper ihStep =>
      rw [Expr.layout, optionLayout_eq, optionLayout_eq, optionLayout_eq]
      have option {e : Option Expr} (h : ∀ x ∈ e, x.layout.Spelled) :
          ∀ w ∈ e.map Expr.layout, w.Spelled := by
        cases e with
        | none => nofun
        | some x => exact fun w same => by cases same; exact h x rfl
      exact ihBase.slice (option ihLower) (option ihUpper) (option ihStep)

end Snippet
