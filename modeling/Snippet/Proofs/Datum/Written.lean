import Snippet.Proofs.Datum
import Snippet.Proofs.Expr.Parts
import Snippet.Proofs.Expr.Written

/-!
Writing data. The text of a value spells the expression for its datum: quotes and escapes are read
as what they stand for, a minus sign is an operator, and brackets and commas stand where the layout
of the expression has them.
-/

set_option autoImplicit false

namespace Snippet

open Token
open Snippet.Symbol (fixed spelling)

variable {symbols : List Symbol} {t after : Text}

/-! ### Spelling in front of a text -/

theorem Spells.behindBlank (h : Spells symbols t) : Spells symbols (' ' :: t) := by
  cases h with
  | nil blank =>
      refine .nil ?_
      rw [List.all_cons, blank]
      rfl
  | @cons s symbols gap span t blank spelled ends rest =>
      have all : (' ' :: gap).all isLayout = true := by
        rw [List.all_cons, blank]
        rfl
      exact .cons all spelled ends rest

/-- An operator of one character that no longer one starts with. -/
def isMark (kind : TokenKind) (c : Char) : Bool :=
  spelling kind == [c] && kind != .string && kind != .number && kind != .dot &&
    operators.any (·.2 == kind) &&
    operators.all fun o => o.1.toList == [c] || o.1.toList.head? != some c

theorem Spells.mark {kind : TokenKind} {c : Char} (mark : isMark kind c = true)
    (h : Spells symbols t) : Spells (fixed kind :: symbols) (c :: t) := by
  simp only [isMark, Bool.and_eq_true, beq_iff_eq, bne_iff_ne] at mark
  obtain ⟨⟨⟨⟨⟨spelled, no_text⟩, no_number⟩, no_dot⟩, listed⟩, alone⟩ := mark
  have span : (fixed kind).written = [c] := by
    rw [Symbol.written, if_neg (by simpa [fixed] using no_text)]
    exact spelled
  have written : Spelling (fixed kind) [c] := by
    have among : (keywords ++ operators).any (·.2 == kind) = true := by
      rw [List.any_append, listed, Bool.or_true]
    exact span ▸ spelling_fixed among
  refine @Spells.cons _ _ [] _ _ rfl written (fun d _ => ?_) h
  -- An operator that starts with the mark is the mark alone, so nothing behind makes it longer.
  have longer : operators.all (fun o => !([c] ++ [d]).isPrefixOf o.1.toList) = true := by
    refine List.all_eq_true.mpr fun o member => ?_
    have entry := List.all_eq_true.mp alone o member
    cases shown : o.1.toList with
    | nil => rfl
    | cons e rest =>
        rw [shown] at entry
        by_cases same : e = c
        · subst same
          obtain rfl : rest = [] := by simpa using entry
          simp [List.isPrefixOf]
        · simp [List.isPrefixOf, Ne.symm same]
  rw [Symbol.endsBefore]
  split
  · rename_i is_text
    exact absurd is_text no_text
  · rename_i is_number
    exact absurd is_number no_number
  · have value : (fixed kind).value = [c] := spelled
    have dot : (kind == TokenKind.dot) = false := by simpa using no_dot
    have operator : operators.any (·.2 == (fixed kind).kind) = true := listed
    rw [if_pos operator, value, longer]
    show (true && !(kind == TokenKind.dot && isDigit d)) = true
    rw [dot]
    rfl

theorem isMark_comma : isMark .comma ',' = true := by decide

theorem isMark_colon : isMark .colon ':' = true := by decide

theorem isMark_minus : isMark .minus '-' = true := by decide

theorem isMark_openBracket : isMark .openBracket '[' = true := by decide

theorem isMark_closeBracket : isMark .closeBracket ']' = true := by decide

theorem isMark_openParen : isMark .openParen '(' = true := by decide

theorem isMark_closeParen : isMark .closeParen ')' = true := by decide

theorem isMark_openBrace : isMark .openBrace '{' = true := by decide

theorem isMark_closeBrace : isMark .closeBrace '}' = true := by decide

/-- What may stand behind an item. -/
def Follows (after : Text) : Prop :=
  ∀ c ∈ after.head?, c ∈ [',', ':', ')', ']', '}']

theorem follows_single {c : Char} (among : c ∈ [',', ':', ')', ']', '}']) : Follows [c] := by
  rintro d ⟨⟩
  exact among

/-- A text spells some symbols in front of whatever may follow it. -/
def WrittenAs (symbols : List Symbol) (t : Text) : Prop :=
  ∀ rest after, Spells rest after → Follows after → Spells (symbols ++ rest) (t ++ after)

namespace WrittenAs

theorem single {s : Symbol} (spelled : Spelling s t)
    (ends : [',', ':', ')', ']', '}'].all s.endsBefore = true) : WrittenAs [s] t := by
  intro rest after h follows
  exact @Spells.cons _ _ [] _ _ rfl spelled
    (fun c first => List.all_eq_true.mp ends c (follows c first)) h

variable {inner : List Symbol}

theorem enclosed {opening closing : TokenKind} {o c : Char} (opens : isMark opening o = true)
    (closes : isMark closing c = true) (follows : Follows [c]) (h : WrittenAs inner t) :
    WrittenAs (fixed opening :: (inner ++ [fixed closing])) (Value.enclosed [o] t [c]) := by
  intro rest after spelled _
  have behind := h _ _ (spelled.mark closes) follows
  have whole := behind.mark opens
  simpa [Value.enclosed] using whole

theorem commas {pieces : List (List Symbol)} {ts : List Text}
    (each : List.Forall₂ WrittenAs pieces ts) :
    WrittenAs (Grammar.commas pieces) (Value.commaJoined ts) := by
  -- The pieces behind the first one, each with its comma and blank in front.
  have behind {pieces : List (List Symbol)} {ts : List Text}
      (each : List.Forall₂ WrittenAs pieces ts) :
      ∀ rest after, Spells rest after → Follows after →
        Spells (pieces.flatMap (fixed .comma :: ·) ++ rest) (ts.flatMap (", ".toList ++ ·) ++ after)
          ∧ Follows (ts.flatMap (", ".toList ++ ·) ++ after) := by
    induction each with
    | nil => exact fun rest after h follows => ⟨h, follows⟩
    | @cons piece t pieces ts here _ ih =>
        intro rest after h follows
        obtain ⟨later, apart⟩ := ih rest after h follows
        have item := (here _ _ later apart).behindBlank.mark isMark_comma
        refine ⟨by simpa using item, ?_⟩
        rintro c ⟨⟩
        decide
  have joined (t : Text) (ts : List Text) :
      Value.commaJoined (t :: ts) = t ++ ts.flatMap (", ".toList ++ ·) := by
    induction ts generalizing t with
    | nil => simp [Value.commaJoined, Text.join]
    | cons u ts ih =>
        rw [Value.commaJoined, Text.join_cons _ _ (List.cons_ne_nil u ts), ← Value.commaJoined, ih]
        simp
  cases each with
  | nil => exact fun rest after h follows => h
  | @cons piece t pieces ts here later =>
      intro rest after h follows
      obtain ⟨spelled, apart⟩ := behind later rest after h follows
      rw [Grammar.commas, joined, List.append_assoc, List.append_assoc]
      exact here _ _ spelled apart

end WrittenAs

/-! ### Data without parts -/

theorem isQuote_quoteFor (t : Text) : isQuote (Text.quoteFor t) = true := by
  rw [Text.quoteFor]
  split <;> rfl

theorem quoted_quotedChar {quote : Char} (quoted : isQuote quote = true)
    (legible : t.all Datum.isLegible = true) :
    Quoted quote (t.flatMap (Text.quotedChar quote isPrintable)) t := by
  induction t with
  | nil => exact .nil
  | cons c t ih =>
      rw [List.all_cons, Bool.and_eq_true] at legible
      have rest := ih legible.2
      rw [List.flatMap_cons, Text.quotedChar]
      -- A quote or a backslash is escaped as itself, and what is not shown by a letter.
      by_cases special : (c == quote || c == '\\') = true
      · have same : escaped c = [c] := by
          simp only [isQuote, Bool.or_eq_true, beq_iff_eq] at special quoted
          obtain rfl | rfl := special
          · obtain rfl | rfl := quoted <;> rfl
          · rfl
        rw [if_pos special]
        have step := rest.escape c
        rwa [same] at step
      · rw [if_neg special]
        simp only [Bool.or_eq_true, beq_iff_eq, not_or] at special
        split
        · rename_i newline
          cases beq_iff_eq.mp newline
          exact rest.escape 'n'
        · split
          · rename_i carriage
            cases beq_iff_eq.mp carriage
            exact rest.escape 'r'
          · split
            · rename_i tab
              cases beq_iff_eq.mp tab
              exact rest.escape 't'
            · rename_i no_newline no_return no_tab
              have shown : isPrintable c = true := by
                simpa [Datum.isLegible, no_newline, no_return, no_tab] using legible.1
              rw [if_pos shown]
              exact rest.char special.1 special.2

namespace Datum

/-- A text is a written form of a datum. -/
def IsWritten (d : Datum) (t : Text) : Prop :=
  WrittenAs d.expr.layout.symbols t

theorem isWritten_none : IsWritten .none "None".toList :=
  .single (@Spelling.keyword ("None", .none) (by decide)) (by decide)

theorem isWritten_bool (b : Bool) :
    IsWritten (.bool b) (if b then "True".toList else "False".toList) := by
  cases b with
  | true => exact .single (@Spelling.keyword ("True", .true) (by decide)) (by decide)
  | false => exact .single (@Spelling.keyword ("False", .false) (by decide)) (by decide)

theorem isWritten_text (legible : t.all isLegible = true) : IsWritten (.text t) (Text.quoted t) :=
  .single (.text (isQuote_quoteFor t) (quoted_quotedChar (isQuote_quoteFor t) legible)) rfl

theorem writtenAs_number (n : Nat) : WrittenAs [.number n] (digitsOf n) := by
  have ends : [',', ':', ')', ']', '}'].all (fun c => !isNameRest c && c != '.') = true := by decide
  exact .single (.number n) ends

theorem isWritten_int (n : Int) : IsWritten (.int n) (intText n) := by
  have number := writtenAs_number n.natAbs
  rw [intText, IsWritten]
  by_cases negative : n < 0
  · have signed : (int n).expr = .unary 0 .minus (.literal 0 (.int n.natAbs)) := if_pos negative
    rw [if_pos negative, signed]
    exact fun rest after h follows => (number rest after h follows).mark isMark_minus
  · have unsigned : (int n).expr = .literal 0 (.int n.natAbs) := if_neg negative
    rw [if_neg negative, unsigned]
    exact number

/-! ### Containers -/

variable {items : List Datum} {ts : List Text}

theorem writtenAs_items (each : List.Forall₂ IsWritten items ts) :
    WrittenAs (Grammar.commas ((items.map fun d => d.expr.layout).map (·.symbols)))
      (Value.commaJoined ts) := by
  rw [List.map_map]
  exact .commas (List.forall₂_map_left_iff.mpr each)

theorem isWritten_list (each : List.Forall₂ IsWritten items ts) :
    IsWritten (.list items) (Value.enclosed ['['] (Value.commaJoined ts) [']']) := by
  rw [IsWritten, expr_list, Expr.layout, layouts_eq, List.map_map]
  exact (writtenAs_items each).enclosed isMark_openBracket isMark_closeBracket (follows_single (by decide))

-- A single item has a comma behind it.
theorem isWritten_tuple_one {d : Datum} {t : Text} (h : d.IsWritten t) :
    IsWritten (.tuple [d]) (Value.enclosed ['('] t [',', ')']) := by
  rw [IsWritten, expr_tuple, Expr.layout]
  have item : WrittenAs (d.expr.layout.symbols ++ [fixed .comma]) (t ++ [',']) := by
    intro rest after spelled _
    have behind := h _ _ (spelled.mark isMark_comma) (follows_single (by decide))
    simpa using behind
  have whole := item.enclosed isMark_openParen isMark_closeParen (follows_single (by decide))
  simpa [Value.enclosed, layouts, Grammar.Layout.tuple, Grammar.Layout.enclosed] using whole

theorem isWritten_tuple (each : List.Forall₂ IsWritten items ts) (no_single : items.length ≠ 1) :
    IsWritten (.tuple items) (Value.enclosed ['('] (Value.commaJoined ts) [')']) := by
  have whole := (writtenAs_items each).enclosed isMark_openParen isMark_closeParen (follows_single (by decide))
  rw [IsWritten, expr_tuple, Expr.layout, layouts_eq, List.map_map]
  obtain _ | ⟨single, _ | ⟨second, rest⟩⟩ := items
  · exact whole
  · contradiction
  · exact whole

/-- A key, a colon and a value. -/
def entryText (key value : Text) : Text :=
  key ++ [':', ' '] ++ value

theorem isWritten_dict {entries : List (Datum × Datum)}
    (each : List.Forall₂ (fun (e : Datum × Datum) t => ∃ key value, t = entryText key value ∧
      e.1.IsWritten key ∧ e.2.IsWritten value) entries ts) :
    IsWritten (.dict entries) (Value.enclosed ['{'] (Value.commaJoined ts) ['}']) := by
  rw [IsWritten, expr_dict, Expr.layout, entryLayouts_eq, List.map_map]
  have pieces : List.Forall₂ WrittenAs
      (entries.map fun e => e.1.expr.layout.symbols ++ fixed .colon :: e.2.expr.layout.symbols)
      ts := by
    refine List.forall₂_map_left_iff.mpr (each.imp fun e t => ?_)
    rintro ⟨key, value, rfl, of_key, of_value⟩ rest after spelled follows
    have behind := (of_value _ _ spelled follows).behindBlank.mark isMark_colon
    have whole := of_key _ _ behind (follows_single (by decide))
    simpa [entryText] using whole
  have whole := (WrittenAs.commas pieces).enclosed isMark_openBrace isMark_closeBrace (follows_single (by decide))
  simpa [Grammar.Layout.dict, Grammar.Layout.enclosed, List.map_map, Function.comp_def] using whole

/-! ### Rendering -/

theorem exists_mapM {ε α β δ : Type} {render : α → Except ε β} {P : δ → β → Prop} {ds : List δ}
    {vs : List α} (each : List.Forall₂ (fun d v => ∃ t, render v = .ok t ∧ P d t) ds vs) :
    ∃ ts, vs.mapM render = .ok ts ∧ List.Forall₂ P ds ts := by
  induction each with
  | nil => exact ⟨[], rfl, .nil⟩
  | @cons d v ds vs here _ ih =>
      obtain ⟨t, first, holds⟩ := here
      obtain ⟨ts, rest, all⟩ := ih
      refine ⟨t :: ts, ?_, .cons holds all⟩
      rw [List.mapM_cons, first, rest]
      rfl

variable {s : Store} {path : Value.Path} {d : Datum} {v : Value} {values : List Value} {n : Nat}

/-- Written below the containers of a path, as its datum is, with so much nesting to go. -/
def IsRendered (s : Store) (path : Value.Path) (n : Nat) (d : Datum) (v : Value) : Prop :=
  ∃ t, Value.renderAt s (n + 1) path v = .ok t ∧ d.IsWritten t

theorem rendered_items (long : items.length = values.length)
    (each : ∀ d v, (d, v) ∈ items.zip values → ∀ {n}, d.Literal → d.nesting ≤ n →
      IsRendered s path n d v)
    (literal : ∀ d ∈ items, d.Literal) (shallow : (items.map nesting).foldr max 0 ≤ n) :
    ∃ ts, values.mapM (Value.renderAt s (n + 1) path) = .ok ts ∧
      List.Forall₂ IsWritten items ts := by
  refine exists_mapM (List.forall₂_iff_zip.mpr ⟨long, fun {d v} member => ?_⟩)
  have of_d := (List.of_mem_zip member).1
  exact each d v member (literal d of_d) ((le_nesting of_d).trans shallow)

theorem rendered_entries {entries : List (Datum × Datum)} {held : Entries}
    (long : entries.length = held.length)
    (keys : ∀ d e, (d, e) ∈ entries.zip held → ∀ {n}, d.1.Literal → d.1.nesting ≤ n →
      IsRendered s path n d.1 e.1)
    (values : ∀ d e, (d, e) ∈ entries.zip held → ∀ {n}, d.2.Literal → d.2.nesting ≤ n →
      IsRendered s path n d.2 e.2)
    (of_keys : ∀ e ∈ entries, e.1.Literal) (of_values : ∀ e ∈ entries, e.2.Literal)
    (shallow : (entries.map fun e => max e.1.nesting e.2.nesting).foldr max 0 ≤ n) :
    ∃ ts, held.mapM (Value.renderEntry (Value.renderAt s (n + 1) path)) = .ok ts ∧
      List.Forall₂ (fun (e : Datum × Datum) t => ∃ key value, t = entryText key value ∧
        e.1.IsWritten key ∧ e.2.IsWritten value) entries ts := by
  refine exists_mapM (List.forall₂_iff_zip.mpr ⟨long, fun {d e} member => ?_⟩)
  have of_d := (List.of_mem_zip member).1
  obtain ⟨key_le, value_le⟩ := Nat.max_le.mp ((le_nesting_entries of_d).trans shallow)
  obtain ⟨key, key_rendered, key_written⟩ := keys d e member (of_keys d of_d) key_le
  obtain ⟨value, rendered, written⟩ := values d e member (of_values d of_d) value_le
  refine ⟨entryText key value, ?_, key, value, rfl, key_written, written⟩
  rw [Value.renderEntry, key_rendered, rendered]
  rfl

-- A tuple with one item is written with a comma behind it.
theorem rendered_tuple {tag : Tag} (closed : path.any (Value.same (.tuple tag values)) = false)
    (long : items.length = values.length)
    (each : ∀ d v, (d, v) ∈ items.zip values → ∀ {n}, d.Literal → d.nesting ≤ n →
      IsRendered s (.tuple tag values :: path) n d v)
    (literal : ∀ d ∈ items, d.Literal) (shallow : (items.map nesting).foldr max 0 ≤ n) :
    IsRendered s path (n + 1) (.tuple items) (.tuple tag values) := by
  by_cases single : items.length = 1
  · obtain ⟨d, rfl⟩ := List.length_eq_one_iff.mp single
    obtain ⟨v, rfl⟩ := List.length_eq_one_iff.mp (long ▸ single)
    have member : d ∈ [d] := List.mem_singleton_self d
    obtain ⟨t, rendered, written⟩ :=
      each d v List.mem_cons_self (literal d member) ((le_nesting member).trans shallow)
    refine ⟨_, ?_, isWritten_tuple_one written⟩
    show (if _ then _ else _) = _
    rw [closed, if_neg Bool.false_ne_true, rendered]
    rfl
  · obtain ⟨ts, rendered, written⟩ := rendered_items long each literal shallow
    refine ⟨_, ?_, isWritten_tuple written single⟩
    show (if _ then _ else _) = _
    rw [closed, if_neg Bool.false_ne_true]
    split
    · rw [long] at single
      exact absurd rfl single
    · rw [Value.renderItems, rendered]
      rfl

/-- A value that is a datum with a written form is written as that, below all containers around
it and as long as the nesting is within the budget. -/
theorem Is.rendered (is : d.Is s path v) (literal : d.Literal) (shallow : d.nesting ≤ n) :
    IsRendered s path n d v := by
  induction is generalizing n with
  | none => exact ⟨_, rfl, isWritten_none⟩
  | bool path b => exact ⟨_, rfl, isWritten_bool b⟩
  | int path tag m =>
      cases literal with | int short =>
      refine ⟨_, ?_, isWritten_int m⟩
      show intText? m = .ok (intText m)
      rw [intText?, if_neg (Nat.not_le_of_gt short)]
  | text path tag t =>
      cases literal with | text legible =>
      exact ⟨_, rfl, isWritten_text legible⟩
  | list closed long each ih =>
      cases literal with | list literal =>
      rw [nesting_list] at shallow
      obtain ⟨less, rfl⟩ : ∃ less, n = less + 1 := ⟨n - 1, by omega⟩
      obtain ⟨ts, rendered, written⟩ := rendered_items long ih literal (n := less) (by omega)
      refine ⟨_, ?_, isWritten_list written⟩
      rw [Value.renderAt, Value.renderStep, closed, Value.renderItems, rendered]
      rfl
  | tuple closed long each ih =>
      cases literal with | tuple literal =>
      rw [nesting_tuple] at shallow
      obtain ⟨less, rfl⟩ : ∃ less, n = less + 1 := ⟨n - 1, by omega⟩
      exact rendered_tuple closed long ih literal (by omega)
  | dict closed long keys values ihKeys ihValues =>
      cases literal with | dict of_keys of_values hashable distinct =>
      rw [nesting_dict] at shallow
      obtain ⟨less, rfl⟩ : ∃ less, n = less + 1 := ⟨n - 1, by omega⟩
      obtain ⟨ts, rendered, written⟩ := rendered_entries long ihKeys ihValues of_keys of_values
        (n := less) (by omega)
      refine ⟨_, ?_, isWritten_dict written⟩
      rw [Value.renderAt, Value.renderStep, closed, rendered]
      rfl

end Datum

end Snippet
