import Snippet.Proofs.Expr.Level
import Snippet.Proofs.Number.Digits

/-!
What is read at the tightest level: single tokens, texts, and whatever stands in brackets.
-/

set_option autoImplicit false

namespace Snippet.Grammar

open Reader Snippet.Symbol

/-- A layout is read as an expression, and starts like one. -/
structure Writes (w : Layout) (e : Expr) : Prop where
  reads : Reads w e
  opens : Opens w

namespace Writes

variable {w : Layout} {e : Expr}

theorem loosened {level : Level} (h : Writes w e) (looser : level.rank ≤ w.level.rank) :
    Writes (w.loosened level) e :=
  ⟨h.reads.loosened h.opens looser, h.opens.loosened looser⟩

theorem bracketed (h : Writes w e) : Writes w.bracketed e :=
  ⟨h.reads.bracketed h.opens, Opens.bracketed w⟩

theorem operand (h : Writes w e) (level : Level) : Writes (w.operand level) e :=
  ⟨h.reads.operand h.opens level, h.opens.operand level⟩

theorem takes_operand (h : Writes w e) (level : Level) (n : Nat) :
    Takes ((w.operand level).nesting ≤ n) (readAt n level) (w.operand level).symbols
      (stops level · = true) (·.bare = e.bare) := by
  have taken := (h.operand level).reads.takes n
  rwa [level_operand] at taken

theorem takes_whole (h : Writes w e) (n : Nat) :
    Takes (w.whole.nesting ≤ n) (readAt n .conditional) w.symbols (stops .conditional · = true)
      (·.bare = e.bare) :=
  (h.loosened (Nat.zero_le _)).reads.takes n

end Writes

-- A token that is an expression by itself.
theorem Reads.single {s : Symbol} {e : Expr}
    (h : ∀ levels token next rest, token.symbol = s →
      ∃ e', atom levels (.ofList (token :: next :: rest)) = .ok (e', .ofList (next :: rest)) ∧
        e'.bare = e.bare) :
    Reads (Layout.single s) e := by
  refine Reads.of_atom (Nat.le_refl 1) fun n rest _ more ts same => ?_
  obtain ⟨token, ts, rfl, first, behind⟩ := List.map_eq_cons_iff.mp same
  obtain rfl := List.map_eq_nil_iff.mp behind
  obtain ⟨next, rest, rfl⟩ := List.exists_cons_of_ne_nil more
  obtain ⟨e', ran, holds⟩ := h (readAt n) token next rest first
  exact ⟨fun _ => ⟨pure e', ⟨e', rfl, holds⟩, ran⟩, fun short => by omega⟩

theorem takes_textsLoop (levels : Levels) {texts : List Text} {turns : Nat}
    (enough : texts.length ≤ turns) :
    Takes True (textsLoop levels turns) (texts.map Symbol.text) (stops .atom · = true)
      (· = (false, texts.map Part.text)) := by
  induction texts generalizing turns with
  | nil =>
      intro rest stopped
      cases turns with
      | zero => exact Reaches.done ⟨_, rfl, rfl⟩
      | succ turns =>
          refine Reaches.peek_bind_nil fun token kind => ?_
          rw [← kind] at stopped
          cases at_end : token.kind <;> rw [at_end] at stopped <;>
            first
            | contradiction
            | exact Reaches.done ⟨_, rfl, rfl⟩
  | cons t texts ih =>
      intro rest stopped
      obtain ⟨turns, rfl⟩ := Nat.exists_eq_add_of_le' (Nat.lt_of_lt_of_le (Nat.succ_pos _) enough)
      have later := ih (Nat.le_of_succ_le_succ enough)
      refine Reaches.peek_bind fun token first => ?_
      obtain ⟨kind, value⟩ := Symbol.mk.inj first
      simp only [kind]
      refine Reaches.advance_bind ?_
      refine (Reaches.bind_nil later stopped ?_).congr (and_self_iff)
      rintro _ rfl
      refine Reaches.done ⟨_, rfl, ?_⟩
      rw [value]
      rfl

-- Texts are read together, whatever they are joined to.
theorem Reads.texts (texts : List Text) {v : Literal} {c : Nat} (shown : texts ≠ [])
    (joins : ∀ column : Nat,
      (match texts.map Part.text with
        | [part] => pure (.literal column (.text (partText part)))
        | parts => pure (.literal column (.joined (parts.flatMap partText))) : Reader Expr)
      = pure (.literal column v)) :
    Reads ⟨.atom, texts.map Symbol.text, 1⟩ (.literal c v) := by
  refine Reads.of_atom (Nat.le_refl 1) fun n rest stopped => ?_
  obtain ⟨t, others, rfl⟩ := List.exists_cons_of_ne_nil shown
  refine Reaches.peek_bind fun token first => ?_
  have kind : token.kind = .string := congrArg Symbol.kind first
  simp only [kind]
  refine Reaches.remaining_bind fun turns counted => ?_
  have enough : (t :: others).length ≤ turns := by
    simp only [List.length_cons, List.length_map] at counted ⊢
    omega
  refine (Reaches.bind_nil (takes_textsLoop _ enough) stopped ?_).congr
    (iff_of_true ⟨trivial, trivial⟩ (Nat.le_add_left 1 n))
  rintro _ rfl
  exact Reaches.done ⟨_, joins token.column, rfl⟩

theorem Writes.literal {v : Literal} {c : Nat} (plain : v.IsPlain) :
    Writes (Layout.literal v) (.literal c v) := by
  -- All literals but the texts that are joined are one symbol.
  have opens (s : Symbol) (starting : startsExpr s.kind = true) (known : s.kind ≠ .not)
      (unsigned : signOp? s.kind = none) (unnamed : s.kind ≠ .name) :
      Opens (Layout.single s) := by
    refine ⟨s, [], rfl, ?_, fun named => absurd named unnamed⟩
    simp [starts, starting, known, unsigned]
  cases v with
  | none =>
      refine ⟨Reads.single ?_, opens _ rfl (by decide) rfl (by decide)⟩
      rintro levels ⟨kind, value, column, span⟩ next rest same
      obtain ⟨rfl, rfl⟩ := Symbol.mk.inj same
      exact ⟨_, rfl, rfl⟩
  | bool b =>
      cases b
      all_goals
        refine ⟨Reads.single ?_, opens _ rfl (by decide) rfl (by decide)⟩
        rintro levels ⟨kind, value, column, span⟩ next rest same
        obtain ⟨rfl, rfl⟩ := Symbol.mk.inj same
        exact ⟨_, rfl, rfl⟩
  | int n =>
      refine ⟨Reads.single ?_, opens _ rfl (by simp [Symbol.number]) rfl (by simp [Symbol.number])⟩
      rintro levels ⟨kind, value, column, span⟩ next rest same
      obtain ⟨rfl, rfl⟩ := Symbol.mk.inj same
      refine ⟨.literal column (.int n), ?_, rfl⟩
      show literalNumber ⟨.number, digitsOf n, column, span⟩ (.ofList (next :: rest)) = _
      have read := naturalOf?_digitsOf plain
      simp only [literalNumber, read]
      rfl
  | float x => contradiction
  | text t =>
      exact ⟨Reads.texts [t] (List.cons_ne_nil _ _) fun _ => rfl,
        opens _ rfl (by simp [Symbol.text]) rfl (by simp [Symbol.text])⟩
  | joined t =>
      refine ⟨Reads.texts [[], t] (List.cons_ne_nil _ _) fun _ => ?_, _, _, rfl, rfl, by simp [Symbol.text]⟩
      simp [partText]

theorem Writes.name {id : Text} {c : Nat} : Writes (Layout.single (.name id)) (.name c id) := by
  refine ⟨Reads.single ?_, _, _, rfl, rfl, nofun⟩
  rintro levels ⟨kind, value, column, span⟩ next rest same
  obtain ⟨rfl, rfl⟩ := Symbol.mk.inj same
  exact ⟨_, rfl, rfl⟩

theorem length_le_flatMap {ι : Type} {xs : List ι} {f : ι → List Symbol}
    (shown : ∀ x, f x ≠ []) : xs.length ≤ (xs.flatMap f).length := by
  induction xs with
  | nil => exact Nat.le_refl 0
  | cons x xs ih =>
      have := List.length_pos_iff.mpr (shown x)
      simp only [List.flatMap_cons, List.length_append, List.length_cons]
      omega

section Items

variable {ι α β : Type} {item : Reader α} {enough : ι → Prop} {symbols : ι → List Symbol}
  {next : TokenKind → Prop} {closing : TokenKind} {goesOn : TokenKind → Bool}
  {view : α → β} {want : ι → β}

-- Behind an item stands a comma or what closes.
theorem next_behind_item {xs : List ι} {kind : TokenKind} (comma : next .comma) (closes : next kind) :
    next (leading (xs.flatMap fun x => fixed .comma :: symbols x) kind) := by
  cases xs with
  | nil => exact closes
  | cons x xs => exact comma

theorem takes_moreItems {xs : List ι} {turns : Nat}
    (taken : ∀ x ∈ xs, Takes (enough x) item (symbols x) next (view · = want x))
    (opens : ∀ x ∈ xs, ∃ s rest, symbols x = s :: rest ∧ goesOn s.kind = true)
    (comma : next .comma) (closes : next closing) (other : closing ≠ .comma)
    (counted : xs.length ≤ turns) :
    Takes (∀ x ∈ xs, enough x) (moreItems item goesOn turns)
      (xs.flatMap fun x => fixed .comma :: symbols x) (· = closing)
      (List.map view · = xs.map want) := by
  induction xs generalizing turns with
  | nil =>
      rintro rest rfl
      cases turns with
      | zero => exact (Reaches.done ⟨[], rfl, rfl⟩).congr (by simp)
      | succ turns =>
          refine Reaches.accept_bind_other other ?_
          exact (Reaches.done ⟨[], rfl, rfl⟩).congr (by simp)
  | cons x xs ih =>
      rintro rest rfl
      obtain ⟨turns, rfl⟩ := Nat.exists_eq_add_of_le' (Nat.lt_of_lt_of_le (Nat.succ_pos _) counted)
      obtain ⟨s, tail, written, starting⟩ := opens x (by simp)
      have first := taken x (by simp)
      have later := ih (fun y member => taken y (List.mem_cons_of_mem x member))
        (fun y member => opens y (List.mem_cons_of_mem x member)) (Nat.le_of_succ_le_succ counted)
      rw [List.flatMap_cons, List.cons_append]
      -- Behind the comma, the first symbol of the next item tells the loop to go on.
      refine Reaches.accept_bind rfl ?_
      rw [written] at first ⊢
      refine Reaches.peek_bind fun token here => ?_
      rw [show token.kind = s.kind from congrArg Symbol.kind here, starting]
      refine (Reaches.bind first (next_behind_item comma closes) fun a holds => ?_).congr
        List.forall_mem_cons.symm
      refine (Reaches.bind_nil later rfl fun as hold => ?_).congr (and_iff_left trivial)
      exact Reaches.done ⟨a :: as, rfl, List.cons_eq_cons.mpr ⟨holds, hold⟩⟩

theorem takes_itemsUntil {xs : List ι}
    (taken : ∀ x ∈ xs, Takes (enough x) item (symbols x) next (view · = want x))
    (opens : ∀ x ∈ xs, ∃ s rest, symbols x = s :: rest ∧ (s.kind != closing) = true)
    (comma : next .comma) (closes : next closing) (other : closing ≠ .comma) :
    Takes (∀ x ∈ xs, enough x) (itemsUntil item closing) (commas (xs.map symbols)) (· = closing)
      (List.map view · = xs.map want) := by
  rintro rest rfl
  cases xs with
  | nil =>
      refine Reaches.peek_bind_nil fun token kind => ?_
      rw [kind, beq_self_eq_true]
      exact (Reaches.done ⟨[], rfl, rfl⟩).congr (by simp)
  | cons x xs =>
      obtain ⟨s, tail, written, starting⟩ := opens x (by simp)
      have first := taken x (by simp)
      rw [List.map_cons, commas, List.flatMap_map]
      rw [written] at first ⊢
      refine Reaches.peek_bind fun token here => ?_
      have shown : (token.kind == nextKind rest) = false := by
        rw [show token.kind = s.kind from congrArg Symbol.kind here]
        simpa using starting
      rw [shown]
      refine (Reaches.bind first (next_behind_item comma closes) fun a holds => ?_).congr
        List.forall_mem_cons.symm
      refine Reaches.remaining_bind fun turns counted => ?_
      have several : xs.length ≤ (xs.flatMap fun y => fixed .comma :: symbols y).length :=
        length_le_flatMap fun y => List.cons_ne_nil _ _
      have later : Takes (∀ y ∈ xs, enough y) (moreItems item (· != nextKind rest) turns) _ _ _ :=
        takes_moreItems (fun y member => taken y (List.mem_cons_of_mem x member))
          (fun y member => opens y (List.mem_cons_of_mem x member)) comma closes other (by omega)
      refine (Reaches.bind_nil later rfl fun as hold => ?_).congr (and_iff_left trivial)
      exact Reaches.done ⟨a :: as, rfl, List.cons_eq_cons.mpr ⟨holds, hold⟩⟩

end Items

theorem Opens.of_atom {symbols : List Symbol} {nesting : Nat} {s : Symbol} {rest : List Symbol}
    (written : symbols = s :: rest) (bracket : s.kind = .openParen ∨ s.kind = .openBracket
      ∨ s.kind = .openBrace) : Opens ⟨.atom, symbols, nesting⟩ := by
  refine ⟨s, rest, written, ?_, fun named => ?_⟩
  · obtain kind | kind | kind := bracket <;> rw [kind] <;> rfl
  · rw [named] at bracket
    obtain kind | kind | kind := bracket <;> contradiction

-- An expression does not start with a bracket that closes.
theorem Opens.ne_of_closing {w : Layout} (opens : Opens w) (kind : TokenKind)
    (closing : startsExpr kind = false) :
    ∃ s rest, w.symbols = s :: rest ∧ (s.kind != kind) = true := by
  obtain ⟨s, rest, written, starting, -⟩ := opens
  refine ⟨s, rest, written, ?_⟩
  rw [bne_iff_ne]
  rintro rfl
  rw [starts, closing] at starting
  contradiction

theorem Writes.list {items : List Expr} {c : Nat} (h : ∀ e ∈ items, Writes e.layout e) :
    Writes (Layout.list (items.map Expr.layout)) (.list c items) := by
  refine ⟨Reads.of_atom (Nat.le_add_right 1 _) fun n rest _ => ?_, Opens.of_atom rfl (.inr (.inl rfl))⟩
  have fits : (∀ e ∈ items, e.layout.whole.nesting ≤ n)
      ↔ (Layout.list (items.map Expr.layout)).nesting ≤ n + 1 := by
    rw [Layout.list, nesting_enclosed_le, List.map_map, List.forall_mem_map]
    rfl
  have inner := takes_itemsUntil (fun e member => (h e member).takes_whole n)
    (fun e member => (h e member).opens.ne_of_closing .closeBracket rfl) rfl rfl nofun
  refine Reaches.congr ?_ fits
  refine Reaches.peek_bind fun token first => ?_
  have kind : token.kind = .openBracket := congrArg Symbol.kind first
  simp only [kind, List.map_map]
  refine Reaches.advance_bind ?_
  refine (Reaches.bind inner rfl fun found same => ?_).congr (and_iff_left trivial)
  refine Reaches.discard_bind rfl (Reaches.done ⟨_, rfl, ?_⟩)
  simp only [Expr.bare, bareItems_eq, same]

theorem takes_entry {key value : Layout} {k v : Expr} (hk : Writes key k) (hv : Writes value v)
    (n : Nat) :
    Takes (key.whole.nesting ≤ n ∧ value.whole.nesting ≤ n) (entry (readAt n))
      (key.symbols ++ fixed .colon :: value.symbols) (stops .conditional · = true)
      (fun e => (e.1.bare, e.2.bare) = (k.bare, v.bare)) := by
  intro rest stopped
  refine Reaches.bind (hk.takes_whole n) rfl fun key' same => Reaches.discard_bind rfl ?_
  refine (Reaches.bind_nil (hv.takes_whole n) stopped fun value' same' => ?_).congr
    (and_iff_left trivial)
  exact Reaches.done ⟨(key', value'), rfl, Prod.ext same same'⟩

theorem Writes.dict {entries : List (Expr × Expr)} {c : Nat}
    (hk : ∀ e ∈ entries, Writes e.1.layout e.1) (hv : ∀ e ∈ entries, Writes e.2.layout e.2) :
    Writes (Layout.dict (entries.map fun e => (e.1.layout, e.2.layout))) (.dict c entries) := by
  refine ⟨Reads.of_atom (Nat.le_add_right 1 _) fun n rest _ => ?_, Opens.of_atom rfl (.inr (.inr rfl))⟩
  have fits : (∀ e ∈ entries, e.1.layout.whole.nesting ≤ n ∧ e.2.layout.whole.nesting ≤ n)
      ↔ (Layout.dict (entries.map fun e => (e.1.layout, e.2.layout))).nesting ≤ n + 1 := by
    rw [Layout.dict, nesting_enclosed_le, List.flatMap_map, List.forall_mem_flatMap]
    simp
  have opens : ∀ e ∈ entries, ∃ s rest, e.1.layout.symbols ++ fixed .colon :: e.2.layout.symbols
      = s :: rest ∧ (s.kind != .closeBrace) = true := by
    intro e member
    obtain ⟨s, rest, written, other⟩ := (hk e member).opens.ne_of_closing .closeBrace rfl
    exact ⟨s, _, by rw [written, List.cons_append], other⟩
  have inner := takes_itemsUntil (fun e member => takes_entry (hk e member) (hv e member) n) opens
    rfl rfl nofun
  refine Reaches.congr ?_ fits
  refine Reaches.peek_bind fun token first => ?_
  have kind : token.kind = .openBrace := congrArg Symbol.kind first
  simp only [kind, List.map_map]
  refine Reaches.advance_bind ?_
  refine (Reaches.bind inner rfl fun found same => ?_).congr (and_iff_left trivial)
  refine Reaches.discard_bind rfl (Reaches.done ⟨_, rfl, ?_⟩)
  simp only [Expr.bare, bareEntries_eq, same]

-- A comma may stand before the bracket that closes.
theorem takes_moreItems_trailing {α : Type} (item : Reader α) {closing : TokenKind} {turns : Nat}
    (counted : 1 ≤ turns) :
    Takes True (moreItems item (· != closing) turns) [fixed .comma] (· = closing) (· = []) := by
  rintro rest rfl
  obtain ⟨turns, rfl⟩ := Nat.exists_eq_add_of_le' counted
  refine Reaches.accept_bind rfl (Reaches.peek_bind_nil fun token kind => ?_)
  have closed : (token.kind != nextKind rest) = false := by
    rw [kind, bne_self_eq_false]
  simp only [closed]
  exact Reaches.done ⟨[], rfl, rfl⟩

-- A first item, and more of them behind a comma.
theorem takes_parenthesized {e : Expr} {items : List Expr} {n column c : Nat} {behind : List Symbol}
    (written : Writes e.layout e)
    (later : ∀ turns, behind.length + 1 ≤ turns →
      Takes (∀ x ∈ items, x.layout.whole.nesting ≤ n)
        (moreItems (readAt n .conditional) (· != .closeParen) turns) (fixed .comma :: behind)
        (· = .closeParen) (List.map Expr.bare · = items.map Expr.bare)) :
    Takes (∀ x ∈ e :: items, x.layout.whole.nesting ≤ n) (parenthesized (readAt n) column)
      (fixed .openParen :: (e.layout.symbols ++ fixed .comma :: behind ++ [fixed .closeParen]))
      (stops .atom · = true) (·.bare = (Expr.tuple c (e :: items)).bare) := by
  intro rest _
  rw [List.append_assoc, List.cons_append, List.forall_mem_cons]
  refine Reaches.advance_bind (Reaches.accept_bind_other (written.opens.leading_ne rfl _ _) ?_)
  refine Reaches.bind (written.takes_whole n) rfl fun e' same => ?_
  refine Reaches.peek_bind fun token here => ?_
  rw [show token.kind = .comma from congrArg Symbol.kind here]
  refine Reaches.remaining_bind fun turns counted => ?_
  have enough : behind.length + 1 ≤ turns := by
    simp only [List.length_append, List.length_cons] at counted
    omega
  refine (Reaches.bind (later turns enough) rfl fun found hold => ?_).congr (and_iff_left trivial)
  refine Reaches.discard_bind rfl (Reaches.done ⟨_, rfl, ?_⟩)
  simp only [Expr.bare, bareItems_eq, List.map_cons, same, hold]

theorem Writes.tuple {items : List Expr} {c : Nat} (h : ∀ e ∈ items, Writes e.layout e) :
    Writes (Layout.tuple (items.map Expr.layout)) (.tuple c items) := by
  refine ⟨Reads.of_atom (Nat.le_add_right 1 _) fun n => ?_, Opens.of_atom rfl (.inl rfl)⟩
  have fits : (∀ e ∈ items, e.layout.whole.nesting ≤ n)
      ↔ (Layout.tuple (items.map Expr.layout)).nesting ≤ n + 1 := by
    refine (nesting_enclosed_le.trans ?_).symm
    rw [List.map_map, List.forall_mem_map]
    rfl
  intro rest stopped
  refine Reaches.congr ?_ fits
  refine Reaches.peek_bind fun token first => ?_
  have kind : token.kind = .openParen := congrArg Symbol.kind first
  simp only [kind]
  -- No item, a single one with its comma, and several ones are read in ways of their own.
  match items with
  | [] =>
      refine Reaches.advance_bind (Reaches.accept_bind rfl ?_)
      exact (Reaches.done ⟨_, rfl, rfl⟩).congr (by simp)
  | [e] =>
      refine takes_parenthesized (h e List.mem_cons_self) (fun turns counted => ?_) rest stopped
      intro rest' closes
      exact ((takes_moreItems_trailing _ counted rest' closes).congr (by simp)).weaken fun r' => by
        rintro ⟨_, rfl, rfl⟩
        exact ⟨[], rfl, rfl⟩
  | e :: e' :: items =>
      have opens : ∀ x ∈ e' :: items,
          ∃ s rest, x.layout.symbols = s :: rest ∧ (s.kind != .closeParen) = true :=
        fun x member => (h x (List.mem_cons_of_mem e member)).opens.ne_of_closing _ rfl
      show Reaches _ _ (_ :: (e.layout.symbols ++
        (List.map Expr.layout (e' :: items) |>.map (·.symbols)).flatMap (fixed .comma :: ·) ++ _)) _ _
      rw [List.flatMap_map, List.flatMap_map]
      refine takes_parenthesized (h e List.mem_cons_self) (fun turns counted => ?_) rest stopped
      refine takes_moreItems (fun x member => (h x (List.mem_cons_of_mem e member)).takes_whole n)
        opens rfl rfl nofun ?_
      have several : items.length ≤ (items.flatMap fun x => fixed .comma :: x.layout.symbols).length :=
        length_le_flatMap fun x => List.cons_ne_nil _ _
      change (e'.layout.symbols ++ items.flatMap fun x => fixed .comma :: x.layout.symbols).length + 1
        ≤ turns at counted
      simp only [List.length_append, List.length_cons] at counted ⊢
      omega

end Snippet.Grammar
