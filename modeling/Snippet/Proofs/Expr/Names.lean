import Snippet.Expr.Grammar
import Snippet.Proofs.Expr.Reading
import Snippet.Proofs.Number.Digits
import Snippet.Proofs.Program
import Snippet.Proofs.Token.Names

/-!
Names and literals of expressions. Every name that an expression holds is read off a token, inside
formatted texts too, so it is an identifier that stands in the source. So is every integer, which
has few digits.
-/

set_option autoImplicit false

namespace Snippet

/-- The names that an expression may look up are names of which `P` holds, and its literals are ones
of which `L` holds. -/
inductive Expr.AtomsAre (P : Text → Prop) (L : Literal → Prop) : Expr → Prop
  | literal (column : Nat) {value : Literal} (holds : L value) :
      AtomsAre P L (.literal column value)
  | formatted (column : Nat) {parts : List Part}
      (fields : ∀ e conversion spec, .field e conversion spec ∈ parts → AtomsAre P L e) :
      AtomsAre P L (.formatted column parts)
  | name (column : Nat) {id : Text} (holds : P id) : AtomsAre P L (.name column id)
  | list (column : Nat) {items : List Expr} (each : ∀ e ∈ items, AtomsAre P L e) :
      AtomsAre P L (.list column items)
  | tuple (column : Nat) {items : List Expr} (each : ∀ e ∈ items, AtomsAre P L e) :
      AtomsAre P L (.tuple column items)
  | dict (column : Nat) {entries : List (Expr × Expr)} (keys : ∀ e ∈ entries, AtomsAre P L e.1)
      (values : ∀ e ∈ entries, AtomsAre P L e.2) : AtomsAre P L (.dict column entries)
  | unary (column : Nat) (op : UnaryOp) {e : Expr} (operand : AtomsAre P L e) :
      AtomsAre P L (.unary column op e)
  | binary (column : Nat) (op : BinaryOp) {l r : Expr} (left : AtomsAre P L l)
      (right : AtomsAre P L r) : AtomsAre P L (.binary column op l r)
  | bool (column : Nat) (op : BoolOp) {l r : Expr} (left : AtomsAre P L l)
      (right : AtomsAre P L r) : AtomsAre P L (.bool column op l r)
  | compare (column : Nat) {e : Expr} {links : List (Comparison × Expr)} (first : AtomsAre P L e)
      (each : ∀ link ∈ links, AtomsAre P L link.2) : AtomsAre P L (.compare column e links)
  | conditional (column : Nat) {t b o : Expr} (test : AtomsAre P L t) (body : AtomsAre P L b)
      (orelse : AtomsAre P L o) : AtomsAre P L (.conditional column t b o)
  | member (column : Nat) {e : Expr} (id : Text) (base : AtomsAre P L e) :
      AtomsAre P L (.member column e id)
  | call (column : Nat) {e : Expr} {args : List Argument} (func : AtomsAre P L e)
      (each : ∀ a ∈ args, AtomsAre P L a.2) : AtomsAre P L (.call column e args)
  | item (column : Nat) {e i : Expr} (base : AtomsAre P L e) (position : AtomsAre P L i) :
      AtomsAre P L (.index column e (.item i))
  | slice (column : Nat) {e : Expr} (start : Nat) {l u s : Option Expr} (base : AtomsAre P L e)
      (lower : ∀ i ∈ l, AtomsAre P L i) (upper : ∀ i ∈ u, AtomsAre P L i)
      (step : ∀ i ∈ s, AtomsAre P L i) : AtomsAre P L (.index column e (.slice start l u s))

/-- An integer that may be built. -/
def Literal.IsShort : Literal → Prop
  | .int n => bitLength n ≤ maxBits
  | _ => True

/-- A condition holds of the names of an expression, whose integers may be built. -/
def Expr.NamesAre (P : Text → Prop) (e : Expr) : Prop :=
  e.AtomsAre P Literal.IsShort

def Part.NamesAre (P : Text → Prop) : Part → Prop
  | .text _ => True
  | .field e _ _ => e.NamesAre P

namespace Field

variable {t : Text}

theorem isPrefix_of_upToBrace? {n : Nesting} {field after : Text}
    (h : upToBrace? n t = some (field, after)) : field <+: t ∧ after <:+ t := by
  induction t generalizing n field with
  | nil => contradiction
  | cons c rest ih =>
      simp only [upToBrace?] at h
      split at h
      · cases h
        exact ⟨List.nil_prefix, List.suffix_cons c _⟩
      · obtain ⟨⟨f, a⟩, found, same⟩ := Option.map_eq_some_iff.mp h
        cases same
        obtain ⟨front, behind⟩ := ih found
        exact ⟨List.cons_prefix_cons.mpr ⟨rfl, front⟩, behind.trans (List.suffix_cons c rest)⟩

theorem mem_of_mem_addLiteral {c : Char} {source : Text} {parts : List Stretch}
    (h : .field source ∈ addLiteral c parts) : .field source ∈ parts := by
  unfold addLiteral at h
  split at h
  · obtain same | later := List.mem_cons.mp h
    · cases same
    · exact List.mem_cons_of_mem _ later
  · obtain same | later := List.mem_cons.mp h
    · cases same
    · exact later

/-- The fields of a body stand in it. -/
theorem isInfix_of_mem_stretches {source : Text} (h : .field source ∈ stretches t) :
    source <:+: t := by
  fun_induction stretches t with
  | case1 => contradiction
  | case2 rest ih | case3 rest ih =>
      exact List.infix_cons (List.infix_cons (ih (mem_of_mem_addLiteral h)))
  | case4 | case5 => simp at h
  | case6 rest _ field after found _ ih =>
      obtain ⟨front, behind⟩ := isPrefix_of_upToBrace? found
      obtain same | later := List.mem_cons.mp h
      · cases same
        exact List.infix_cons front.isInfix
      · exact List.infix_cons ((ih later).trans behind.isInfix)
  | case7 c rest _ _ _ _ ih => exact List.infix_cons (ih (mem_of_mem_addLiteral h))

theorem splitSource_isPrefix (n : Nesting) (t : Text) : (splitSource n t).1 <+: t := by
  induction t generalizing n with
  | nil => exact List.nil_prefix
  | cons c rest ih =>
      simp only [splitSource]
      split
      · exact List.nil_prefix
      · exact List.cons_prefix_cons.mpr ⟨rfl, ih _⟩

end Field

namespace Grammar

open Reader

/-- A condition on the names of tokens, one by one. -/
def TokensAre (N : Text → Prop) (tokens : List Token) : Prop :=
  ∀ token ∈ tokens, Token.NamesAre N token.kind token.value

/-- What a reader returns satisfies a condition, as long as the names of the tokens satisfy one. -/
def Gives (N : Text → Prop) {α : Type} (P : α → Prop) (r : Reader α) : Prop :=
  ∀ tokens a rest, TokensAre N tokens.list → r tokens = .ok (a, rest) →
    P a ∧ TokensAre N rest.list

variable {N : Text → Prop}

namespace Gives

variable {α β : Type} {P : α → Prop} {R : β → Prop}

theorem pure {a : α} (h : P a) : Gives N P (pure a) := by
  intro tokens b rest named read
  cases read
  exact ⟨h, named⟩

theorem fail (e : ReadError) : Gives N P (Reader.fail e) := by
  intro tokens a rest named read
  contradiction

theorem bind {r : Reader β} {k : β → Reader α} (first : Gives N R r)
    (next : ∀ b, R b → Gives N P (k b)) : Gives N P (r >>= k) := by
  intro tokens a rest named read
  obtain ⟨b, between, ran, read⟩ := bind_run_eq_ok.mp read
  obtain ⟨holds, still⟩ := first tokens b between named ran
  exact next b holds between a rest still read

theorem lift {r : Except ReadError α} (h : ∀ a, r = .ok a → P a) :
    Gives N P (liftM r : Reader α) := by
  intro tokens a rest named read
  cases r with
  | error e => contradiction
  | ok b =>
      cases read
      exact ⟨h _ rfl, named⟩

theorem peek : Gives N (fun token => Token.NamesAre N token.kind token.value) peek := by
  intro tokens token rest named read
  obtain ⟨first, rfl⟩ := head?_of_peek read
  exact ⟨named token (List.mem_of_head? first), named⟩

theorem peekSecond : Gives N (fun _ => True) peekSecond := by
  intro tokens token rest named read
  simp only [Reader.peekSecond] at read
  split at read <;> cases read <;> exact ⟨trivial, named⟩

theorem advance : Gives N (fun _ => True) advance := by
  intro tokens token rest named read
  obtain rfl := eq_tail_of_advance read
  exact ⟨trivial, fun token member => named token (List.mem_of_mem_tail member)⟩

theorem remaining : Gives N (fun _ => True) remaining := by
  intro tokens token rest named read
  cases read
  exact ⟨trivial, named⟩

theorem accept (kind : TokenKind) : Gives N (fun _ => True) (accept kind) := by
  refine peek.bind fun token _ => ?_
  split
  · exact advance.bind fun _ _ => .pure trivial
  · exact .pure trivial

theorem expect (kind : TokenKind) :
    Gives N (fun token => Token.NamesAre N token.kind token.value ∧ token.kind = kind) (expect kind) := by
  refine peek.bind fun token named => ?_
  split
  case isTrue same => exact advance.bind fun _ _ => .pure ⟨named, beq_iff_eq.mp same⟩
  case isFalse => exact .fail _

theorem expectEnd : Gives N (fun _ => True) expectEnd := by
  refine peek.bind fun token _ => ?_
  split
  · exact .pure trivial
  · exact .fail _

theorem discard (kind : TokenKind) :
    Gives N (fun _ => True) (discard (Reader.expect kind)) :=
  (expect kind).bind fun _ _ => .pure trivial

end Gives

open Snippet.Expr (NamesAre)

section Loops

variable {operand : Reader Expr} (of_operand : Gives N (NamesAre N) operand)
include of_operand

theorem gives_chainLoop {join? : TokenKind → Option (Expr → Expr → Expr)}
    (joins : ∀ kind join l r, join? kind = some join → NamesAre N l → NamesAre N r →
      NamesAre N (join l r))
    (turns : Nat) {left : Expr} (of_left : left.NamesAre N) :
    Gives N (NamesAre N) (chainLoop operand join? turns left) := by
  induction turns generalizing left with
  | zero => exact .pure of_left
  | succ turns ih =>
      refine Gives.peek.bind fun token _ => ?_
      cases found : join? token.kind with
      | none => exact .pure of_left
      | some join =>
          refine Gives.advance.bind fun _ _ => of_operand.bind fun right of_right => ?_
          exact ih (joins _ join left right found of_left of_right)

theorem gives_chain {join? : TokenKind → Option (Expr → Expr → Expr)}
    (joins : ∀ kind join l r, join? kind = some join → NamesAre N l → NamesAre N r →
      NamesAre N (join l r)) : Gives N (NamesAre N) (chain operand join?) :=
  of_operand.bind fun _ of_left => Gives.remaining.bind fun turns _ =>
    gives_chainLoop of_operand joins turns of_left

omit of_operand in
theorem gives_comparison? : Gives N (fun _ => True) comparison? := by
  refine Gives.peek.bind fun token _ => ?_
  split
  · exact Gives.advance.bind fun _ _ => .pure trivial
  · split
    · exact Gives.advance.bind fun _ _ => (Gives.accept .not).bind fun _ _ => .pure trivial
    · refine Gives.peekSecond.bind fun second _ => ?_
      split
      · exact Gives.advance.bind fun _ _ => Gives.advance.bind fun _ _ => .pure trivial
      · exact .pure trivial

theorem gives_linksLoop (turns : Nat) :
    Gives N (fun links => ∀ link ∈ links, link.2.NamesAre N) (linksLoop operand turns) := by
  induction turns with
  | zero => exact .pure nofun
  | succ turns ih =>
      refine gives_comparison?.bind fun op _ => ?_
      cases op with
      | none => exact .pure nofun
      | some op =>
          refine of_operand.bind fun right of_right => ih.bind fun rest of_rest => .pure ?_
          exact List.forall_mem_cons.mpr ⟨of_right, of_rest⟩

end Loops

theorem namesAre_joinBool {kind : TokenKind} {op : BoolOp} {k : TokenKind}
    {join : Expr → Expr → Expr} {l r : Expr} (found : joinBool kind op k = some join)
    (left : l.NamesAre N) (right : r.NamesAre N) : (join l r).NamesAre N := by
  simp only [joinBool] at found
  split at found
  · cases found
    exact .bool _ op left right
  · contradiction

theorem namesAre_joinBinary {op? : TokenKind → Option BinaryOp} {k : TokenKind}
    {join : Expr → Expr → Expr} {l r : Expr} (found : joinBinary op? k = some join)
    (left : l.NamesAre N) (right : r.NamesAre N) : (join l r).NamesAre N := by
  obtain ⟨op, -, rfl⟩ := Option.map_eq_some_iff.mp found
  exact .binary _ op left right

section Items

variable {α : Type} {P : α → Prop} {item : Reader α} (of_item : Gives N P item)
include of_item

theorem gives_moreItems (goesOn : TokenKind → Bool) (turns : Nat) :
    Gives N (fun items => ∀ a ∈ items, P a) (moreItems item goesOn turns) := by
  induction turns with
  | zero => exact .pure nofun
  | succ turns ih =>
      refine (Gives.accept .comma).bind fun comma _ => ?_
      split
      · refine Gives.peek.bind fun token _ => ?_
        split
        · refine of_item.bind fun first of_first => ih.bind fun rest of_rest => .pure ?_
          exact List.forall_mem_cons.mpr ⟨of_first, of_rest⟩
        · exact .pure nofun
      · exact .pure nofun

theorem gives_itemsUntil (closing : TokenKind) :
    Gives N (fun items => ∀ a ∈ items, P a) (itemsUntil item closing) := by
  refine Gives.peek.bind fun token _ => ?_
  split
  · exact .pure nofun
  · refine of_item.bind fun first of_first => Gives.remaining.bind fun turns _ => ?_
    refine (gives_moreItems of_item _ turns).bind fun rest of_rest => .pure ?_
    exact List.forall_mem_cons.mpr ⟨of_first, of_rest⟩

end Items

theorem forall_of_mapM_ok {ε α β : Type} {P : β → Prop} {f : α → Except ε β}
    {xs : List α} (each : ∀ a ∈ xs, ∀ b, f a = .ok b → P b) {ys : List β}
    (h : xs.mapM f = .ok ys) : ∀ b ∈ ys, P b := by
  induction xs generalizing ys with
  | nil =>
      cases h
      exact nofun
  | cons a rest ih =>
      simp only [List.mapM_cons, bind_eq_ok] at h
      obtain ⟨b, first, bs, later, same⟩ := h
      cases same
      obtain ⟨of_a, of_rest⟩ := List.forall_mem_cons.mp each
      exact List.forall_mem_cons.mpr ⟨of_a b first, ih of_rest later⟩

section Texts

variable {readExpr : Text → Except ReadError Expr}
  (of_expr : ∀ t e, Text.NamesAre N t → readExpr t = .ok e → e.NamesAre N)

include of_expr

theorem namesAre_of_readStretch {column : Nat} {stretch : Field.Stretch} {p : Part}
    (names : ∀ source, stretch = .field source → Text.NamesAre N source)
    (read : Field.readStretch readExpr column stretch = .ok p) : p.NamesAre N := by
  cases stretch with
  | literal t =>
      cases read
      trivial
  | field source =>
      simp only [Field.readStretch, Field.read, bind_eq_ok] at read
      obtain ⟨ending, -, read⟩ := read
      split at read
      · contradiction
      · obtain ⟨e, found, same⟩ := bind_eq_ok.mp read
        cases same
        have inside := (Field.splitSource_isPrefix .start source).isInfix
        exact of_expr _ e ((names source rfl).within inside) found
  | strayBrace | unclosed => contradiction

theorem namesAre_of_readBody {column : Nat} {body : Text} {parts : List Part}
    (names : Text.NamesAre N body) (read : Field.readBody readExpr column body = .ok parts) :
    ∀ p ∈ parts, p.NamesAre N :=
  forall_of_mapM_ok (fun _ member _ => namesAre_of_readStretch of_expr fun _ same =>
    names.within (Field.isInfix_of_mem_stretches (same ▸ member))) read

end Texts

/-- What a reader of a whole text returns satisfies the condition. -/
theorem of_readWhole {α : Type} {P : α → Prop} {reader : Reader α} (h : Gives N P reader) {t : Text}
    (names : Text.NamesAre N t) {a : α} (read : readWhole reader t = .ok a) : P a := by
  simp only [readWhole, bind_eq_ok] at read
  obtain ⟨tokens, scanned, result, ran, same⟩ := read
  cases same
  have checked : Gives N P (do let result ← reader; expectEnd; return result) :=
    h.bind fun a holds => Gives.expectEnd.bind fun _ _ => .pure holds
  have named : TokensAre N tokens := Token.namesAre_of_scanFrom names scanned
  obtain ⟨a, rest⟩ := result
  exact (checked (.ofList tokens) a rest named ran).1

section Levels

variable {levels : Levels} (of_levels : ∀ l, Gives N (NamesAre N) (levels l))
include of_levels

theorem gives_argument (afterKeyword : Bool) :
    Gives N (fun a => a.2.NamesAre N) (argument levels afterKeyword) := by
  refine Gives.peek.bind fun token _ => Gives.peekSecond.bind fun second _ => ?_
  split
  · refine Gives.advance.bind fun _ _ => Gives.advance.bind fun _ _ => ?_
    exact (of_levels .conditional).bind fun e of_e => .pure of_e
  · split
    · exact .fail _
    · exact (of_levels .conditional).bind fun e of_e => .pure of_e

theorem gives_argumentsLoop (closing : TokenKind) (turns : Nat) (afterKeyword : Bool) :
    Gives N (fun args => ∀ a ∈ args, a.2.NamesAre N)
      (argumentsLoop levels closing turns afterKeyword) := by
  induction turns generalizing afterKeyword with
  | zero => exact .pure nofun
  | succ turns ih =>
      refine Gives.peek.bind fun token _ => ?_
      split
      · exact .pure nofun
      · refine (gives_argument of_levels afterKeyword).bind fun first of_first => ?_
        refine (Gives.accept .comma).bind fun comma _ => ?_
        split
        · refine (ih _).bind fun rest of_rest => .pure ?_
          exact List.forall_mem_cons.mpr ⟨of_first, of_rest⟩
        · exact .pure (List.forall_mem_cons.mpr ⟨of_first, nofun⟩)

theorem gives_arguments (closing : TokenKind) :
    Gives N (fun args => ∀ a ∈ args, a.2.NamesAre N) (arguments levels closing) :=
  Gives.remaining.bind fun turns _ => gives_argumentsLoop of_levels closing turns false

theorem gives_exprList : Gives N (NamesAre N) (exprList levels) := by
  refine (of_levels .conditional).bind fun first of_first => Gives.peek.bind fun token _ => ?_
  split
  · refine Gives.remaining.bind fun turns _ => ?_
    refine (gives_moreItems (of_levels .conditional) startsExpr turns).bind fun rest of_rest => ?_
    exact .pure (.tuple _ (List.forall_mem_cons.mpr ⟨of_first, of_rest⟩))
  · exact .pure of_first

theorem gives_slicePart (closing : List TokenKind) :
    Gives N (fun e => ∀ i ∈ e, i.NamesAre N) (slicePart levels closing) := by
  refine Gives.peek.bind fun token _ => ?_
  split
  · exact .pure nofun
  · refine (of_levels .conditional).bind fun e of_e => .pure ?_
    rintro i same
    cases same
    exact of_e

theorem gives_subscript :
    Gives N (fun sub => ∀ column base, base.NamesAre N → (Expr.index column base sub).NamesAre N)
      (subscript levels) := by
  refine Gives.peek.bind fun token _ => ?_
  refine (gives_slicePart of_levels _).bind fun lower of_lower => Gives.peek.bind fun next _ => ?_
  split
  · exact .pure fun column base of_base => .item column of_base (of_lower _ rfl)
  · refine (Gives.discard _).bind fun _ _ => ?_
    refine (gives_slicePart of_levels _).bind fun upper of_upper => ?_
    refine (Gives.accept _).bind fun stepped _ => ?_
    split
    · refine (gives_slicePart of_levels _).bind fun step of_step => .pure ?_
      exact fun column base of_base => .slice column _ of_base of_lower of_upper of_step
    · refine (Gives.pure (P := fun e => e = none) rfl).bind fun step absent => .pure ?_
      subst absent
      exact fun column base of_base => .slice column _ of_base of_lower of_upper nofun

theorem gives_trailersLoop (turns : Nat) {base : Expr} (of_base : base.NamesAre N) :
    Gives N (NamesAre N) (trailersLoop levels turns base) := by
  induction turns generalizing base with
  | zero => exact .pure of_base
  | succ turns ih =>
      refine Gives.peek.bind fun token _ => ?_
      split
      · refine Gives.advance.bind fun _ _ => ?_
        refine (gives_arguments of_levels _).bind fun args of_args => ?_
        exact (Gives.discard _).bind fun _ _ => ih (.call _ of_base of_args)
      · refine Gives.advance.bind fun _ _ => ?_
        refine (gives_subscript of_levels).bind fun sub of_sub => ?_
        exact (Gives.discard _).bind fun _ _ => ih (of_sub _ _ of_base)
      · refine Gives.advance.bind fun _ _ => ?_
        exact (Gives.expect _).bind fun id _ => ih (.member _ id.value of_base)
      · exact .pure of_base

theorem gives_textsLoop (turns : Nat) :
    Gives N (fun read => ∀ p ∈ read.2, p.NamesAre N) (textsLoop levels turns) := by
  induction turns with
  | zero => exact .pure nofun
  | succ turns ih =>
      refine Gives.peek.bind fun token names => ?_
      split
      · refine Gives.advance.bind fun _ _ => ih.bind fun ⟨formatted, rest⟩ of_rest => .pure ?_
        exact List.forall_mem_cons.mpr ⟨trivial, of_rest⟩
      · refine Gives.advance.bind fun _ _ => ?_
        have of_field (t : Text) (e : Expr) (names : Text.NamesAre N t)
            (read : readField levels t = .ok e) : e.NamesAre N :=
          of_readWhole (gives_exprList of_levels) names read
        refine (Gives.lift fun parts => namesAre_of_readBody of_field (names.2 ‹_›)).bind ?_
        intro parts of_parts
        refine ih.bind fun ⟨formatted, rest⟩ of_rest => .pure ?_
        exact List.forall_mem_append.mpr ⟨of_parts, of_rest⟩
      · exact .pure nofun

theorem gives_texts (column : Nat) : Gives N (NamesAre N) (texts levels column) := by
  refine Gives.remaining.bind fun turns _ => ?_
  refine (gives_textsLoop of_levels turns).bind fun ⟨formatted, parts⟩ of_parts => ?_
  dsimp only
  split
  · exact .pure (.formatted column fun e conversion spec => of_parts (.field e conversion spec))
  · split <;> exact .pure (.literal column trivial)

theorem gives_parenthesized (column : Nat) : Gives N (NamesAre N) (parenthesized levels column) := by
  refine Gives.advance.bind fun _ _ => (Gives.accept _).bind fun closed _ => ?_
  split
  · exact .pure (.tuple column nofun)
  · refine (of_levels .conditional).bind fun first of_first => Gives.peek.bind fun token _ => ?_
    split
    · refine Gives.remaining.bind fun turns _ => ?_
      refine (gives_moreItems (of_levels .conditional) _ turns).bind fun rest of_rest => ?_
      refine (Gives.discard _).bind fun _ _ => ?_
      exact .pure (.tuple column (List.forall_mem_cons.mpr ⟨of_first, of_rest⟩))
    · exact (Gives.discard _).bind fun _ _ => .pure of_first

theorem gives_entry : Gives N (fun e => e.1.NamesAre N ∧ e.2.NamesAre N) (entry levels) := by
  refine (of_levels .conditional).bind fun key of_key => (Gives.discard _).bind fun _ _ => ?_
  exact (of_levels .conditional).bind fun value of_value => .pure ⟨of_key, of_value⟩

theorem gives_atom : Gives N (NamesAre N) (atom levels) := by
  refine Gives.peek.bind fun token named => ?_
  split
  · refine Gives.advance.bind fun _ _ => ?_
    fun_cases literalNumber token
    · exact .pure (.literal _ (bitLength_le_of_naturalOf? ‹_›))
    · exact .fail _
  · refine Gives.advance.bind fun _ _ => ?_
    fun_cases literalFloat token
    · exact .pure (.literal _ trivial)
    · exact .fail _
  · exact gives_texts of_levels _
  · exact gives_texts of_levels _
  · exact Gives.advance.bind fun _ _ => .pure (.literal _ trivial)
  · exact Gives.advance.bind fun _ _ => .pure (.literal _ trivial)
  · exact Gives.advance.bind fun _ _ => .pure (.literal _ trivial)
  · exact Gives.advance.bind fun _ _ => .pure (.name _ (named.1 ‹_›))
  · exact gives_parenthesized of_levels _
  · refine Gives.advance.bind fun _ _ => ?_
    refine (gives_itemsUntil (of_levels .conditional) _).bind fun items of_items => ?_
    exact (Gives.discard _).bind fun _ _ => .pure (.list _ of_items)
  · refine Gives.advance.bind fun _ _ => ?_
    refine (gives_itemsUntil (gives_entry of_levels) _).bind fun entries of_entries => ?_
    refine (Gives.discard _).bind fun _ _ => .pure ?_
    exact .dict _ (fun e member => (of_entries e member).1) fun e member => (of_entries e member).2
  · exact .fail _
  · exact .fail _

theorem gives_level (l : Level) : Gives N (NamesAre N) (level levels l) := by
  cases l with
  | conditional =>
      refine (of_levels .or).bind fun body of_body => (Gives.accept _).bind fun branches _ => ?_
      split
      · refine (of_levels .or).bind fun test of_test => (Gives.discard _).bind fun _ _ => ?_
        refine (of_levels .conditional).bind fun orelse of_orelse => ?_
        exact .pure (.conditional _ of_test of_body of_orelse)
      · exact .pure of_body
  | or => exact gives_chain (of_levels .and) fun _ _ _ _ => namesAre_joinBool
  | and => exact gives_chain (of_levels .not) fun _ _ _ _ => namesAre_joinBool
  | not =>
      refine Gives.peek.bind fun token _ => ?_
      split
      · refine Gives.advance.bind fun _ _ => (of_levels .not).bind fun e of_e => ?_
        exact .pure (.unary _ .not of_e)
      · exact of_levels .comparison
  | comparison =>
      refine (of_levels .sum).bind fun first of_first => Gives.remaining.bind fun turns _ => ?_
      refine (gives_linksLoop (of_levels .sum) turns).bind fun links of_links => ?_
      split
      · exact .pure of_first
      · exact .pure (.compare _ of_first of_links)
  | sum => exact gives_chain (of_levels .product) fun _ _ _ _ => namesAre_joinBinary
  | product => exact gives_chain (of_levels .unary) fun _ _ _ _ => namesAre_joinBinary
  | unary =>
      refine Gives.peek.bind fun token _ => ?_
      split
      · refine Gives.advance.bind fun _ _ => (of_levels .unary).bind fun e of_e => ?_
        exact .pure (.unary _ _ of_e)
      · exact of_levels .power
  | power =>
      refine (of_levels .trailed).bind fun base of_base => (Gives.accept _).bind fun raised _ => ?_
      split
      · refine (of_levels .unary).bind fun exponent of_exponent => ?_
        exact .pure (.binary _ .pow of_base of_exponent)
      · exact .pure of_base
  | trailed =>
      refine (of_levels .atom).bind fun base of_base => Gives.remaining.bind fun turns _ => ?_
      exact gives_trailersLoop of_levels turns of_base
  | atom => exact gives_atom of_levels

end Levels

theorem gives_readAt (budget : Nat) (l : Level) : Gives N (NamesAre N) (readAt budget l) := by
  induction budget generalizing l with
  | zero => exact .fail .tooDeep
  | succ budget ih => exact gives_level ih l

end Grammar

namespace Expr

variable {N : Text → Prop} {t : Text} {e : Expr} {args : List Argument}

/-- The names of an expression that is read stand in its text. -/
theorem namesAre_of_read (names : Text.NamesAre N t) (h : read t = .ok e) : e.NamesAre N :=
  Grammar.of_readWhole (Grammar.gives_exprList (Grammar.gives_readAt _)) names h

theorem namesAre_of_readArguments (names : Text.NamesAre N t) (h : readArguments t = .ok args) :
    ∀ a ∈ args, a.2.NamesAre N :=
  Grammar.of_readWhole (Grammar.gives_arguments (Grammar.gives_readAt _) _) names h

/-- The names of an expression that is read are identifiers. -/
theorem identified_of_read (h : read t = .ok e) : e.NamesAre (isIdentifier · = true) :=
  namesAre_of_read (fun _ identifier _ => identifier) h

theorem identified_of_readArguments (h : readArguments t = .ok args) :
    ∀ a ∈ args, a.2.NamesAre (isIdentifier · = true) :=
  namesAre_of_readArguments (fun _ identifier _ => identifier) h

end Expr

end Snippet
