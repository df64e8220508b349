import Snippet.Expr.Grammar

/-!
Writing expressions. A layout is what is written for an expression: the symbols, the level of
precedence at which they are read, and the steps from level to level that reading them takes.
Brackets stand only where an operand is looser than the place where it is written.
-/

set_option autoImplicit false

namespace Snippet

mutual

/-- An expression without its columns. -/
def Expr.bare : Expr → Expr
  | .literal _ v => .literal 0 v
  | .formatted _ parts => .formatted 0 (bareParts parts)
  | .name _ id => .name 0 id
  | .list _ items => .list 0 (bareItems items)
  | .tuple _ items => .tuple 0 (bareItems items)
  | .dict _ entries => .dict 0 (bareEntries entries)
  | .unary _ op operand => .unary 0 op operand.bare
  | .binary _ op left right => .binary 0 op left.bare right.bare
  | .bool _ op left right => .bool 0 op left.bare right.bare
  | .compare _ first links => .compare 0 first.bare (bareLinks links)
  | .conditional _ test body orelse => .conditional 0 test.bare body.bare orelse.bare
  | .member _ base id => .member 0 base.bare id
  | .call _ func args => .call 0 func.bare (bareArguments args)
  | .index _ base sub => .index 0 base.bare sub.bare

def Part.bare : Part → Part
  | .text t => .text t
  | .field value conversion spec => .field value.bare conversion spec

def Subscript.bare : Subscript → Subscript
  | .item e => .item e.bare
  | .slice _ lower upper step => .slice 0 (bareOption lower) (bareOption upper) (bareOption step)

def bareOption : Option Expr → Option Expr
  | none => none
  | some e => some e.bare

def bareItems : List Expr → List Expr
  | [] => []
  | e :: rest => e.bare :: bareItems rest

def bareParts : List Part → List Part
  | [] => []
  | part :: rest => part.bare :: bareParts rest

def bareEntries : List (Expr × Expr) → List (Expr × Expr)
  | [] => []
  | (key, value) :: rest => (key.bare, value.bare) :: bareEntries rest

def bareLinks : List (Comparison × Expr) → List (Comparison × Expr)
  | [] => []
  | (op, e) :: rest => (op, e.bare) :: bareLinks rest

def bareArguments : List Argument → List Argument
  | [] => []
  | (keyword, e) :: rest => (keyword, e.bare) :: bareArguments rest

end

attribute [simp] Expr.bare Subscript.bare

theorem bareOption_eq (e : Option Expr) : bareOption e = e.map Expr.bare := by
  cases e <;> rfl

theorem bareItems_eq (items : List Expr) : bareItems items = items.map Expr.bare := by
  induction items with
  | nil => rfl
  | cons e rest ih => rw [bareItems, ih, List.map_cons]

theorem bareParts_eq (parts : List Part) : bareParts parts = parts.map Part.bare := by
  induction parts with
  | nil => rfl
  | cons part rest ih => rw [bareParts, ih, List.map_cons]

theorem bareEntries_eq (entries : List (Expr × Expr)) :
    bareEntries entries = entries.map fun e => (e.1.bare, e.2.bare) := by
  induction entries with
  | nil => rfl
  | cons e rest ih => rw [bareEntries, ih, List.map_cons]

theorem bareLinks_eq (links : List (Comparison × Expr)) :
    bareLinks links = links.map fun l => (l.1, l.2.bare) := by
  induction links with
  | nil => rfl
  | cons l rest ih => rw [bareLinks, ih, List.map_cons]

theorem bareArguments_eq (args : List Argument) :
    bareArguments args = args.map fun a => (a.1, a.2.bare) := by
  induction args with
  | nil => rfl
  | cons a rest ih => rw [bareArguments, ih, List.map_cons]

-- What is left of a token without its place.
structure Symbol where
  kind : TokenKind
  value : Text
  deriving Repr, DecidableEq

def Token.symbol (token : Token) : Symbol :=
  ⟨token.kind, token.value⟩

namespace Symbol

-- The spelling of a kind that has only one.
def spelling (kind : TokenKind) : Text :=
  match (keywords ++ operators).find? fun k => k.2 == kind with
  | some k => k.1.toList
  | none => []

def fixed (kind : TokenKind) : Symbol :=
  ⟨kind, spelling kind⟩

def name (id : Text) : Symbol :=
  ⟨.name, id⟩

def number (n : Nat) : Symbol :=
  ⟨.number, digitsOf n⟩

def text (t : Text) : Symbol :=
  ⟨.string, t⟩

end Symbol

namespace Grammar

open Snippet.Symbol (fixed)

namespace Level

-- The levels in order, counted from the loosest.
def rank : Level → Nat
  | conditional => 0
  | or => 1
  | and => 2
  | not => 3
  | comparison => 4
  | sum => 5
  | product => 6
  | unary => 7
  | power => 8
  | trailed => 9
  | atom => 10

def tighter : Level → Level
  | conditional => or
  | or => and
  | and => not
  | not => comparison
  | comparison => sum
  | sum => product
  | product => unary
  | unary => power
  | power => trailed
  | trailed => atom
  | atom => atom

end Level

structure Layout where
  level : Level
  symbols : List Symbol
  nesting : Nat

def maxOf (ns : List Nat) : Nat :=
  ns.foldr max 0

def commas : List (List Symbol) → List Symbol
  | [] => []
  | piece :: rest => piece ++ rest.flatMap (fixed .comma :: ·)

namespace Layout

def single (symbol : Symbol) : Layout :=
  ⟨.atom, [symbol], 1⟩

-- Symbols between brackets, around parts that take so many steps each.
def enclosed (opening closing : TokenKind) (inner : List Symbol) (nestings : List Nat) : Layout :=
  ⟨.atom, fixed opening :: (inner ++ [fixed closing]), 1 + maxOf nestings⟩

-- The same read at a looser level.
def loosened (level : Level) (w : Layout) : Layout :=
  ⟨level, w.symbols, w.level.rank - level.rank + w.nesting⟩

def whole (w : Layout) : Layout :=
  w.loosened .conditional

def bracketed (w : Layout) : Layout :=
  enclosed .openParen .closeParen w.symbols [w.whole.nesting]

/-- An operand for a place that is read at a level, in brackets if it is looser. -/
def operand (level : Level) (w : Layout) : Layout :=
  if w.level.rank < level.rank then w.bracketed.loosened level else w.loosened level

-- Two operands around an operator that groups to the left.
def chained (level : Level) (symbol : Symbol) (left right : Layout) : Layout :=
  let left := left.operand level
  let right := right.operand level.tighter
  ⟨level, left.symbols ++ symbol :: right.symbols, max left.nesting (1 + right.nesting)⟩

-- An operator before an operand that may start with one itself.
def prefixed (level : Level) (symbol : Symbol) (w : Layout) : Layout :=
  let w := w.operand level
  ⟨level, symbol :: w.symbols, 1 + w.nesting⟩

def power (base exponent : Layout) : Layout :=
  let base := base.operand .trailed
  let exponent := exponent.operand .unary
  ⟨.power, base.symbols ++ fixed .power :: exponent.symbols,
    1 + max base.nesting exponent.nesting⟩

def conditional (test body orelse : Layout) : Layout :=
  let body := body.operand .or
  let test := test.operand .or
  let orelse := orelse.whole
  ⟨.conditional, body.symbols ++ fixed .if :: (test.symbols ++ fixed .else :: orelse.symbols),
    1 + maxOf [body.nesting, test.nesting, orelse.nesting]⟩

def comparisonSymbols : Comparison → List Symbol
  | .eq => [fixed .equal]
  | .ne => [fixed .notEqual]
  | .lt => [fixed .less]
  | .gt => [fixed .greater]
  | .le => [fixed .lessEqual]
  | .ge => [fixed .greaterEqual]
  | .isIn => [fixed .in]
  | .notIn => [fixed .not, fixed .in]
  | .same => [fixed .is]
  | .notSame => [fixed .is, fixed .not]

def compared (first : Layout) (links : List (Comparison × Layout)) : Layout :=
  let first := first.operand .sum
  let links := links.map fun l => (l.1, l.2.operand .sum)
  ⟨.comparison,
    first.symbols ++ links.flatMap fun l => comparisonSymbols l.1 ++ l.2.symbols,
    1 + maxOf (first.nesting :: links.map (·.2.nesting))⟩

-- A tuple always has its brackets, and a single item a comma.
def tuple (items : List Layout) : Layout :=
  let inner :=
    match items with
    | [item] => item.symbols ++ [fixed .comma]
    | items => commas (items.map (·.symbols))
  enclosed .openParen .closeParen inner (items.map (·.whole.nesting))

def list (items : List Layout) : Layout :=
  enclosed .openBracket .closeBracket (commas (items.map (·.symbols)))
    (items.map (·.whole.nesting))

def dict (entries : List (Layout × Layout)) : Layout :=
  enclosed .openBrace .closeBrace
    (commas (entries.map fun e => e.1.symbols ++ fixed .colon :: e.2.symbols))
    (entries.flatMap fun e => [e.1.whole.nesting, e.2.whole.nesting])

def trailed (opening closing : TokenKind) (base : Layout) (inner : List Symbol)
    (nestings : List Nat) : Layout :=
  let base := base.operand .trailed
  let trailer := enclosed opening closing inner nestings
  ⟨.trailed, base.symbols ++ trailer.symbols, max base.nesting trailer.nesting⟩

def argumentSymbols : Option Text × Layout → List Symbol
  | (none, w) => w.symbols
  | (some keyword, w) => .name keyword :: fixed .assign :: w.symbols

def call (func : Layout) (args : List (Option Text × Layout)) : Layout :=
  trailed .openParen .closeParen func (commas (args.map argumentSymbols))
    (args.map (·.2.whole.nesting))

def item (base position : Layout) : Layout :=
  trailed .openBracket .closeBracket base position.symbols [position.whole.nesting]

def optionSymbols (w : Option Layout) : List Symbol :=
  (w.map (·.symbols)).getD []

-- The second colon of a slice stands before a step only.
def stepSymbols : Option Layout → List Symbol
  | none => []
  | some w => fixed .colon :: w.symbols

def slice (base : Layout) (lower upper step : Option Layout) : Layout :=
  trailed .openBracket .closeBracket base
    (optionSymbols lower ++ fixed .colon :: (optionSymbols upper ++ stepSymbols step))
    ((lower.toList ++ upper.toList ++ step.toList).map (·.whole.nesting))

def member (base : Layout) (id : Text) : Layout :=
  let base := base.operand .trailed
  ⟨.trailed, base.symbols ++ [fixed .dot, .name id], base.nesting⟩

def literal : Literal → Layout
  -- Floats are not written.
  | .none | .float _ => single (fixed .none)
  | .bool true => single (fixed .true)
  | .bool false => single (fixed .false)
  | .int n => single (.number n)
  | .text t => single (.text t)
  | .joined t => ⟨.atom, [.text [], .text t], 1⟩

def unary : UnaryOp → Layout → Layout
  | .not => prefixed .not (fixed .not)
  | .minus => prefixed .unary (fixed .minus)
  | .plus => prefixed .unary (fixed .plus)

def binary : BinaryOp → Layout → Layout → Layout
  | .add => chained .sum (fixed .plus)
  | .sub => chained .sum (fixed .minus)
  | .mul => chained .product (fixed .star)
  | .div => chained .product (fixed .slash)
  | .floorDiv => chained .product (fixed .floorDivide)
  | .mod => chained .product (fixed .percent)
  | .pow => power

def bool : BoolOp → Layout → Layout → Layout
  | .and => chained .and (fixed .and)
  | .or => chained .or (fixed .or)

end Layout

end Grammar

open Grammar (Layout)

def Expr.isNumber : Expr → Bool
  | .literal _ (.int _) => true
  | _ => false

mutual

/-- What is written for an expression. -/
def Expr.layout : Expr → Layout
  | .literal _ v => Layout.literal v
  -- Formatted texts are not written.
  | .formatted _ _ => Layout.single (Symbol.text [])
  | .name _ id => Layout.single (Symbol.name id)
  | .list _ items => Layout.list (layouts items)
  | .tuple _ items => Layout.tuple (layouts items)
  | .dict _ entries => Layout.dict (entryLayouts entries)
  | .unary _ op operand => Layout.unary op operand.layout
  | .binary _ op left right => Layout.binary op left.layout right.layout
  | .bool _ op left right => Layout.bool op left.layout right.layout
  | .compare _ first links => Layout.compared first.layout (linkLayouts links)
  | .conditional _ test body orelse =>
      Layout.conditional test.layout body.layout orelse.layout
  -- The point of an attribute would belong to a number before it.
  | .member _ base id =>
      Layout.member (if base.isNumber then base.layout.bracketed else base.layout) id
  | .call _ func args => Layout.call func.layout (argumentLayouts args)
  | .index _ base (.item e) => Layout.item base.layout e.layout
  | .index _ base (.slice _ lower upper step) =>
      Layout.slice base.layout (optionLayout lower) (optionLayout upper) (optionLayout step)

def layouts : List Expr → List Layout
  | [] => []
  | e :: rest => e.layout :: layouts rest

def entryLayouts : List (Expr × Expr) → List (Layout × Layout)
  | [] => []
  | (key, value) :: rest => (key.layout, value.layout) :: entryLayouts rest

def linkLayouts : List (Comparison × Expr) → List (Comparison × Layout)
  | [] => []
  | (op, e) :: rest => (op, e.layout) :: linkLayouts rest

def argumentLayouts : List Argument → List (Option Text × Layout)
  | [] => []
  | (keyword, e) :: rest => (keyword, e.layout) :: argumentLayouts rest

def optionLayout : Option Expr → Option Layout
  | none => none
  | some e => some e.layout

end

theorem layouts_eq (items : List Expr) : layouts items = items.map Expr.layout := by
  induction items with
  | nil => rfl
  | cons e rest ih => rw [layouts, ih, List.map_cons]

theorem entryLayouts_eq (entries : List (Expr × Expr)) :
    entryLayouts entries = entries.map fun e => (e.1.layout, e.2.layout) := by
  induction entries with
  | nil => rfl
  | cons e rest ih => rw [entryLayouts, ih, List.map_cons]

theorem linkLayouts_eq (links : List (Comparison × Expr)) :
    linkLayouts links = links.map fun l => (l.1, l.2.layout) := by
  induction links with
  | nil => rfl
  | cons l rest ih => rw [linkLayouts, ih, List.map_cons]

theorem argumentLayouts_eq (args : List Argument) :
    argumentLayouts args = args.map fun a => (a.1, a.2.layout) := by
  induction args with
  | nil => rfl
  | cons a rest ih => rw [argumentLayouts, ih, List.map_cons]

theorem optionLayout_eq (e : Option Expr) : optionLayout e = e.map Expr.layout := by
  cases e <;> rfl

/-- A text that is read as one name. -/
def isIdentifier : Text → Bool
  | [] => false
  | c :: rest =>
      !isDigit c && isNameStart c && rest.all Token.isNameRest
        && wordKind (c :: rest) == .name

def Literal.IsPlain : Literal → Prop
  | .int n => (digitsOf n).length ≤ maxDecimalDigits
  | .float _ => False
  | _ => True

/-- Expressions without formatted texts and floats, as they can be written in source. -/
inductive Expr.Plain : Expr → Prop
  | literal {c : Nat} {v : Literal} : v.IsPlain → Plain (.literal c v)
  | name {c : Nat} {id : Text} : isIdentifier id = true → Plain (.name c id)
  | list {c : Nat} {items : List Expr} : (∀ e ∈ items, Plain e) → Plain (.list c items)
  | tuple {c : Nat} {items : List Expr} : (∀ e ∈ items, Plain e) → Plain (.tuple c items)
  | dict {c : Nat} {entries : List (Expr × Expr)} :
      (∀ e ∈ entries, Plain e.1) → (∀ e ∈ entries, Plain e.2) → Plain (.dict c entries)
  | unary {c : Nat} {op : UnaryOp} {operand : Expr} : Plain operand → Plain (.unary c op operand)
  | binary {c : Nat} {op : BinaryOp} {left right : Expr} :
      Plain left → Plain right → Plain (.binary c op left right)
  | bool {c : Nat} {op : BoolOp} {left right : Expr} :
      Plain left → Plain right → Plain (.bool c op left right)
  | compare {c : Nat} {first : Expr} {links : List (Comparison × Expr)} :
      links ≠ [] → Plain first → (∀ l ∈ links, Plain l.2) → Plain (.compare c first links)
  | conditional {c : Nat} {test body orelse : Expr} :
      Plain test → Plain body → Plain orelse → Plain (.conditional c test body orelse)
  | member {c : Nat} {base : Expr} {id : Text} :
      isIdentifier id = true → Plain base → Plain (.member c base id)
  -- No argument by position comes after one with a keyword.
  | call {c : Nat} {func : Expr} {args : List Argument} :
      args.Pairwise (fun a b => a.1.isSome → b.1.isSome) →
      (∀ a ∈ args, ∀ id ∈ a.1, isIdentifier id = true) →
      Plain func → (∀ a ∈ args, Plain a.2) → Plain (.call c func args)
  | item {c : Nat} {base position : Expr} :
      Plain base → Plain position → Plain (.index c base (.item position))
  | slice {c d : Nat} {base : Expr} {lower upper step : Option Expr} :
      Plain base → (∀ e ∈ lower, Plain e) → (∀ e ∈ upper, Plain e) → (∀ e ∈ step, Plain e) →
      Plain (.index c base (.slice d lower upper step))

end Snippet
