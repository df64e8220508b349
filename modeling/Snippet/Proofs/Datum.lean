import Mathlib.Data.List.Forall2
import Snippet.Proofs.Expr.Parts
import Snippet.Value.Render
import Snippet.Value.Weight

/-!
Data: what a value holds, without the identities and the places of its parts. `Datum.Is` relates
the values of a store to data, `Datum.Literal` picks out the data that have a written form, and
`Datum.expr` is the expression for a datum.
-/

set_option autoImplicit false

namespace Snippet

inductive Datum where
  | none
  | bool (b : Bool)
  | int (n : Int)
  | text (t : Text)
  | list (items : List Datum)
  | tuple (items : List Datum)
  | dict (entries : List (Datum × Datum))

namespace Datum

/-- The value is this datum: it holds the same, of the same types and in the same order, and no
container is within itself. The path has the containers around the value. -/
inductive Is (s : Store) : Value.Path → Datum → Value → Prop
  | none (path : Value.Path) : Is s path .none .none
  | bool (path : Value.Path) (b : Bool) : Is s path (.bool b) (.bool b)
  | int (path : Value.Path) (tag : Tag) (n : Int) : Is s path (.int n) (.int tag n)
  | text (path : Value.Path) (tag : Tag) (t : Text) : Is s path (.text t) (.text tag t)
  | list {path : Value.Path} {r : Ref} {items : List Datum} :
      path.any (Value.same (.list r)) = false → items.length = (s.items r).length →
      (∀ d v, (d, v) ∈ items.zip (s.items r) → Is s (.list r :: path) d v) →
      Is s path (.list items) (.list r)
  | tuple {path : Value.Path} {tag : Tag} {items : List Datum} {values : List Value} :
      path.any (Value.same (.tuple tag values)) = false → items.length = values.length →
      (∀ d v, (d, v) ∈ items.zip values → Is s (.tuple tag values :: path) d v) →
      Is s path (.tuple items) (.tuple tag values)
  | dict {path : Value.Path} {r : Ref} {entries : List (Datum × Datum)} :
      path.any (Value.same (.dict r)) = false → entries.length = (s.entries r).length →
      (∀ d e, (d, e) ∈ entries.zip (s.entries r) → Is s (.dict r :: path) d.1 e.1) →
      (∀ d e, (d, e) ∈ entries.zip (s.entries r) → Is s (.dict r :: path) d.2 e.2) →
      Is s path (.dict entries) (.dict r)

/-! ### Keys -/

/-- May be a key of a dict. -/
inductive Hashable : Datum → Prop
  | none : Hashable .none
  | bool (b : Bool) : Hashable (.bool b)
  | int (n : Int) : Hashable (.int n)
  | text (t : Text) : Hashable (.text t)
  | tuple {items : List Datum} : (∀ d ∈ items, Hashable d) → Hashable (.tuple items)

/-- The number that a datum is worth. -/
def worth? : Datum → Option Int
  | bool b => some b.toInt
  | int n => some n
  | _ => Option.none

/-- Equal as keys: numbers by what they are worth, tuples item by item. -/
inductive Equal : Datum → Datum → Prop
  | none : Equal .none .none
  | number {d e : Datum} {n : Int} : d.worth? = some n → e.worth? = some n → Equal d e
  | text (t : Text) : Equal (.text t) (.text t)
  | tuple {items others : List Datum} : items.length = others.length →
      (∀ d e, (d, e) ∈ items.zip others → Equal d e) → Equal (.tuple items) (.tuple others)

/-! ### Written forms -/

/-- Stands for itself in a text, or has an escape of its own. -/
def isLegible (c : Char) : Bool :=
  isPrintable c || c == '\n' || c == '\r' || c == '\t'

/-- Data that can be written and read: integers are not too long, texts are legible, and the keys
of a dict are hashable and no two of them equal. -/
inductive Literal : Datum → Prop
  | none : Literal .none
  | bool (b : Bool) : Literal (.bool b)
  | int {n : Int} : n.natAbs < decimalCap → Literal (.int n)
  | text {t : Text} : t.all isLegible = true → Literal (.text t)
  | list {items : List Datum} : (∀ d ∈ items, Literal d) → Literal (.list items)
  | tuple {items : List Datum} : (∀ d ∈ items, Literal d) → Literal (.tuple items)
  | dict {entries : List (Datum × Datum)} :
      (∀ e ∈ entries, Literal e.1) → (∀ e ∈ entries, Literal e.2) → (∀ e ∈ entries, e.1.Hashable) →
      entries.Pairwise (fun d e => ¬ d.1.Equal e.1) → Literal (.dict entries)

end Datum

/-! ### Functions on data -/

mutual

/-- A function of a datum, given what it makes of data without parts and of the results for the
parts of a list, a tuple and a dict. -/
def Datum.fold {α : Type} (leaf : Datum → α) (list tuple : List α → α) (dict : List (α × α) → α) :
    Datum → α
  | .list items => list (foldItems leaf list tuple dict items)
  | .tuple items => tuple (foldItems leaf list tuple dict items)
  | .dict entries => dict (foldEntries leaf list tuple dict entries)
  | d => leaf d

def foldItems {α : Type} (leaf : Datum → α) (list tuple : List α → α) (dict : List (α × α) → α) :
    List Datum → List α
  | [] => []
  | d :: rest => d.fold leaf list tuple dict :: foldItems leaf list tuple dict rest

def foldEntries {α : Type} (leaf : Datum → α) (list tuple : List α → α) (dict : List (α × α) → α) :
    List (Datum × Datum) → List (α × α)
  | [] => []
  | (key, value) :: rest =>
      (key.fold leaf list tuple dict, value.fold leaf list tuple dict) ::
        foldEntries leaf list tuple dict rest

end

section Fold

variable {α : Type} {leaf : Datum → α} {list tuple : List α → α} {dict : List (α × α) → α}

theorem foldItems_eq (items : List Datum) :
    foldItems leaf list tuple dict items = items.map (Datum.fold leaf list tuple dict) := by
  induction items with
  | nil => rfl
  | cons d rest ih => exact congrArg (d.fold leaf list tuple dict :: ·) ih

theorem foldEntries_eq (entries : List (Datum × Datum)) :
    foldEntries leaf list tuple dict entries =
      entries.map fun e => (e.1.fold leaf list tuple dict, e.2.fold leaf list tuple dict) := by
  induction entries with
  | nil => rfl
  | cons e rest ih =>
      exact congrArg ((e.1.fold leaf list tuple dict, e.2.fold leaf list tuple dict) :: ·) ih

theorem fold_list (items : List Datum) :
    (Datum.list items).fold leaf list tuple dict =
      list (items.map (Datum.fold leaf list tuple dict)) :=
  congrArg list (foldItems_eq items)

theorem fold_tuple (items : List Datum) :
    (Datum.tuple items).fold leaf list tuple dict =
      tuple (items.map (Datum.fold leaf list tuple dict)) :=
  congrArg tuple (foldItems_eq items)

theorem fold_dict (entries : List (Datum × Datum)) :
    (Datum.dict entries).fold leaf list tuple dict = dict (entries.map fun e =>
      (e.1.fold leaf list tuple dict, e.2.fold leaf list tuple dict)) :=
  congrArg dict (foldEntries_eq entries)

end Fold

namespace Datum

/-- One level of brackets around parts. -/
def around (nestings : List Nat) : Nat :=
  1 + nestings.foldr max 0

/-- How deep brackets stand within brackets. -/
def nesting : Datum → Nat :=
  fold (fun _ => 0) around around fun entries => around (entries.map fun e => max e.1 e.2)

@[simp] theorem nesting_list (items : List Datum) :
    (list items).nesting = 1 + (items.map nesting).foldr max 0 :=
  fold_list items

@[simp] theorem nesting_tuple (items : List Datum) :
    (tuple items).nesting = 1 + (items.map nesting).foldr max 0 :=
  fold_tuple items

@[simp] theorem nesting_dict (entries : List (Datum × Datum)) :
    (dict entries).nesting =
      1 + (entries.map fun e => max e.1.nesting e.2.nesting).foldr max 0 := by
  rw [nesting, fold_dict, around, List.map_map]
  rfl

theorem le_nesting {items : List Datum} {d : Datum} (member : d ∈ items) :
    d.nesting ≤ (items.map nesting).foldr max 0 :=
  (Expr.le_foldr_max _ 0).2 _ (List.mem_map_of_mem member)

theorem le_nesting_entries {entries : List (Datum × Datum)} {e : Datum × Datum}
    (member : e ∈ entries) :
    max e.1.nesting e.2.nesting ≤
      (entries.map fun e => max e.1.nesting e.2.nesting).foldr max 0 :=
  (Expr.le_foldr_max _ 0).2 _
    (List.mem_map_of_mem (f := fun e => max e.1.nesting e.2.nesting) member)

def leafWeight : Datum → Nat
  | text t => t.length
  | int n => Value.intWeight n
  | _ => 1

/-- An empty container weighs one. -/
def together (weights : List Nat) : Nat :=
  if weights.isEmpty then 1 else weights.sum

/-- The weight of a value that is this datum. -/
def weight : Datum → Nat :=
  fold leafWeight together together fun entries => together (entries.flatMap fun e => [e.1, e.2])

@[simp] theorem weight_list (items : List Datum) :
    (list items).weight = together (items.map weight) :=
  fold_list items

@[simp] theorem weight_tuple (items : List Datum) :
    (tuple items).weight = together (items.map weight) :=
  fold_tuple items

@[simp] theorem weight_dict (entries : List (Datum × Datum)) :
    (dict entries).weight = together (entries.flatMap fun e => [e.1.weight, e.2.weight]) := by
  rw [weight, fold_dict, List.flatMap_map]

/-- The expression for a datum without parts; a minus sign stands before the digits of a negative
integer. -/
def leafExpr : Datum → Expr
  | bool b => .literal 0 (.bool b)
  | int n =>
      if n < 0 then .unary 0 .minus (.literal 0 (.int n.natAbs)) else .literal 0 (.int n.natAbs)
  | text t => .literal 0 (.text t)
  | _ => .literal 0 .none

/-- The expression for a datum. -/
def expr : Datum → Expr :=
  fold leafExpr (.list 0) (.tuple 0) (.dict 0)

@[simp] theorem expr_list (items : List Datum) : (list items).expr = .list 0 (items.map expr) :=
  fold_list items

@[simp] theorem expr_tuple (items : List Datum) :
    (tuple items).expr = .tuple 0 (items.map expr) :=
  fold_tuple items

@[simp] theorem expr_dict (entries : List (Datum × Datum)) :
    (dict entries).expr = .dict 0 (entries.map fun e => (e.1.expr, e.2.expr)) :=
  fold_dict entries

end Datum

end Snippet
