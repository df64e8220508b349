import Snippet.Value.Render

/-!
Scopes: the names that are bound, in the order in which they were first bound.
-/

set_option autoImplicit false

namespace Snippet

structure Scope where
  bindings : Bindings

namespace Scope

def empty : Scope :=
  ⟨[]⟩

def find? (scope : Scope) (name : Text) : Option Value :=
  (scope.bindings.find? fun b => b.1 == name).map (·.2)

def has (scope : Scope) (name : Text) : Bool :=
  (scope.find? name).isSome

def bindIn : Bindings → Text → Value → Bindings
  | [], name, v => [(name, v)]
  | (n, w) :: rest, name, v =>
      if n == name then (n, v) :: rest else (n, w) :: bindIn rest name v

/-- Bind a name; one that is bound keeps its place. -/
def set (scope : Scope) (name : Text) (v : Value) : Scope :=
  ⟨bindIn scope.bindings name v⟩

theorem find?_bindIn (bindings : Bindings) (name other : Text) (v : Value) :
    find? ⟨bindIn bindings name v⟩ other
      = if other = name then some v else find? ⟨bindings⟩ other := by
  induction bindings with
  | nil =>
      by_cases h : other = name
      · simp [bindIn, find?, h]
      · simp [bindIn, find?, h, Ne.symm h]
  | cons b rest ih =>
      obtain ⟨n, w⟩ := b
      simp only [find?] at ih
      by_cases hn : n = name
      · subst hn
        by_cases h : other = n
        · simp [bindIn, find?, h]
        · simp [bindIn, find?, h, Ne.symm h]
      · by_cases ho : n = other
        · subst ho
          simp [bindIn, find?, hn]
        · simp [bindIn, find?, hn, ho, ih]

/-- Binding a name changes what that name means and nothing else. -/
@[simp] theorem find?_set (scope : Scope) (name other : Text) (v : Value) :
    (scope.set name v).find? other = if other = name then some v else scope.find? other :=
  find?_bindIn scope.bindings name other v

/-- Longest text of a value in a snapshot. -/
def snapshotLength : Nat := 80

def shorten (t : Text) : Text :=
  if t.length > snapshotLength then t.take (snapshotLength - 3) ++ "...".toList else t

/-- A value in a snapshot: its type and its text; one that cannot be written shows its type again.
-/
def snapshotText (s : Store) (v : Value) : Text :=
  let label :=
    match v with
    | .raw .. => "raw"
    | v => v.typeName
  let body :=
    match Value.written s v with
    | .ok t => t
    | .error _ => '<' :: v.typeName.toList ++ ['>']
  label.toList ++ ':' :: shorten body

/-- All names with the texts of their values. -/
def snapshot (s : Store) (scope : Scope) : List (Text × Text) :=
  scope.bindings.map fun b => (b.1, snapshotText s b.2)

end Scope

end Snippet
