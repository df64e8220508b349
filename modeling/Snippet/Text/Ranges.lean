/-!
Text as a list of code points, and sets of code points as sorted ranges.
-/

set_option autoImplicit false

namespace Snippet

/-- Text is a sequence of code points; every length and position counts code points. -/
abbrev Text := List Char

/-- Sorted, disjoint, inclusive ranges of code points. -/
abbrev Ranges := List (Nat × Nat)

def Ranges.hasCode : Ranges → Nat → Bool
  | [], _ => false
  | (first, last) :: rest, n => if n < first then false else n ≤ last || hasCode rest n

def Ranges.has (ranges : Ranges) (c : Char) : Bool :=
  ranges.hasCode c.toNat

end Snippet
