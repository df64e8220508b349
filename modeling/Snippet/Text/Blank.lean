import Snippet.Text.Ranges

/-!
Blank characters and trimming. A blank is a space or a line or paragraph break of any script
(Unicode 14); trimming drops blanks at the ends only.
-/

set_option autoImplicit false

namespace Snippet

/-- Code points of the blanks. -/
def blankRanges : Ranges := [
  (0x9, 0xD), (0x1C, 0x20), (0x85, 0x85), (0xA0, 0xA0), (0x1680, 0x1680), (0x2000, 0x200A),
  (0x2028, 0x2029), (0x202F, 0x202F), (0x205F, 0x205F), (0x3000, 0x3000)]

def isBlank (c : Char) : Bool :=
  blankRanges.has c

namespace Text

-- Drop the longest run at an end whose characters all satisfy the test.
def dropStart (p : Char → Bool) (t : Text) : Text :=
  t.dropWhile p

def dropEnd (p : Char → Bool) (t : Text) : Text :=
  (t.reverse.dropWhile p).reverse

def trimBy (p : Char → Bool) (t : Text) : Text :=
  dropEnd p (dropStart p t)

def trim (t : Text) : Text :=
  trimBy isBlank t

theorem dropStart_eq_self (p : Char → Bool) (t : Text) (h : ∀ c ∈ t.head?, p c = false) :
    dropStart p t = t := by
  cases t with
  | nil => rfl
  | cons c rest => simp [dropStart, h c rfl]

theorem head?_dropStart (p : Char → Bool) (t : Text) :
    ∀ c ∈ (dropStart p t).head?, p c = false := by
  intro c hc
  have := List.head?_dropWhile_not p t
  rw [dropStart] at hc
  rw [Option.mem_def.mp hc] at this
  simpa using this

end Text

end Snippet
