/-!
Where a test stops to hold along numbered positions. The answer is the border when the test holds
of a first part and of nothing behind it; the order of the trials says what it is otherwise.
-/

set_option autoImplicit false

namespace Snippet.Sorting

variable {ε : Type}

/-- The border between two positions, by halving. -/
def halve (holds : Nat → Except ε Bool) : Nat → Nat → Nat → Except ε Nat
  | 0, low, _ => .ok low
  | fuel + 1, low, high =>
      if low < high then do
        let middle := low + (high - low) / 2
        if ← holds middle then halve holds fuel (middle + 1) high
        else halve holds fuel low middle
      else .ok low

def borderWithin (holds : Nat → Except ε Bool) (low high : Nat) : Except ε Nat :=
  halve holds (high - low) low high

/--
The last distance that is known to be passed and the first that is not, by trials at distances
that double.
-/
def stride (passes : Nat → Except ε Bool) (limit : Nat) : Nat → Nat → Nat → Except ε (Nat × Nat)
  | 0, near, _ => .ok (near, limit)
  | fuel + 1, near, far =>
      if far < limit then do
        if ← passes far then stride passes limit fuel far (2 * far + 1)
        else return (near, far)
      else .ok (near, limit)

/-- The border among the first positions, sought from a hint in strides and then by halving. -/
def borderFrom (holds : Nat → Except ε Bool) (length hint : Nat) : Except ε Nat := do
  if ← holds hint then
    let limit := length - hint
    let (near, far) ← stride (fun d => holds (hint + d)) limit limit 0 1
    borderWithin holds (hint + near + 1) (hint + far)
  else
    let limit := hint + 1
    let (near, far) ← stride (fun d => not <$> holds (hint - d)) limit limit 0 1
    borderWithin holds (limit - far) (hint - near)

end Snippet.Sorting
