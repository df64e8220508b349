import Snippet.Store
import Snippet.Number.Decimal

/-!
The weight of a value: the characters and items that are reachable from it, shared ones counted
each time. The walk goes through the items from the last to the first and stops as soon as the
total passes a limit. A container that is open on the way to itself counts one, so that the walk
ends.
-/

set_option autoImplicit false

namespace Snippet

/-- Longest text and weightiest value that an evaluation may build. -/
def maxLength : Nat := 100000

/-- Longest integer, in bits, that an evaluation may build. -/
def maxBits : Nat := 100000

/-- Room for the items of a sequence. The weight leaves out empty texts, so it does not bound how
many there are. -/
def maxItems : Nat := Nat.pow 2 26

/-- Room for the characters of a text while it is filled in. -/
def maxCharacters : Nat := Nat.pow 2 32

/-- Room for the bytes of a text that is put together from others. -/
def maxBytes : Nat := Nat.pow 2 35

def bitLength (n : Int) : Nat :=
  if n == 0 then 0 else n.natAbs.log2 + 1

namespace Value

/-- An integer beyond 64 bits weighs about as much as its digits. -/
def intWeight (n : Int) : Nat :=
  if bitLength n ≤ 64 then 1 else bitLength n / 3

def leafWeight : Value → Nat
  | text _ t | raw _ t => t.length
  | int _ n => intWeight n
  | _ => 1

/-- Adds the weight of a value, below the containers of a path, to a total. -/
abbrev Weigher := List Value → Value → Nat → Nat

mutual

/-- Weigh a value, given how lists and dicts are weighed. -/
def weighWith (limit : Nat) (open? : Weigher) : Weigher
  | path, tuple t items, total =>
      if items.isEmpty || path.any (same (tuple t items)) then total + 1
      else weighItems limit open? (tuple t items :: path) items total
  | path, list r, total => open? path (list r) total
  | path, dict r, total => open? path (dict r) total
  | _, v, total => total + leafWeight v

def weighItems (limit : Nat) (open? : Weigher) : List Value → List Value → Nat → Nat
  | _, [], total => total
  | path, x :: xs, total =>
      let total := weighItems limit open? path xs total
      if total > limit then total else weighWith limit open? path x total

end

/-- What a list or a dict holds, keys and values in turn. -/
def children (s : Store) : Value → List Value
  | list r => s.items r
  | dict r => (s.entries r).flatMap fun e => [e.1, e.2]
  | _ => []

/-- Weigh with so many lists and dicts that may still be opened. -/
def weighAt (s : Store) (limit : Nat) : Nat → Weigher
  | 0 => weighWith limit fun _ _ total => total + 1
  | room + 1 =>
      weighWith limit fun path v total =>
        let inside := children s v
        if inside.isEmpty || path.any (same v) then total + 1
        else
          inside.foldr
            (fun x total =>
              if total > limit then total else weighAt s limit room (v :: path) x total)
            total

/-- The weight of a value; a number above the limit if the weight is. -/
def weight (s : Store) (limit : Nat) (v : Value) : Nat :=
  weighAt s limit (s.lists.size + s.dicts.size) [] v 0

def isContainer : Value → Bool
  | text .. | raw .. | tuple .. | list _ | dict _ => true
  | _ => false

/-- Refuse a text or a container that weighs too much. -/
def checkWeight (v : Value) : Eval Unit := do
  if isContainer v && weight (← get) maxLength v > maxLength then Eval.fail .resultTooLarge

/-- Refuse a value that is too large to be a result. -/
def checked (v : Value) : Eval Value := do
  match v with
  | int _ n => if bitLength n > maxBits then Eval.fail .integerTooLarge
  | _ => checkWeight v
  return v

end Value

end Snippet
