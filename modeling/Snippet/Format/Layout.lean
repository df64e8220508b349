import Snippet.Format.Spec
import Snippet.Number.Decimal

/-!
Padding a text, and setting out a number: sign, base mark, digits in groups, and the rest.
-/

set_option autoImplicit false

namespace Snippet.Format

def padding (fill : Char) (n : Int) : Text :=
  List.replicate n.toNat fill

/-- Fill up to a width; in the center the left side gets the smaller half. -/
def padded (spec : Spec) (t : Text) : Text :=
  let missing : Int := (spec.width.getD 0 : Int) - t.length
  if missing ≤ 0 then t
  else
    match spec.align with
    | .left => t ++ padding spec.fill missing
    | .right | .inner => padding spec.fill missing ++ t
    | .center =>
        padding spec.fill (missing / 2) ++ t ++ padding spec.fill (missing - missing / 2)

/-- Groups of digits from the right, the digits last first. Zeros go on in groups as long as there
is width to fill. -/
def groupsFrom (size : Nat) (separator : Char) : Nat → Text → Int → Text → Text
  | 0, _, _, done => done
  | turns + 1, reversed, width, done =>
      let length := min size (max (max reversed.length width.toNat) 1)
      let chunk := (reversed.take length).reverse
      let grouped := Decimal.zeros (length - chunk.length) ++ chunk ++ done
      let rest := reversed.drop length
      let left := width - length
      if rest.isEmpty && left ≤ 0 then grouped
      else groupsFrom size separator turns rest (left - 1) (separator :: grouped)

/-- Digits filled with zeros up to a width, in groups if a separator is given. -/
def groupedDigits (separator : Option Char) (size : Nat) (digits : Text) (width : Int) : Text :=
  match separator with
  | none => Decimal.zeros (max width 1 - digits.length) ++ digits
  | some s => groupsFrom size s (digits.length + width.toNat + 1) digits.reverse width []

/-- The parts of a number. -/
structure Parts where
  negative : Bool
  /-- The mark of a base, such as `0x`. -/
  mark : Text
  digits : Text
  /-- The point and what follows the digits before it. -/
  rest : Text

/-- The parts of a written number that may start with a minus sign. -/
def Parts.ofText (t : Text) : Parts :=
  let (negative, t) := splitMark '-' t
  let digits := t.takeWhile fun c => '0' ≤ c && c ≤ '9'
  { negative, mark := [], digits, rest := t.drop digits.length }

def signOf (rule : Option SignRule) (negative : Bool) : Text :=
  if negative then ['-']
  else
    match rule with
    | some .always => ['+']
    | some .spaced => [' ']
    | _ => []

/-- The parts in order, filled up to the width at the place that the alignment says. -/
def Parts.setOut (p : Parts) (spec : Spec) (groupSize : Nat) : Text :=
  let sign := signOf spec.sign p.negative
  let width : Int := spec.width.getD 0
  let other := sign.length + p.mark.length + p.rest.length
  let digitWidth := if spec.fill == '0' && spec.align == .inner then width - other else 0
  let digits :=
    if p.digits.isEmpty then [] else groupedDigits spec.separator groupSize p.digits digitWidth
  let missing := width - other - digits.length
  match spec.align with
  | .inner => sign ++ p.mark ++ padding spec.fill missing ++ digits ++ p.rest
  | _ => padded spec (sign ++ p.mark ++ digits ++ p.rest)

end Snippet.Format
