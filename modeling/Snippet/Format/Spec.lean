import Snippet.Cause
import Snippet.Text.Numeric

/-!
Format specifications: `[[fill]align][sign][z][#][0][width][grouping][.precision][type]`.
-/

set_option autoImplicit false

namespace Snippet.Format

inductive Align where
  | left | right | center
  /-- Between the sign and the digits. -/
  | inner
  deriving Repr, DecidableEq

inductive SignRule where
  | negativeOnly | always | spaced
  deriving Repr, DecidableEq

structure Spec where
  fill : Char
  align : Align
  sign : Option SignRule
  /-- A negative number that rounds to zero loses its sign. -/
  dropNegativeZero : Bool
  alternate : Bool
  width : Option Nat
  /-- What separates groups of digits. -/
  separator : Option Char
  precision : Option Nat
  /-- What the value is written as; none for the default of its kind. -/
  code : Option Char
  deriving Repr, DecidableEq

def alignOf? : Char → Option Align
  | '<' => some .left
  | '>' => some .right
  | '^' => some .center
  | '=' => some .inner
  | _ => none

def signOf? : Char → Option SignRule
  | '-' => some .negativeOnly
  | '+' => some .always
  | ' ' => some .spaced
  | _ => none

/-- The fill and the alignment in front of a specification. -/
def splitAlign (t : Text) : Option Char × Option Align × Text :=
  match t with
  | c :: d :: rest =>
      match alignOf? d with
      | some align => (some c, some align, rest)
      | none =>
          match alignOf? c with
          | some align => (none, some align, d :: rest)
          | none => (none, none, t)
  | [c] =>
      match alignOf? c with
      | some align => (none, some align, [])
      | none => (none, none, t)
  | [] => (none, none, [])

def splitSignRule (t : Text) : Option SignRule × Text :=
  match t with
  | c :: rest =>
      match signOf? c with
      | some sign => (some sign, rest)
      | none => (none, t)
  | [] => (none, [])

/-- A mark that may stand in front of a text. -/
def splitMark (mark : Char) (t : Text) : Bool × Text :=
  match t with
  | c :: rest => if c == mark then (true, rest) else (false, t)
  | [] => (false, [])

/-- A number in front of a text, in digits of any script. -/
def splitNumber (t : Text) : Option Nat × Text :=
  match t.takeWhile isDecimal with
  | [] => (none, t)
  | digits =>
      (some (digits.foldl (fun n c => 10 * n + (digitValue? c).getD 0) 0),
        t.drop digits.length)

/-- Grouping by commas or underscores, not by both. -/
def splitSeparator (t : Text) : Except Breach (Option Char × Text) :=
  let (comma, rest) := splitMark ',' t
  let (underscore, rest) := splitMark '_' rest
  if comma && underscore then .error .value
  else if underscore && rest.head? == some ',' then .error .value
  else .ok (if comma then some ',' else if underscore then some '_' else none, rest)

def splitPrecision (t : Text) : Except Breach (Option Nat × Text) :=
  match t with
  | '.' :: rest =>
      match splitNumber rest with
      | (some n, rest) => .ok (some n, rest)
      | (none, _) => .error .value
  | _ => .ok (none, t)

/-- The numbers that may be written with a separator. -/
def allowsSeparator (separator : Char) (code : Option Char) : Bool :=
  match code with
  | none => true
  | some c =>
      "defgEG%F".toList.contains c || (separator == '_' && "boxX".toList.contains c)

/-- Read a specification. Numbers stand to the right by default and take a zero before the width
as filling behind their sign; `defaultCode` is the type of a value that names none. -/
def Spec.read (defaultAlign : Align) (defaultCode : Option Char) (t : Text) :
    Except Breach Spec := do
  let (fill, align, t) := splitAlign t
  let (sign, t) := splitSignRule t
  let (dropNegativeZero, t) := splitMark 'z' t
  let (alternate, t) := splitMark '#' t
  let (zero, t) := if fill.isNone then splitMark '0' t else (false, t)
  let (width, t) := splitNumber t
  let (separator, t) ← splitSeparator t
  let (precision, t) ← splitPrecision t
  let code ←
    match t with
    | [] => pure defaultCode
    | [c] => pure (some c)
    | _ => throw .value
  if separator.any fun s => !allowsSeparator s code then throw .value
  let zeroAlign := if zero && defaultAlign == .right then .inner else defaultAlign
  return {
    fill := fill.getD (if zero then '0' else ' ')
    align := align.getD zeroAlign
    sign, dropNegativeZero, alternate, width, separator, precision, code }

/-- More decimal digits in a row than a width may have. -/
def hasLongNumber (t : Text) : Bool :=
  longRun 0 t
where
  longRun : Nat → Text → Bool
    | run, [] => run ≥ 4
    | run, c :: rest => run ≥ 4 || longRun (if isDecimal c then run + 1 else 0) rest

end Snippet.Format
