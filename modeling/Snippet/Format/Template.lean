import Snippet.Format.Number
import Snippet.Value.Weight

/-!
Templates: texts with directives `%[(key)][flags][width][.precision]code` that take values in turn
from a tuple, from a single value, or by key from a dict.
-/

set_option autoImplicit false

namespace Snippet.Format

/-- The values that directives take. -/
structure Supply where
  pending : List Value
  /-- The operand, if directives may name keys of it. -/
  keyed : Option Value

namespace Supply

def ofOperand (v : Value) : Supply :=
  match v with
  | .tuple _ items => { pending := items, keyed := none }
  | .list _ | .dict _ => { pending := [v], keyed := some v }
  | _ => { pending := [v], keyed := none }

def take (s : Supply) : Eval (Value × Supply) :=
  match s.pending with
  | v :: rest => pure (v, { s with pending := rest })
  | [] => Eval.breach .type

/-- Go on with the value under a key. -/
def select (s : Supply) (key : Text) : Eval Supply := do
  match s.keyed with
  | some (.dict r) =>
      let name ← Value.ofText key
      match (← Eval.entriesOf r).find? name with
      | some v => return { s with pending := [v] }
      | none => throw (.missingKey name)
  | _ => Eval.breach .type

end Supply

structure Directive where
  leftAligned : Bool
  signed : Bool
  blank : Bool
  alternate : Bool
  zeroFilled : Bool
  width : Option Nat
  precision : Option Nat

def Directive.plain : Directive :=
  { leftAligned := false, signed := false, blank := false, alternate := false,
    zeroFilled := false, width := none, precision := none }

/-- Everything beyond this size is as good as this size: the result is refused in any case. -/
def sizeCap : Nat := maxLength + 1000

def readFlags (d : Directive) : Text → Directive × Text
  | '-' :: rest => readFlags { d with leftAligned := true } rest
  | '+' :: rest => readFlags { d with signed := true } rest
  | ' ' :: rest => readFlags { d with blank := true } rest
  | '#' :: rest => readFlags { d with alternate := true } rest
  | '0' :: rest => readFlags { d with zeroFilled := true } rest
  | t => (d, t)

/-- The key behind an opening bracket, brackets inside it counted, and what follows. -/
def splitKey? : Nat → Text → Option (Text × Text)
  | _, [] => none
  | depth, c :: rest =>
      if c == ')' && depth == 0 then some ([], rest)
      else
        let depth := if c == '(' then depth + 1 else if c == ')' then depth - 1 else depth
        (splitKey? depth rest).map fun (key, after) => (c :: key, after)

/-- A size taken from the values, which has to be an integer below a bound. -/
def takeSize (bound : Nat) (s : Supply) : Eval (Int × Supply) := do
  let (v, s) ← s.take
  match v.int? with
  | none => Eval.breach .type
  | some n => if n ≥ bound || n < -(bound : Int) then Eval.breach .overflow else return (n, s)

def asciiNumber (t : Text) : Option Nat × Text :=
  match t.takeWhile fun c => '0' ≤ c && c ≤ '9' with
  | [] => (none, t)
  | digits => (some (Numeral.ofDigits 10 digits), t.drop digits.length)

def readWidth (d : Directive) (s : Supply) (t : Text) : Eval (Directive × Supply × Text) := do
  match t with
  | '*' :: rest =>
      let (n, s) ← takeSize (Nat.pow 2 63) s
      let d := { d with
        width := some n.natAbs, leftAligned := d.leftAligned || n < 0 }
      return (d, s, rest)
  | _ =>
      let (n, rest) := asciiNumber t
      return ({ d with width := n }, s, rest)

def readPrecision (d : Directive) (s : Supply) (t : Text) :
    Eval (Directive × Supply × Text) := do
  match t with
  | '.' :: '*' :: rest =>
      let (n, s) ← takeSize (Nat.pow 2 31) s
      return ({ d with precision := some n.toNat }, s, rest)
  | '.' :: rest =>
      let (n, rest) := asciiNumber rest
      return ({ d with precision := some (n.getD 0) }, s, rest)
  | _ => return (d, s, t)

/-- A length mark before the code says nothing. -/
def dropLengthMark (t : Text) : Text :=
  match t with
  | c :: rest => if c == 'h' || c == 'l' || c == 'L' then rest else t
  | [] => []

/-- The integer of a number; only a decimal code takes the integer part of a float. -/
def integerOf (decimal : Bool) (v : Value) : Except Breach Int :=
  match v with
  | .float _ x =>
      if !decimal then .error .type
      else
        match Real.truncate? x with
        | some n => .ok n
        | none => .error (if x.isNaN then .value else .overflow)
  | v =>
      match v.int? with
      | some n => .ok n
      | none => .error .type

def floatOf (v : Value) : Except Breach Float :=
  match v with
  | .float _ x => .ok x
  | v =>
      match v.int? with
      | none => .error .type
      | some n =>
          match floatOfInt? n with
          | some x => .ok x
          | none => .error .overflow

def characterOf (v : Value) : Except Breach Text :=
  match v.text? with
  | some [c] => .ok [c]
  | some _ => .error .type
  | none =>
      match v.int? with
      | none => .error .type
      | some n =>
          if isCodePoint n then .ok [Char.ofNat n.toNat] else .error .overflow

/-- What a directive writes, still without filling: a number has its sign and mark apart. -/
inductive Body where
  | text (t : Text)
  | shown (v : Value)
  | number (p : Parts)

/-- The least precision that no integer can be written with. -/
def integerPrecisionCap : Nat := Nat.pow 2 31 - 3

def integerBody (d : Directive) (code : Char) (v : Value) : Except Breach Body := do
  let (radix, mark) := (radixOf? code).getD (10, [])
  let n ← integerOf (radix == 10) v
  let precision := d.precision.getD 0
  if precision ≥ integerPrecisionCap then throw .overflow
  let digits ← magnitudeText radix (code == 'X') n.natAbs
  let zeros := Decimal.zeros ((min precision sizeCap : Int) - digits.length)
  return .number {
    negative := n < 0, mark := if d.alternate then mark else [], digits := zeros ++ digits,
    rest := [] }

/-- The precision of a float. In scientific notation the digits, one more than the places, are
counted in a signed word of 32 bits; a count that does not fit leaves no places. -/
def floatPrecision (code : Char) (precision : Nat) : Nat :=
  if (code == 'e' || code == 'E') && precision + 1 ≥ Nat.pow 2 31 then 0 else min precision sizeCap

def floatBody (d : Directive) (code : Char) (v : Value) : Except Breach Body := do
  let x ← floatOf v
  match floatForm? d.alternate false (some code) (d.precision.map (floatPrecision code)) with
  | none => throw .value
  | some form => return .number (Parts.ofText (floatInForm form (isUpperCode (some code)) false x))

def cutTo (precision : Option Nat) (t : Text) : Text :=
  match precision with
  | some p => t.take p
  | none => t

/-- A value as a text without quotes (`s`), as in source (`r`), or as in source and in ASCII
(`a`). -/
def shownBody (code : Char) (v : Value) : Eval Value := do
  if code == 's' then v.toShown
  else
    let written ← v.toWritten
    let t := written.text?.getD []
    if code == 'r' || t.all (·.toNat < 128) then return written
    else Value.ofNewText (Text.asciiOnly t)

def bodyOf (d : Directive) (code : Char) (v : Value) : Eval Body := do
  if "sra".toList.contains code then return .shown (← shownBody code v)
  else if code == 'c' then return .text (← Eval.lift (characterOf v))
  else if "diuoxX".toList.contains code then Eval.lift (integerBody d code v)
  else if "eEfFgG".toList.contains code then Eval.lift (floatBody d code v)
  else Eval.breach .value

/-- How much is missing to the width. -/
def Directive.missing (d : Directive) (length : Nat) : Int :=
  (min (d.width.getD 0) sizeCap : Int) - length

def Directive.align (d : Directive) (t : Text) : Text :=
  let spaces := padding ' ' (d.missing t.length)
  if d.leftAligned then t ++ spaces else spaces ++ t

def Directive.fill (d : Directive) (body : Body) : Text :=
  match body with
  | .text t => d.align t
  | .shown v => d.align (cutTo d.precision (v.text?.getD []))
  | .number p =>
      let rule := if d.signed then some .always else if d.blank then some .spaced else none
      let front := signOf rule p.negative ++ p.mark
      let digits := p.digits ++ p.rest
      let missing := d.missing (front.length + digits.length)
      if d.leftAligned then front ++ digits ++ padding ' ' missing
      else if d.zeroFilled then front ++ padding '0' missing ++ digits
      else padding ' ' missing ++ front ++ digits

/-- What a directive has written: a text, and the text value that is written as it is. -/
structure Piece where
  text : Text
  value : Option Value

def Piece.plain (t : Text) : Piece :=
  ⟨t, none⟩

/-- A text of such a length is written as it is. -/
def Directive.leaves (d : Directive) (length : Nat) : Bool :=
  d.width.all (· ≤ length) && d.precision.all (length ≤ ·) && !d.signed && !d.blank

/-- Whether an integer goes to the result digit by digit, and not as a text value. -/
def Directive.writesDigits (d : Directive) (code : Char) (v : Value) : Bool :=
  match v with
  | .int .. =>
      d.width.isNone && d.precision.isNone
        && ("sra".toList.contains code || code != 'X' && !d.signed && !d.blank)
  | _ => false

/-- What a directive writes for a value that it has made into a body. -/
def Directive.write (d : Directive) (code : Char) (v : Value) (body : Body) : Eval Piece := do
  let t := d.fill body
  if d.writesDigits code v then return .plain t
  match body with
  | .shown shown =>
      return ⟨t, if d.leaves (shown.text?.getD []).length then some shown else none⟩
  | .number _ =>
      -- Padding makes a text longer than a digit, and only a single one could be shared.
      if "diu".toList.contains code && d.leaves t.length then
        return ⟨t, some (← Value.ofNewText t)⟩
      else return .plain t
  | .text _ => return .plain t

/-- Fill one directive, which starts behind its percent sign. -/
def fillDirective (t : Text) (s : Supply) : Eval (Piece × Text × Supply) := do
  let (s, t) ←
    match t with
    | '(' :: rest =>
        if s.keyed.isNone then Eval.breach .type
        else
          match splitKey? 0 rest with
          | some (key, after) => pure (← s.select key, after)
          | none => Eval.breach .value
    | _ => pure (s, t)
  let (d, t) := readFlags .plain t
  let (d, s, t) ← readWidth d s t
  let (d, s, t) ← readPrecision d s t
  match dropLengthMark t with
  | [] => Eval.breach .value
  | code :: rest =>
      let (v, s) ← s.take
      let body ← bodyOf d code v
      if d.width.any (· > maxCharacters) then Eval.breach .memory
      return (← d.write code v body, rest, s)

/-- The pieces, the last one first, as one text. A text value that is all there is, and behind
which nothing more may come, is the result itself. -/
def joinPieces (pieces : List Piece) : Eval Value :=
  let t := (pieces.reverse.map (·.text)).flatten
  match pieces with
  | ⟨last, some v⟩ :: _ => if t.length == last.length && !t.isEmpty then pure v else Value.ofText t
  | _ => Value.ofText t

/-- Fill the directives of a template; the pieces so far are in reverse order. -/
def fillFrom : Nat → Text → Supply → List Piece → Eval Value
  | 0, _, _, pieces => joinPieces pieces
  | turns + 1, t, s, pieces =>
      match t with
      | [] => do
          if !s.pending.isEmpty && s.keyed.isNone then Eval.breach .type
          joinPieces pieces
      | '%' :: '%' :: rest => fillFrom turns rest s (.plain ['%'] :: pieces)
      | '%' :: rest => do
          let (piece, rest, s) ← fillDirective rest s
          fillFrom turns rest s (piece :: pieces)
      | _ =>
          fillFrom turns (t.dropWhile (· != '%')) s (.plain (t.takeWhile (· != '%')) :: pieces)

/-- Fill a template from an operand. -/
def fillTemplate (template : Text) (operand : Value) : Eval Value :=
  fillFrom (template.length + 1) template (.ofOperand operand) []

end Snippet.Format
