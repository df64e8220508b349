import Snippet.Expr
import Snippet.Format.Template
import Snippet.Value.Order

/-!
The operators. Results that could grow without bound are refused before or after they are built;
the rest follows from the kinds of the operands.
-/

set_option autoImplicit false

namespace Snippet.Operator

open Value (checked ofInt ofFloat ofComplex ofText ofNewText ofTuple ofList)

/-- Two numbers made the same kind. -/
inductive Pair where
  | ints (a b : Int)
  | floats (x y : Float)
  | complexes (z w : Complex)

def floatOf (n : Numeric) : Except Breach Float :=
  match n with
  | .int n =>
      match floatOfInt? n with
      | some x => .ok x
      | none => .error .overflow
  | .float x => .ok x
  | .complex _ => .error .type

def complexOf (n : Numeric) : Except Breach Complex :=
  match n with
  | .complex z => .ok z
  | n => Complex.ofReal <$> floatOf n

/-- Two operands as numbers of the same kind; other operands are a breach. -/
def pairOf (a b : Value) : Except Breach Pair :=
  match Numeric.ofValue? a, Numeric.ofValue? b with
  | some (.int m), some (.int n) => .ok (.ints m n)
  | some m, some n => do
      if m.isComplex || n.isComplex then return .complexes (← complexOf m) (← complexOf n)
      else return .floats (← floatOf m) (← floatOf n)
  | _, _ => .error .type

/-- The same for operators that complex numbers do not have. -/
def realPairOf (a b : Value) : Except Breach Pair :=
  let isComplex (v : Value) : Bool := (Numeric.ofValue? v).any (·.isComplex)
  if isComplex a || isComplex b then .error .type else pairOf a b

/-- The empty text itself, and not source text that is empty. -/
def isEmptyText : Value → Bool
  | .text _ t => t.isEmpty
  | _ => false

/-- Two texts behind each other; nothing is added by the empty text. -/
def addTexts (a b : Value) (s t : Text) : Eval Value :=
  if isEmptyText a then Value.exactText b t
  else if isEmptyText b then Value.exactText a s
  else ofNewText (s ++ t)

def addTuples (a b : Value) (xs ys : List Value) : Eval Value :=
  if ys.isEmpty then pure a
  else if xs.isEmpty then pure b
  else ofTuple (xs ++ ys)

def addNumbers (a b : Value) : Eval Value := do
  match ← Eval.lift (pairOf a b) with
  | .ints m n => ofInt (m + n)
  | .floats x y => ofFloat (x + y)
  | .complexes z w => ofComplex (z.add w)

/-- Sum of numbers, or two sequences of one kind behind each other. -/
def addPlain (a b : Value) : Eval Value := do
  match a, b with
  | .list r, .list q => ofList ((← Eval.itemsOf r) ++ (← Eval.itemsOf q))
  | .tuple _ xs, .tuple _ ys => addTuples a b xs ys
  | _, _ =>
      match a.text?, b.text? with
      | some s, some t => addTexts a b s t
      | _, _ => addNumbers a b

def add (a b : Value) : Eval Value := do
  checked (← addPlain a b)

def sub (a b : Value) : Eval Value := do
  match ← Eval.lift (pairOf a b) with
  | .ints m n => ofInt (m - n)
  | .floats x y => ofFloat (x - y)
  | .complexes z w => ofComplex (z.sub w)

/-- A text, list or tuple, which can be repeated, with its items or characters counted. -/
def isRepeatable : Value → Bool
  | .text .. | .raw .. | .list _ | .tuple .. => true
  | _ => false

/-- Refuse a repetition or a product that would be too large, before it is built. -/
def checkProduct (a b : Value) : Eval Unit := do
  let s ← get
  let refuse (sequence : Value) (count : Int) : Bool :=
    Value.isTrue s sequence && (Value.weight s maxLength sequence : Int) * max count 0 > maxLength
  match isRepeatable a, b.int? with
  | true, some n => if refuse a n then Eval.fail .resultTooLarge
  | _, _ =>
      match isRepeatable b, a.int? with
      | true, some n => if refuse b n then Eval.fail .resultTooLarge
      | _, _ =>
          match a.int?, b.int? with
          | some m, some n =>
              if bitLength m + bitLength n > maxBits then Eval.fail .integerTooLarge
          | _, _ => pure ()

/-- Counts and positions fit a signed word of 64 bits. -/
def isWord (n : Int) : Bool :=
  -(Nat.pow 2 63) ≤ n && n < Nat.pow 2 63

def countOf (n : Int) : Eval Nat :=
  if isWord n then pure n.toNat else Eval.breach .overflow

/-- The members `n` times over; nothing to repeat stays nothing, however large the count. -/
def repeated {α : Type} (n : Nat) (xs : List α) : Eval (List α) := do
  if xs.isEmpty || n == 0 then return []
  else if n * xs.length > maxItems then Eval.breach .memory
  else return (List.replicate n xs).flatten

def repeatValue (v : Value) (n : Int) : Eval Value := do
  let n ← countOf n
  match v with
  | .list r => ofList (← repeated n (← Eval.itemsOf r))
  | .tuple _ items => if n == 1 then return v else ofTuple (← repeated n items)
  | .text _ t => if n == 1 then return v else ofNewText (← repeated n t)
  | .raw _ t => ofNewText (← repeated n t)
  | _ => Eval.breach .type

def mulNumbers (a b : Value) : Eval Value := do
  match ← Eval.lift (pairOf a b) with
  | .ints m n => ofInt (m * n)
  | .floats x y => ofFloat (x * y)
  | .complexes z w => ofComplex (z.mul w)

/-- Product of numbers, or a sequence repeated. -/
def mulPlain (a b : Value) : Eval Value :=
  match isRepeatable a, b.int? with
  | true, some n => repeatValue a n
  | _, _ =>
      match isRepeatable b, a.int? with
      | true, some n => repeatValue b n
      | _, _ => mulNumbers a b

def mul (a b : Value) : Eval Value := do
  checkProduct a b
  checked (← mulPlain a b)

def div (a b : Value) : Eval Value := do
  match ← Eval.lift (pairOf a b) with
  | .ints m n =>
      if n == 0 then Eval.breach .zeroDivision
      else ofFloat (← Eval.orBreach .overflow (divideInts? m n))
  | .floats x y => if y == 0 then Eval.breach .zeroDivision else ofFloat (x / y)
  | .complexes z w => ofComplex (← Eval.orBreach .zeroDivision (z.div? w))

/-- The quotient rounded down. -/
def floorDiv (a b : Value) : Eval Value := do
  match ← Eval.lift (realPairOf a b) with
  | .ints m n => if n == 0 then Eval.breach .zeroDivision else ofInt (Int.fdiv m n)
  | .floats x y =>
      if y == 0 then Eval.breach .zeroDivision else ofFloat (Real.floorDivide x y)
  | .complexes .. => Eval.breach .type

/-- Integers are kept in digits of thirty bits. -/
def digitCount (n : Int) : Nat :=
  (bitLength n + 29) / 30

def leadingDigit (n : Int) : Nat :=
  n.natAbs / Nat.pow 2 (30 * (digitCount n - 1))

/-- A dividend with fewer digits than the divisor, or with as many and a smaller leading one, is
handed on as the remainder; single digits are divided all the same. -/
def isOwnRemainder (m n : Int) : Bool :=
  let fewer := digitCount m < digitCount n
  let lower := digitCount m == digitCount n && leadingDigit m < leadingDigit n
  (fewer || lower && digitCount n > 1) && (m < 0) == (n < 0)

def modNumbers (a b : Value) : Eval Value := do
  match ← Eval.lift (realPairOf a b) with
  | .ints m n =>
      if n == 0 then Eval.breach .zeroDivision
      else
        match a, isOwnRemainder m n with
        | .int .., true => return a
        | _, _ => ofInt (Int.fmod m n)
  | .floats x y => if y == 0 then Eval.breach .zeroDivision else ofFloat (Real.modulo x y)
  | .complexes .. => Eval.breach .type

/-- A filled template. One without directives is itself. -/
def fill (base : Value) (template : Text) (operand : Value) : Eval Value := do
  let filled ← Format.fillTemplate template operand
  if !template.isEmpty && !template.contains '%' then return base else return filled

/-- The remainder that has the sign of the divisor, or a template filled from its operand. -/
def mod (a b : Value) : Eval Value := do
  if a.text?.any Format.hasLongNumber then Eval.fail .formatTooWide
  Value.checkWeight b
  match a.text? with
  | some template => checked (← fill a template b)
  | none => checked (← modNumbers a b)

def floatPower (x y : Float) : Eval Value :=
  let failed (why : Real.PowerFailure) : Eval Value :=
    match why with
    | .zeroToNegative => Eval.breach .zeroDivision
    | .tooLarge => Eval.breach .overflow
  match Real.power x y with
  | .real r => ofFloat r
  | .failed why => failed why
  | .offLine =>
      match (Complex.ofReal x).pow (.ofReal y) with
      | .ok z => ofComplex z
      | .error why => failed why

/-- A power of an integer; the bases that do not grow need no multiplication. -/
def intPower (m : Int) (n : Nat) : Int :=
  if m == 1 then 1
  else if m == 0 then (if n == 0 then 1 else 0)
  else
    let size : Int := if m == -1 then 1 else Nat.pow m.natAbs n
    if m < 0 && n % 2 == 1 then -size else size

def powNumbers (a b : Value) : Eval Value := do
  match ← Eval.lift (pairOf a b) with
  | .ints m n =>
      if n ≥ 0 then ofInt (intPower m n.toNat)
      else floatPower (← Eval.lift (floatOf (.int m))) (← Eval.lift (floatOf (.int n)))
  | .floats x y => floatPower x y
  | .complexes z w =>
      match z.pow w with
      | .ok r => ofComplex r
      | .error .zeroToNegative => Eval.breach .zeroDivision
      | .error .tooLarge => Eval.breach .overflow

def pow (a b : Value) : Eval Value := do
  match a.int?, b.int? with
  | some m, some n =>
      if n > 0 && m.natAbs > 1 && (bitLength m : Int) * n > maxBits then
        Eval.fail .exponentTooLarge
  | _, _ => pure ()
  powNumbers a b

def binary : BinaryOp → Value → Value → Eval Value
  | .add => add
  | .sub => sub
  | .mul => mul
  | .div => div
  | .floorDiv => floorDiv
  | .mod => mod
  | .pow => pow

def negate (v : Value) : Eval Value :=
  match Numeric.ofValue? v with
  | some (.int n) => ofInt (-n)
  | some (.float x) => ofFloat (-x)
  | some (.complex z) => ofComplex z.neg
  | none => Eval.breach .type

def unary (op : UnaryOp) (v : Value) : Eval Value := do
  match op with
  | .not => return .bool (!Value.isTrue (← get) v)
  | .minus => negate v
  | .plus =>
      match v with
      | .bool b => ofInt b.toInt
      | .int .. | .float .. | .complex .. => return v
      | _ => Eval.breach .type

def ordered (op : OrderOp) (a b : Value) : Eval Bool := do
  Eval.lift (Value.order (← get) op a b)

def compare (op : Comparison) (a b : Value) : Eval Bool := do
  match op with
  | .eq => Eval.lift (Value.eq (← get) a b)
  | .ne => return !(← Eval.lift (Value.eq (← get) a b))
  | .lt => ordered .lt a b
  | .gt => ordered .gt a b
  | .le => ordered .le a b
  | .ge => ordered .ge a b
  | .isIn => Eval.lift (Value.contains (← get) b a)
  | .notIn => return !(← Eval.lift (Value.contains (← get) b a))
  | .same => return Value.same a b
  | .notSame => return !Value.same a b

end Snippet.Operator
