import Snippet.Eval.Operator

/-!
Items and slices of sequences, entries of dicts, and what can be gone through item by item.
Positions count from the end when they are negative; the ends of a slice are moved into the
sequence.
-/

set_option autoImplicit false

namespace Snippet.Subscript

open Value (ofText ofNewText ofTuple ofList)

/-- The positions start, start + step, …, so many of them. -/
structure Span where
  start : Nat
  step : Int
  count : Nat

/-- A position counted from the end when negative, moved into the bounds. -/
def clampTo (low high : Int) (length : Nat) (i : Int) : Nat :=
  (max low (min high (if i < 0 then i + length else i))).toNat

def ceilDiv (a b : Int) : Nat :=
  ((a + b - 1) / b).toNat

/-- The positions of a slice of a sequence. A descending slice starts at the last position by
default and goes down to the first; its ends are shifted by one to count from there. -/
def spanOf (length : Nat) (lower upper : Option Int) (step : Int) : Span :=
  if step > 0 then
    let start := (lower.map (clampTo 0 length length)).getD 0
    let stop := (upper.map (clampTo 0 length length)).getD length
    { start, step, count := ceilDiv ((stop : Int) - start) step }
  else
    -- One more than the position, so that the place before the first one is zero.
    let above (i : Int) : Nat :=
      (max 0 (min (length : Int) ((if i < 0 then i + length else i) + 1))).toNat
    let start := (lower.map above).getD length
    let stop := (upper.map above).getD 0
    { start := start - 1, step, count := ceilDiv ((start : Int) - stop) (-step) }

variable {α : Type}

def Span.positions (p : Span) : List Nat :=
  (List.range p.count).map fun (i : Nat) => ((p.start : Int) + i * p.step).toNat

def Span.of (p : Span) (xs : List α) : List α :=
  if p.step == 1 then (xs.drop p.start).take p.count
  else
    let items := xs.toArray
    p.positions.filterMap (items[·]?)

/-- The whole sequence, in order. -/
def Span.isWhole (p : Span) (length : Nat) : Bool :=
  p.step == 1 && p.start == 0 && p.count == length

/-- An end of a slice: absent, nothing, or an integer. -/
def endOf (v : Option Value) : Except Breach (Option Int) :=
  match v with
  | none | some .none => .ok none
  | some v =>
      match v.int? with
      | some n => .ok (some n)
      | none => .error .type

/-- The three parts of a slice. -/
structure Slice where
  lower : Option Value
  upper : Option Value
  step : Option Value

def Slice.span (s : Slice) (length : Nat) : Except Breach Span := do
  let step := (← endOf s.step).getD 1
  if step == 0 then throw .value
  return spanOf length (← endOf s.lower) (← endOf s.upper) step

/-- The position that an index names. -/
def position (length : Nat) (index : Value) : Except Breach Nat :=
  match index.int? with
  | none => .error .type
  | some i =>
      let i := if i < 0 then i + length else i
      if 0 ≤ i && i < length then .ok i.toNat else .error .index

def itemAt (xs : List α) (index : Value) : Except Breach α := do
  let i ← position xs.length index
  match xs[i]? with
  | some x => return x
  | none => throw .index

/-- The value under a key, or the missing key as the failure. -/
def lookUp (ref : Ref) (key : Value) : Eval Value := do
  if !key.isHashable then Eval.breach .type
  match (← Eval.entriesOf ref).find? key with
  | some v => return v
  | none => throw (.missingKey key)

def getItem (base index : Value) : Eval Value := do
  match base with
  | .text _ t | .raw _ t => ofText [← Eval.lift (itemAt t index)]
  | .tuple _ items => Eval.lift (itemAt items index)
  | .list r => Eval.lift (itemAt (← Eval.itemsOf r) index)
  | .dict r => lookUp r index
  | _ => Eval.breach .type

/-- A stretch of a text, which is the text itself if nothing is left out; characters that are
picked one by one make a new text. -/
def stretchOf (base : Value) (t : Text) (span : Span) : Eval Value :=
  if span.isWhole t.length then Value.exactText base t
  else if span.step == 1 then ofText (span.of t)
  else ofNewText (span.of t)

/-- A slice of a sequence; the whole of an immutable one is that one. -/
def getSlice (base : Value) (slice : Slice) : Eval Value := do
  match base with
  | .text _ t | .raw _ t => stretchOf base t (← Eval.lift (slice.span t.length))
  | .tuple _ items =>
      let span ← Eval.lift (slice.span items.length)
      if span.isWhole items.length then return base else ofTuple (span.of items)
  | .list r =>
      let items ← Eval.itemsOf r
      let span ← Eval.lift (slice.span items.length)
      ofList (span.of items)
  | _ => Eval.breach .type

/-- The items of a value that can be gone through, in order. -/
def iterate (v : Value) : Eval (List Value) := do
  match v with
  | .text _ t | .raw _ t => t.mapM fun c => ofText [c]
  | .tuple _ items => return items
  | .list r => Eval.itemsOf r
  | .dict r => return (← Eval.entriesOf r).map (·.1)
  | .view _ .keys r => return (← Eval.entriesOf r).map (·.1)
  | .view _ .values r => return (← Eval.entriesOf r).map (·.2)
  | .view _ .items r => (← Eval.entriesOf r).mapM fun e => ofTuple [e.1, e.2]
  | _ => Eval.breach .type

/-- Replace the items at the positions of a slice, one for one. -/
def replaceAt (xs : List Value) (positions : List Nat) (values : List Value) : List Value :=
  ((positions.zip values).foldl (fun items pv => items.setIfInBounds pv.1 pv.2) xs.toArray).toList

/-- A list with a slice assigned: a stretch gives way to any number of items, scattered positions
to exactly as many. -/
def withSlice (xs : List Value) (span : Span) (values : List Value) :
    Except Breach (List Value) :=
  if span.step == 1 then .ok (xs.take span.start ++ values ++ xs.drop (span.start + span.count))
  else if values.length != span.count then .error .value
  else .ok (replaceAt xs span.positions values)

/-- What stops the change of an item of a value that cannot be changed. One that has positions at
all looks at the size of the position first. -/
def fixedItem (base index : Value) : Breach :=
  match base with
  | .none | .bool _ | .int .. | .float .. | .complex .. => .type
  | _ =>
      match index.int? with
      | some n => if Operator.isWord n then .type else .index
      | none => .type

def setItem (base index value : Value) : Eval Unit := do
  match base with
  | .list r =>
      let items ← Eval.itemsOf r
      let i ← Eval.lift (position items.length index)
      Eval.setItems r (items.set i value)
  | .dict r =>
      if !index.isHashable then Eval.breach .type
      Eval.setEntries r ((← Eval.entriesOf r).insert index value)
  | _ => Eval.breach (fixedItem base index)

def setSlice (base : Value) (slice : Slice) (value : Value) : Eval Unit := do
  match base with
  | .list r =>
      let items ← Eval.itemsOf r
      let span ← Eval.lift (slice.span items.length)
      let values ← iterate value
      Eval.setItems r (← Eval.lift (withSlice items span values))
  | _ => Eval.breach .type

end Snippet.Subscript
