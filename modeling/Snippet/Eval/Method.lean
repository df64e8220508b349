import Snippet.Eval.Subscript
import Snippet.Sorting
import Snippet.Text.Case
import Snippet.Text.Letter

/-!
The methods that values may be asked for. Only those listed exist; each checks the number and the
kinds of its arguments before it touches its receiver.
-/

set_option autoImplicit false

namespace Snippet

inductive TextMethod where
  | upper | lower | strip | lstrip | rstrip | title | capitalize | replace | split | join
  | startswith | endswith | count | find | isdigit | isalpha
  deriving Repr, DecidableEq

inductive ListMethod where
  | append | pop | insert | remove | count | index | sort | reverse | copy
  deriving Repr, DecidableEq

inductive TupleMethod where
  | count | index
  deriving Repr, DecidableEq

inductive DictMethod where
  | get | keys | values | items | pop
  deriving Repr, DecidableEq

def textMethods : List (String × TextMethod) := [
  ("upper", .upper), ("lower", .lower), ("strip", .strip), ("lstrip", .lstrip),
  ("rstrip", .rstrip), ("title", .title), ("capitalize", .capitalize), ("replace", .replace),
  ("split", .split), ("join", .join), ("startswith", .startswith), ("endswith", .endswith),
  ("count", .count), ("find", .find), ("isdigit", .isdigit), ("isalpha", .isalpha)]

def listMethods : List (String × ListMethod) := [
  ("append", .append), ("pop", .pop), ("insert", .insert), ("remove", .remove),
  ("count", .count), ("index", .index), ("sort", .sort), ("reverse", .reverse), ("copy", .copy)]

def tupleMethods : List (String × TupleMethod) := [
  ("count", .count), ("index", .index)]

def dictMethods : List (String × DictMethod) := [
  ("get", .get), ("keys", .keys), ("values", .values), ("items", .items), ("pop", .pop)]

/-- A receiver with one of its methods. -/
inductive BoundMethod where
  | ofText (t : Text) (m : TextMethod)
  | ofList (ref : Ref) (m : ListMethod)
  | ofTuple (items : List Value) (m : TupleMethod)
  | ofDict (ref : Ref) (m : DictMethod)

namespace Method

open Value (ofInt ofNat ofText ofNewText ofList)
open Subscript (iterate clampTo)

def named? {α : Type} (table : List (String × α)) (name : Text) : Option α :=
  (table.find? fun m => m.1.toList == name).map (·.2)

/-- The method of a value with a name. -/
def bind? (base : Value) (name : Text) : Option BoundMethod :=
  match base with
  | .text _ t | .raw _ t => (named? textMethods name).map (.ofText t)
  | .list r => (named? listMethods name).map (.ofList r)
  | .tuple _ items => (named? tupleMethods name).map (.ofTuple items)
  | .dict r => (named? dictMethods name).map (.ofDict r)
  | _ => none

/-- The keywords that a method takes. -/
def keywordsOf (name : Text) : List String :=
  if name == "sort".toList then ["reverse"]
  else if name == "split".toList then ["sep", "maxsplit"]
  else []

/-- A bound on the length of what replacing builds. -/
def replacedLength (t old new : Text) : Nat :=
  t.length + Text.count old t * (new.length - old.length)

/-- A bound on the length of what joining builds; items that are no texts do not count. -/
def joinedLength (sep : Text) (items : List Value) : Nat :=
  items.foldl (fun n v => n + (v.text?.getD []).length) 0 + sep.length * (items.length - 1)

/-- A bound on the size of a method's result, before it is called. -/
def estimate (s : Store) (base : Value) (method : BoundMethod) (args : List Value) : Nat :=
  match method with
  | .ofList _ .append | .ofList _ .insert =>
      let weight := Value.weight s maxLength
      weight base + (args.getLast?.map weight).getD 1
  | .ofText t .replace =>
      match args with
      | old :: new :: _ =>
          match old.text?, new.text? with
          | some old, some new => replacedLength t old new
          | _, _ => 0
      | _ => 0
  | .ofText t .join =>
      match args with
      | .list r :: _ => joinedLength t (s.items r)
      | .tuple _ items :: _ => joinedLength t items
      | _ => 0
  | _ => 0

def textOf (v : Value) : Eval Text :=
  Eval.orBreach .type v.text?

def intOf (v : Value) : Eval Int :=
  Eval.orBreach .type v.int?

/-- An integer that fits a machine word. -/
def wordOf (v : Value) : Eval Int := do
  let n ← intOf v
  if Operator.isWord n then return n else Eval.breach .overflow

/-- How often to cut or replace: always, for a negative count. -/
def limitOf (t : Text) (n : Int) : Nat :=
  if n < 0 then t.length + 1 else min n.toNat (t.length + 1)

/-- What is left of the receiver's text at its ends or in between: all of it is the receiver
itself. -/
def leftOf (base : Value) (t : Text) (left : Text) : Eval Value :=
  if left.length == t.length then Value.exactText base t else ofText left

def strip (base : Value) (t : Text) (trim : (Char → Bool) → Text → Text) (args : List Value) :
    Eval Value := do
  match args with
  | [] | [.none] => leftOf base t (trim isBlank t)
  | [chars] =>
      let chars := (← textOf chars).eraseDups
      leftOf base t (trim chars.contains t)
  | _ => Eval.breach .type

def replace (base : Value) (t : Text) (args : List Value) : Eval Value := do
  match args with
  | old :: new :: rest =>
      let oldText ← textOf old
      let newText ← textOf new
      let count ←
        match rest with
        | [] => pure (-1)
        | [count] => wordOf count
        | _ => Eval.breach .type
      let limit := limitOf t count
      let unchanged := limit == 0 || (Text.find? oldText t).isNone || Value.same old new
        || oldText.isEmpty && newText.isEmpty
      if unchanged then Value.exactText base t
      else ofNewText (Text.replace oldText newText limit t)
  | _ => Eval.breach .type

/-- The arguments of `split`, by position or by keyword but not both ways. -/
def splitArguments (args : List Value) (keywords : Bindings) :
    Eval (Option Value × Option Value) := do
  let keyword (name : String) : Option Value :=
    (keywords.find? fun k => k.1 == name.toList).map (·.2)
  match args, keyword "sep", keyword "maxsplit" with
  | [], sep, limit => return (sep, limit)
  | [sep], none, limit => return (some sep, limit)
  | [sep, limit], none, none => return (some sep, some limit)
  | _, _, _ => Eval.breach .type

/-- The pieces of a text; one that is all of it is the receiver itself, but for source text. -/
def piecesOf (base : Value) (pieces : List Text) : Eval (List Value) := do
  match base, pieces with
  | .text .., [_] => return [base]
  | _, pieces => pieces.mapM ofText

/-- Bytes that each character of a text takes. -/
def widthOf (t : Text) : Nat :=
  if t.all (·.toNat < Nat.pow 2 8) then 1 else if t.all (·.toNat < Nat.pow 2 16) then 2 else 4

/-- Pieces between blanks. All of the text is the receiver itself only as a word; what follows the
last cut is a copy. -/
def splitAtBlanks (base : Value) (t : Text) (limit : Nat) : Eval (List Value) := do
  let words := Text.words limit t
  if limit > 0 && words == [t] then piecesOf base words else words.mapM ofText

/-- Pieces between separators. A receiver with no room for the separator is its only piece. -/
def splitAt (base : Value) (t sep : Text) (limit : Nat) : Eval (List Value) :=
  if widthOf t < widthOf sep || t.length < sep.length then pure [base]
  else if sep.isEmpty then Eval.breach .value
  else piecesOf base (Text.cut sep limit t)

def split (base : Value) (t : Text) (args : List Value) (keywords : Bindings) : Eval Value := do
  let (sep, limit) ← splitArguments args keywords
  let limit ←
    match limit with
    | none => pure (-1)
    | some v => wordOf v
  let limit := limitOf t limit
  match sep with
  | none | some .none => ofList (← splitAtBlanks base t limit)
  | some sep => ofList (← splitAt base t (← textOf sep) limit)

/-- Texts behind each other, a separator in between. A single exact text is the result itself; no
text is built that memory cannot hold. -/
def join (sep : Text) (args : List Value) : Eval Value := do
  match args with
  | [source] =>
      let items ← iterate source
      match items with
      | [.text tag t] => return .text tag t
      | _ =>
          let pieces ← items.mapM textOf
          if widthOf (sep ++ pieces.flatten) * joinedLength sep items > maxBytes then
            Eval.breach .memory
          ofNewText (Text.join sep pieces)
  | _ => Eval.breach .type

/-- The stretch of a text between two optional positions. -/
structure Window where
  start : Nat
  stop : Nat

/-- The stretch that optional arguments name. A start beyond the end is kept, as nothing is found
there. -/
def windowOf (length : Nat) (args : List Value) : Eval Window := do
  let ends ← args.mapM fun v => Eval.lift (Subscript.endOf (some v))
  let startAt (i : Int) : Nat := (if i < 0 then max 0 (i + length) else i).toNat
  match ends with
  | [] => return ⟨0, length⟩
  | [start] => return ⟨(start.map startAt).getD 0, length⟩
  | [start, stop] =>
      return ⟨(start.map startAt).getD 0, (stop.map (clampTo 0 length length)).getD length⟩
  | _ => Eval.breach .type

/-- The window holds at least so many characters. -/
def Window.fits (w : Window) (length : Nat) : Bool :=
  w.start + length ≤ w.stop

def Window.of (w : Window) (t : Text) : Text :=
  (t.drop w.start).take (w.stop - w.start)

/-- One of the texts is at the start or the end of the window; the others are not looked at then. -/
def matchesAny (test : Text → Text → Bool) (w : Window) (t : Text) :
    List Value → Eval Bool
  | [] => return false
  | v :: rest => do
      let needle ← textOf v
      if w.fits needle.length && test needle (w.of t) then return true
      else matchesAny test w t rest

def matchesEnd (test : Text → Text → Bool) (t : Text) (args : List Value) : Eval Value := do
  match args with
  | needle :: ends =>
      let w ← windowOf t.length ends
      match needle with
      | .tuple _ needles => return .bool (← matchesAny test w t needles)
      | v => return .bool (← matchesAny test w t [v])
  | [] => Eval.breach .type

/-- Search a window for a text; `absent` is the answer when the text does not fit. -/
def search (found : Window → Text → Int) (absent : Int) (t : Text) (args : List Value) :
    Eval Value := do
  match args with
  | needle :: ends =>
      let w ← windowOf t.length ends
      let needle ← textOf needle
      ofInt (if w.fits needle.length then found w needle else absent)
  | [] => Eval.breach .type

def noArguments (args : List Value) : Eval Unit :=
  if args.isEmpty then pure () else Eval.breach .type

/-- A text made from the receiver alone. -/
def changed (args : List Value) (t : Text) : Eval Value := do
  noArguments args
  ofNewText t

def allOf (args : List Value) (p : Char → Bool) (t : Text) : Eval Value := do
  noArguments args
  return .bool (!t.isEmpty && t.all p)

def callText (base : Value) (t : Text) (m : TextMethod) (args : List Value)
    (keywords : Bindings) : Eval Value :=
  match m with
  | .upper => changed args (Text.upper t)
  | .lower => changed args (Text.lower t)
  | .title => changed args (Text.title t)
  | .capitalize => changed args (Text.capitalize t)
  | .strip => strip base t Text.trimBy args
  | .lstrip => strip base t Text.dropStart args
  | .rstrip => strip base t Text.dropEnd args
  | .replace => replace base t args
  | .split => split base t args keywords
  | .join => join t args
  | .startswith => matchesEnd (fun needle w => needle.isPrefixOf w) t args
  | .endswith => matchesEnd (fun needle w => needle.isSuffixOf w) t args
  | .count => search (fun w needle => Text.count needle (w.of t)) 0 t args
  | .find =>
      search
        (fun w needle =>
          match Text.find? needle (w.of t) with
          | some i => w.start + i
          | none => -1)
        (-1) t args
  | .isdigit => allOf args isDigit t
  | .isalpha => allOf args isLetter t

/-- The positions that optional integers bound. -/
def indexWindow (length : Nat) (args : List Value) : Eval Window := do
  let ends ← args.mapM intOf
  match ends with
  | [] => return ⟨0, length⟩
  | [start] => return ⟨clampTo 0 length length start, length⟩
  | [start, stop] => return ⟨clampTo 0 length length start, clampTo 0 length length stop⟩
  | _ => Eval.breach .type

def indexOf (items args : List Value) : Eval Value := do
  match args with
  | x :: ends =>
      let w ← indexWindow items.length ends
      let within := (items.drop w.start).take (w.stop - w.start)
      match ← Eval.lift (Value.indexIn? (← get) x within) with
      | some i => ofNat (w.start + i)
      | none => Eval.breach .value
  | [] => Eval.breach .type

def countOf (items args : List Value) : Eval Value := do
  match args with
  | [x] => ofNat (← Eval.lift (Value.countIn (← get) x items))
  | _ => Eval.breach .type

/-- Items in ascending order, or in descending order with equal ones as they were. -/
def sortItems (items : List Value) (reversed : Bool) : Eval (List Value) := do
  Eval.lift (Sorting.sort (Value.order (← get) .lt) reversed items)

def pop (ref : Ref) (args : List Value) : Eval Value := do
  let i ←
    match args with
    | [] => pure (-1)
    | [v] => wordOf v
    | _ => Eval.breach .type
  let items ← Eval.itemsOf ref
  let i := if i < 0 then i + items.length else i
  if i < 0 then Eval.breach .index
  match items[i.toNat]? with
  | none => Eval.breach .index
  | some x =>
      Eval.setItems ref (items.eraseIdx i.toNat)
      return x

def insert (ref : Ref) (args : List Value) : Eval Value := do
  match args with
  | [i, x] =>
      let i ← wordOf i
      let items ← Eval.itemsOf ref
      Eval.setItems ref (items.insertIdx (clampTo 0 items.length items.length i) x)
      return .none
  | _ => Eval.breach .type

def remove (ref : Ref) (args : List Value) : Eval Value := do
  match args with
  | [x] =>
      let items ← Eval.itemsOf ref
      match ← Eval.lift (Value.indexIn? (← get) x items) with
      | some i =>
          Eval.setItems ref (items.eraseIdx i)
          return .none
      | none => Eval.breach .value
  | _ => Eval.breach .type

/-- The flag of `sort`, an integer that is not too large. -/
def reverseFlag (keywords : Bindings) : Eval Bool := do
  match keywords with
  | (_, v) :: _ =>
      let n ← intOf v
      if n ≥ Nat.pow 2 31 || n < -(Nat.pow 2 31) then Eval.breach .overflow else return n != 0
  | [] => return false

/-- Sort a list, which is empty while its items are compared. -/
def sortInPlace (ref : Ref) (items : List Value) (reversed : Bool) : Eval Unit := do
  Eval.setItems ref []
  try Eval.setItems ref (← sortItems items reversed)
  catch fault => do
    Eval.setItems ref items
    throw fault

def callList (ref : Ref) (m : ListMethod) (args : List Value) (keywords : Bindings) :
    Eval Value := do
  let items ← Eval.itemsOf ref
  match m with
  | .append =>
      match args with
      | [x] =>
          Eval.setItems ref (items ++ [x])
          return .none
      | _ => Eval.breach .type
  | .pop => pop ref args
  | .insert => insert ref args
  | .remove => remove ref args
  | .count => countOf items args
  | .index => indexOf items args
  | .sort =>
      noArguments args
      sortInPlace ref items (← reverseFlag keywords)
      return .none
  | .reverse =>
      noArguments args
      Eval.setItems ref items.reverse
      return .none
  | .copy =>
      noArguments args
      ofList items

def callTuple (items : List Value) (m : TupleMethod) (args : List Value) : Eval Value :=
  match m with
  | .count => countOf items args
  | .index => indexOf items args

/-- A key and a value to fall back on. -/
def keyArguments (args : List Value) : Eval (Value × Option Value) :=
  match args with
  | [key] => pure (key, none)
  | [key, fallback] => pure (key, some fallback)
  | _ => Eval.breach .type

def dictGet (ref : Ref) (args : List Value) : Eval Value := do
  let (key, fallback) ← keyArguments args
  if !key.isHashable then Eval.breach .type
  return ((← Eval.entriesOf ref).find? key).getD (fallback.getD .none)

/-- Take an entry out; an empty dict does not look at the key. -/
def dictPop (ref : Ref) (args : List Value) : Eval Value := do
  let (key, fallback) ← keyArguments args
  let entries ← Eval.entriesOf ref
  if !entries.isEmpty && !key.isHashable then Eval.breach .type
  match if entries.isEmpty then none else entries.find? key with
  | some v =>
      Eval.setEntries ref (entries.erase key)
      return v
  | none =>
      match fallback with
      | some v => return v
      | none => throw (.missingKey key)

def view (ref : Ref) (kind : ViewKind) (args : List Value) : Eval Value := do
  noArguments args
  Value.ofView kind ref

def callDict (ref : Ref) (m : DictMethod) (args : List Value) : Eval Value :=
  match m with
  | .get => dictGet ref args
  | .pop => dictPop ref args
  | .keys => view ref .keys args
  | .values => view ref .values args
  | .items => view ref .items args

def run (base : Value) (method : BoundMethod) (args : List Value) (keywords : Bindings) :
    Eval Value :=
  match method with
  | .ofText t m => callText base t m args keywords
  | .ofList r m => callList r m args keywords
  | .ofTuple items m => callTuple items m args
  | .ofDict r m => callDict r m args

/-- The first keyword that is not among those allowed. -/
def strayKeyword? (allowed : List String) (keywords : Bindings) : Option Text :=
  (keywords.find? fun k => !allowed.any (·.toList == k.1)).map (·.1)

/-- Call the method of a value with a name. -/
def call (base : Value) (name : Text) (args : List Value) (keywords : Bindings) :
    Eval Value := do
  match bind? base name with
  | none => Eval.fail (.noMember base.typeName name)
  | some method =>
      match strayKeyword? (keywordsOf name) keywords with
      | some keyword => Eval.fail (.unexpectedKeyword name keyword)
      | none =>
          args.forM Value.checkWeight
          if estimate (← get) base method args > maxLength then Eval.fail .resultTooLarge
          Value.checked (← run base method args keywords)

end Method

end Snippet
