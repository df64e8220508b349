import Snippet.Line.Pattern

/-!
What a line is. The comment is dropped, quoted texts are masked, the brackets are checked, and
then the first pattern that fits decides.
-/

set_option autoImplicit false

namespace Snippet.Line

/-- The depth of a pair of brackets after a text; none if one closes that was not opened. -/
def depthAfter? (opening closing : Char) : Nat → Text → Option Nat
  | depth, [] => some depth
  | depth, c :: rest =>
      if c == opening then depthAfter? opening closing (depth + 1) rest
      else if c == closing then
        match depth with
        | 0 => none
        | depth + 1 => depthAfter? opening closing depth rest
      else depthAfter? opening closing depth rest

def isBalanced (opening closing : Char) (t : Text) : Bool :=
  depthAfter? opening closing 0 t == some 0

def hasTripleEquals : Text → Bool
  | '=' :: '=' :: '=' :: _ => true
  | _ :: rest => hasTripleEquals rest
  | [] => false

/-- The first mistake of a masked line. -/
def mistake? (masked : Masked) : Option Malformed :=
  let t := masked.text
  if !isBalanced '(' ')' t then some .unmatchedParen
  else if !masked.closed || !isBalanced '[' ']' t || !isBalanced '{' '}' t then
    some .invalidSyntax
  else if hasTripleEquals t then some .invalidSyntax
  else if (leadingWord? blockKeywords t).isSome && t.getLast? != some ':' then some .missingColon
  else none

def assignmentForm? (text masked : Text) : Option LineForm :=
  let fromAugmented := (augmented? masked).bind fun (target, op, side) =>
    if isReserved target then none
    else some (.assignment [target] (side.of text) (some op))
  let fromPlain := (assignment? masked).bind fun (targets, side) =>
    if targets.any isReserved then none else some (.assignment targets (side.of text) none)
  let fromItem := (itemAssignment? masked).map fun (target, side) =>
    .itemAssignment (target.of text) (side.of text)
  fromAugmented <|> fromPlain <|> fromItem

/-- The form of a line without comment and outer blanks, from its masked text. -/
def formOf (text masked : Text) : LineForm :=
  let flow := (leadingWord? flowKeywords masked).map LineForm.flow
  let print := (print? masked).map fun c => .print (Text.trim (c.of text))
  let raise := (raise? masked).map fun (kind, c) => .raise kind (c.of text)
  let header := (leadingWord? blockKeywords masked).map LineForm.header
  (flow <|> print <|> raise <|> assignmentForm? text masked <|> header).getD (.expression text)

/-- The line that a source text with a number is. -/
def classify (raw : Text) (number : Int) : Except Malformed Line :=
  let text := Text.trim (withoutComment (Text.trim raw))
  if text.isEmpty then .ok ⟨number, Text.trim raw, .blank⟩
  else
    let masked := mask text
    match mistake? masked with
    | some mistake => .error mistake
    | none => .ok ⟨number, text, formOf text masked.text⟩

end Snippet.Line
