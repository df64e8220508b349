import Snippet.Text.CaseTable

/-!
Changing the case of a text. A capital sigma at the end of a word has a lower-case form of its
own; the end of a word is found by looking through the case-ignorable characters on both sides.
-/

set_option autoImplicit false

namespace Snippet

def isCased (c : Char) : Bool :=
  casedRanges.has c

def isCaseIgnorable (c : Char) : Bool :=
  caseIgnorableRanges.has c

/-- One character mapped by expansions first, then by runs, else left as it is. -/
def mapCase (expansions : List (Nat × List Nat)) (runs : List CaseRun) (c : Char) : Option Text :=
  match expansions.find? (fun e => e.1 == c.toNat) with
  | some e => some (e.2.map Char.ofNat)
  | none => (CaseRun.move? runs c.toNat).map fun n => [Char.ofNat n]

def upperChar (c : Char) : Text :=
  (mapCase upperExpansions upperRuns c).getD [c]

def lowerChar (c : Char) : Text :=
  (mapCase lowerExpansions lowerRuns c).getD [c]

def titleChar (c : Char) : Text :=
  (mapCase titleExpansions titleRuns c).getD (upperChar c)

/-- The nearest character that is not case-ignorable is cased. -/
def reachesCased (t : Text) : Bool :=
  match t.dropWhile isCaseIgnorable with
  | [] => false
  | c :: _ => isCased c

def isCapitalSigma (c : Char) : Bool :=
  c == 'Σ'

/-- Lower case of a character between what stands before it (nearest first) and after it. -/
def lowerWithin (before : Text) (c : Char) (after : Text) : Text :=
  if isCapitalSigma c then
    if reachesCased before && !reachesCased after then ['ς'] else ['σ']
  else lowerChar c

namespace Text

def upper (t : Text) : Text :=
  t.flatMap upperChar

def lowerAfter : Text → Text → Text
  | _, [] => []
  | before, c :: rest => lowerWithin before c rest ++ lowerAfter (c :: before) rest

def lower (t : Text) : Text :=
  lowerAfter [] t

/-- First character in title case, the others in lower case. -/
def capitalize : Text → Text
  | [] => []
  | c :: rest => titleChar c ++ lowerAfter [c] rest

/-- Every character that follows a cased one in lower case, the others in title case. -/
def titleAfter : Bool → Text → Text → Text
  | _, _, [] => []
  | afterCased, before, c :: rest =>
      (if afterCased then lowerWithin before c rest else titleChar c)
        ++ titleAfter (isCased c) (c :: before) rest

def title (t : Text) : Text :=
  titleAfter false [] t

end Text

end Snippet
