import Snippet.Text.Quoted

/-!
JSON texts with one member or item on a line, each level two columns further in.
-/

set_option autoImplicit false

namespace Snippet

inductive Json where
  | null
  | int (n : Int)
  | text (t : Text)
  | list (items : List Json)
  | object (members : List (Text × Json))

namespace Json

def newLine (depth : Nat) : Text :=
  '\n' :: List.replicate (2 * depth) ' '

/-- Pieces between brackets, each on a line of its own. -/
def bracketed (opening closing : Char) (depth : Nat) (pieces : List Text) : Text :=
  if pieces.isEmpty then [opening, closing]
  else
    let inner := Text.join (',' :: newLine (depth + 1)) pieces
    opening :: newLine (depth + 1) ++ inner ++ newLine depth ++ [closing]

mutual

/-- The text of a value that stands `depth` levels deep. -/
def render (depth : Nat) : Json → Text
  | null => "null".toList
  | int n => intText n
  | text t => Text.jsonQuoted t
  | list items => bracketed '[' ']' depth (renderItems (depth + 1) items)
  | object members => bracketed '{' '}' depth (renderMembers (depth + 1) members)

def renderItems (depth : Nat) : List Json → List Text
  | [] => []
  | item :: rest => render depth item :: renderItems depth rest

def renderMembers (depth : Nat) : List (Text × Json) → List Text
  | [] => []
  | (key, value) :: rest =>
      (Text.jsonQuoted key ++ ':' :: ' ' :: render depth value)
        :: renderMembers depth rest

end

end Json

end Snippet
