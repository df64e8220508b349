import Snippet.Text.Blank
import Snippet.Text.Digest

/-!
Finding, counting, cutting and replacing inside a text. Everything goes through `cut`, which cuts
a text at the occurrences of a separator that do not overlap, from the left. Places that a hint
rules out are not compared.
-/

set_option autoImplicit false

namespace Snippet.Text

/-- Position of the first occurrence at or after the start of the text. -/
def findFrom (needle : Text) : Nat → List Bool → Text → Option Nat
  | i, _, [] => if needle.isEmpty then some i else none
  | i, hints, c :: rest =>
      if hints.headD true && needle.isPrefixOf (c :: rest) then some i
      else findFrom needle (i + 1) hints.tail rest

def find? (needle t : Text) : Option Nat :=
  findFrom needle 0 (startHints needle t) t

-- `piece` is the current piece, last character first; `skip` counts the separator's remaining
-- characters; `hints` go with the characters.
def cutFrom (sep : Text) : Nat → Nat → List Bool → Text → Text → List Text
  | _, _, _, piece, [] => [piece.reverse]
  | limit, skip + 1, hints, piece, _ :: rest => cutFrom sep limit skip hints.tail piece rest
  | 0, 0, _, piece, c :: rest => [piece.reverse ++ c :: rest]
  | limit + 1, 0, hints, piece, c :: rest =>
      if hints.headD true && sep.isPrefixOf (c :: rest) then
        piece.reverse :: cutFrom sep limit (sep.length - 1) hints.tail [] rest
      else cutFrom sep (limit + 1) 0 hints.tail (c :: piece) rest

/-- Cut at the first `limit` occurrences of a separator that is not empty. -/
def cut (sep : Text) (limit : Nat) (t : Text) : List Text :=
  cutFrom sep limit 0 (startHints sep t) [] t

theorem cutFrom_ne_nil (sep : Text) (limit skip : Nat) (hints : List Bool) (piece t : Text) :
    cutFrom sep limit skip hints piece t ≠ [] := by
  fun_induction cutFrom sep limit skip hints piece t <;> simp_all

def cutAll (sep t : Text) : List Text :=
  cut sep (t.length + 1) t

def join (sep : Text) : List Text → Text
  | [] => []
  | [piece] => piece
  | piece :: rest => piece ++ sep ++ join sep rest

theorem join_cons (sep piece : Text) {pieces : List Text} (h : pieces ≠ []) :
    join sep (piece :: pieces) = piece ++ sep ++ join sep pieces := by
  cases pieces with
  | nil => contradiction
  | cons => rfl

theorem join_cutFrom (sep : Text) (limit skip : Nat) (hints : List Bool) (piece t : Text)
    (h : sep ≠ []) :
    join sep (cutFrom sep limit skip hints piece t) = piece.reverse ++ t.drop skip := by
  fun_induction cutFrom sep limit skip hints piece t with
  | case1 => simp [join]
  | case2 _ skip hints piece c rest ih => simpa using ih
  | case3 => simp [join]
  | case4 limit hints piece c rest hp ih =>
      obtain ⟨after, happened⟩ := List.isPrefixOf_iff_prefix.mp (Bool.and_eq_true_iff.mp hp).2
      cases sep with
      | nil => contradiction
      | cons d sep =>
          obtain ⟨rfl, rfl⟩ := List.cons.inj happened
          rw [join_cons _ _ (cutFrom_ne_nil _ _ _ _ _ _), ih]
          simp
  | case5 limit hints piece c rest hp ih => simpa using ih

/-- Joining undoes cutting. -/
theorem join_cut (sep t : Text) (limit : Nat) (h : sep ≠ []) : join sep (cut sep limit t) = t := by
  simpa [cut] using join_cutFrom sep limit 0 (startHints sep t) [] t h

/-- Occurrences that do not overlap; the empty text occurs at every position. -/
def count (needle t : Text) : Nat :=
  if needle.isEmpty then t.length + 1 else (cutAll needle t).length - 1

-- Put `new` before each of the first `limit` characters, and at the end if the limit is not
-- reached.
def interleave (new : Text) : Nat → Text → Text
  | 0, t => t
  | _ + 1, [] => new
  | limit + 1, c :: rest => new ++ c :: interleave new limit rest

/-- Replace the first `limit` occurrences. -/
def replace (old new : Text) (limit : Nat) (t : Text) : Text :=
  if old.isEmpty then interleave new limit t else join new (cut old limit t)

def replaceAll (old new t : Text) : Text :=
  replace old new (t.length + 1) t

/-- The runs of characters between blanks; what follows the first `limit` runs is one last piece. -/
def words (limit : Nat) (t : Text) : List Text :=
  match h : t.dropWhile isBlank with
  | [] => []
  | c :: rest =>
      match limit with
      | 0 => [c :: rest]
      | limit + 1 =>
          have : (rest.dropWhile fun d => !isBlank d).length < t.length := by
            have h1 := (List.dropWhile_suffix (l := rest) (fun d => !isBlank d)).length_le
            have h2 := (List.dropWhile_suffix (l := t) isBlank).length_le
            rw [h] at h2
            simp at h2
            omega
          (c :: rest.takeWhile fun d => !isBlank d)
            :: words limit (rest.dropWhile fun d => !isBlank d)
termination_by t.length

def lines (t : Text) : List Text :=
  cutAll ['\n'] t

end Snippet.Text
