import Snippet.Text.Ranges

/-!
Digests: numbers that equal texts share and few others do. A long text is sought with them, so that
it is compared only where it may start. Main statement: where it does start, no hint rules it out.
-/

set_option autoImplicit false

namespace Snippet.Text

def digestBase : Nat := 1000003

def digestModulus : Nat := 2147483647

/-- A text as a number, its first character in the lowest place. -/
def number (t : Text) : Nat :=
  t.foldr (fun c n => c.toNat + digestBase * n) 0

/-- The digest of a text with a character put before it. -/
def extendDigest (c : Char) (digest : Nat) : Nat :=
  (c.toNat + digestBase * digest) % digestModulus

def digest (t : Text) : Nat :=
  t.foldr extendDigest 0

/-- The factor of what follows a text. -/
def digestWeight (t : Text) : Nat :=
  t.foldl (fun weight _ => weight * digestBase % digestModulus) 1

/-- The digests of a text and of what is left as its characters go, one after the other. -/
def digests (t : Text) : List Nat :=
  t.foldr (fun c ds => extendDigest c (ds.headD 0) :: ds) [0]

/-- Up to this length a text is sought without hints. -/
def shortLength : Nat := 16

/-- For each position in a text whether a long one may start there. -/
def startHints (needle t : Text) : List Bool :=
  if needle.length ≤ shortLength then []
  else
    let own := digest needle
    let weight := digestWeight needle
    let all := digests t
    let fits (here after : Nat) : Bool := here == (own + weight * after) % digestModulus
    List.zipWith fits all (all.drop needle.length) ++ List.replicate needle.length false

theorem number_append (t after : Text) :
    number (t ++ after) = number t + Nat.pow digestBase t.length * number after := by
  induction t with
  | nil => simp [number]
  | cons c rest ih =>
      simp only [number, List.cons_append, List.foldr_cons, List.length_cons, Nat.pow_eq] at ih ⊢
      rw [ih, Nat.mul_add, Nat.add_assoc, Nat.pow_succ', Nat.mul_assoc]

theorem digest_eq (t : Text) : digest t = number t % digestModulus := by
  induction t with
  | nil => rfl
  | cons c rest ih =>
      simp only [digest, number, List.foldr_cons, extendDigest] at ih ⊢
      rw [ih, Nat.add_mod, Nat.mul_mod_mod, ← Nat.add_mod]

theorem digestWeight_eq (t : Text) : digestWeight t = Nat.pow digestBase t.length % digestModulus := by
  have scaled (weight : Nat) :
      t.foldl (fun weight _ => weight * digestBase % digestModulus) (weight % digestModulus)
        = weight * Nat.pow digestBase t.length % digestModulus := by
    induction t generalizing weight with
    | nil => simp
    | cons c rest ih =>
        rw [List.foldl_cons, Nat.mod_mul_mod, ih, List.length_cons, Nat.pow_eq, Nat.pow_eq, Nat.pow_succ', Nat.mul_assoc]
  have start := scaled 1
  rw [Nat.one_mul, Nat.mod_eq_of_lt (by decide)] at start
  exact start

theorem digest_append (t after : Text) :
    digest (t ++ after) = (digest t + digestWeight t * digest after) % digestModulus := by
  rw [digest_eq, digest_eq, digest_eq, digestWeight_eq, number_append, Nat.mod_add_mod,
    Nat.add_mod, Nat.mul_mod, ← Nat.add_mod]

theorem getElem?_digests (t : Text) {i : Nat} (h : i ≤ t.length) :
    (digests t)[i]? = some (digest (t.drop i)) := by
  induction t generalizing i with
  | nil => simp_all [digests, digest]
  | cons c rest ih =>
      have whole : digests (c :: rest) =
          extendDigest c ((digests rest).headD 0) :: digests rest := rfl
      have first := ih (Nat.zero_le rest.length)
      cases i with
      | zero => simp_all [List.headD_eq_head?_getD, List.head?_eq_getElem?, digest]
      | succ i => simpa [whole] using ih (by simpa using h)

theorem length_digests (t : Text) : (digests t).length = t.length + 1 := by
  induction t with
  | nil => rfl
  | cons c rest ih => simpa [digests] using ih

/-- A text starts only where no hint rules it out. -/
theorem startHints_of_prefix {needle t : Text} {i : Nat} (h : needle <+: t.drop i)
    (within : i ≤ t.length) : (startHints needle t)[i]?.getD true = true := by
  obtain ⟨after, happened⟩ := h
  have long : i + needle.length ≤ t.length := by
    have lengths := congrArg List.length happened
    simp at lengths
    omega
  have rest : t.drop (i + needle.length) = after := by
    rw [← List.drop_drop, ← happened, List.drop_left]
  have here := getElem?_digests t within
  have beyond := getElem?_digests t long
  rw [rest] at beyond
  rw [← happened, digest_append] at here
  unfold startHints
  split
  · simp
  · have inside : i < min (digests t).length ((digests t).drop needle.length).length := by
      simp [length_digests]
      omega
    rw [List.getElem?_append_left (by simpa using inside), List.getElem?_zipWith,
      List.getElem?_drop, here, Nat.add_comm needle.length i, beyond]
    simp

end Snippet.Text
