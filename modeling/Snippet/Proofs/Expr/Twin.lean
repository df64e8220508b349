import Snippet.Proofs.Expr.Pairing
import Snippet.Proofs.Expr.RoundTrip
import Snippet.Proofs.Token.Enclosed

/-!
A list of tokens next to itself. Two readers that agree on it agree on whole texts. And as they
leave no bracket open, a text that they read closes as many as it opens.
-/

set_option autoImplicit false

namespace Snippet.Grammar

open Reader Token

variable {α β : Type} {f : α → β} {r r' : Reader α} {t : Text} {tokens : List Token}

def depthOver (depth : Int) (tokens : List Token) : Int :=
  tokens.foldl (fun depth token => depthAfter depth token.kind) depth

/-- A list next to itself. All its brackets together leave a number of them open. -/
def twin (total : Int) : Pairing where
  Pair d ts us := us = ts ∧ Ended ts ∧ depthOver d ts = total
  extra := 0
  longer := by
    rintro d ts us ⟨rfl, -, -⟩
    rfl
  ended := by
    rintro d ts us ⟨-, ended, -⟩ rfl
    cases ended
  head := by
    rintro d t ts u us ⟨same, -, -⟩
    cases same
    exact .inl rfl
  inside := by
    rintro d ts us t ts' u us' - ⟨same, -, -⟩
    cases same
    rfl
  tail := by
    rintro d t ts u us ⟨same, ended, all⟩ - inner
    cases same
    cases ended with
    | last end_ => contradiction
    | cons _ rest => exact ⟨rfl, rest, all⟩

theorem nextKind_cons (token : Token) (rest : List Token) : nextKind (token :: rest) = token.kind :=
  rfl

theorem expectEnd_cons (token : Token) (rest : List Token) :
    expectEnd (.ofList (token :: rest)) =
      if token.kind == .finish then .ok ((), .ofList (token :: rest))
      else .error (.unexpected token.value token.column) := by
  show (if token.kind == .finish then pure () else fail _ : Reader Unit) _ = _
  split <;> rfl

theorem readWhole_eq_ok {a : α} (scanned : scan t = .ok tokens) :
    readWhole r t = .ok a ↔
      ∃ ts, r (.ofList tokens) = .ok (a, .ofList ts) ∧ ts ≠ [] ∧ nextKind ts = .finish := by
  rw [readWhole_of_scan scanned, bind_run]
  cases ran : r (.ofList tokens) with
  | error e => simp [Except.map]
  | ok found =>
      obtain ⟨b, list, size, rfl⟩ := found
      show Except.map Prod.fst ((expectEnd >>= fun _ => pure b) (.ofList list)) = .ok a ↔ _
      cases list with
      | nil =>
          refine ⟨nofun, ?_⟩
          rintro ⟨ts, same, more, -⟩
          cases same
          contradiction
      | cons token list =>
          rw [bind_run, expectEnd_cons]
          by_cases ended : token.kind = .finish
          · rw [if_pos (beq_iff_eq.mpr ended)]
            constructor
            · rintro ⟨⟩
              exact ⟨token :: list, rfl, List.cons_ne_nil _ _, ended⟩
            · rintro ⟨ts, same, -⟩
              cases same
              rfl
          · rw [if_neg (by simpa using ended)]
            refine ⟨nofun, ?_⟩
            rintro ⟨ts, same, -, ended'⟩
            cases same
            exact absurd ended' ended

theorem agree_expectEnd {total d : Int} {n : Nat} :
    (twin total).Agree n d d (fun _ _ => True) expectEnd expectEnd := by
  rintro ts us ⟨rfl, pair⟩ -
  obtain ⟨t, ts, rfl⟩ := List.exists_cons_of_ne_nil ((twin total).ended ⟨rfl, pair⟩)
  rw [expectEnd_cons]
  split
  · exact .read (.intro trivial ⟨rfl, pair⟩ (Nat.le_refl _))
  · exact .failed

theorem parallel_readWhole (agree : ∀ total n, (twin total).Agree n 0 0 (Same f) r r') (t : Text) :
    Parallel (Same f) (readWhole r t) (readWhole r' t) := by
  cases scanned : scan t with
  | error e =>
      rw [readWhole, readWhole, scanned]
      exact .failed
  | ok tokens =>
      have whole := (agree (depthOver 0 tokens) tokens.length).bind fun a a' same =>
        agree_expectEnd.bind fun _ _ _ => .pure same
      rw [readWhole_of_scan scanned, readWhole_of_scan scanned]
      refine (whole tokens tokens ⟨rfl, ended_of_scanFrom scanned, rfl⟩ (Nat.le_refl _)).map ?_
      rintro _ _ ⟨same, -, -⟩
      exact same

/-- Reading a whole text leaves no bracket open. -/
theorem depthOver_of_readWhole {a : α} (agree : ∀ total n, (twin total).Agree n 0 0 (Same f) r r)
    (scanned : scan t = .ok tokens) (read : readWhole r t = .ok a) : depthOver 0 tokens = 0 := by
  have here := agree (depthOver 0 tokens) tokens.length tokens tokens
    ⟨rfl, ended_of_scanFrom scanned, rfl⟩ (Nat.le_refl _)
  obtain ⟨ts, ran, -, next⟩ := (readWhole_eq_ok scanned).mp read
  rw [ran] at here
  obtain ⟨ended, all⟩ : Ended ts ∧ depthOver 0 ts = depthOver 0 tokens := by
    cases here with
    | read behind =>
        cases behind with
        | intro _ pair _ => exact pair.2
  rw [← all]
  cases ended with
  | last end_ =>
      show depthAfter 0 _ = 0
      rw [end_]
      rfl
  | cons inner _ => contradiction

end Snippet.Grammar
