import Snippet.Proofs.Expr.Enclosed

/-!
Arguments by themselves, and in a call. A list of arguments that stands alone ends where the text
does, and one in a call at its closing bracket. Read side by side they agree, where no bracket is
closed before it is opened.
-/

set_option autoImplicit false

namespace Snippet

namespace Grammar

open Reader Token

variable {us tokens others : List Token}

theorem agree_readArguments {budget budget' n : Nat} (less : budget' ≤ budget) :
    shut.Agree n 0 0 (Same (List.map bareArgument)) (arguments (readAt budget) .finish)
      (arguments (readAt budget') .closeParen) :=
  Pairing.agree_arguments (Pairing.agree_readAt less) shut_together

/-! ### The arguments in a call -/

-- The name is read, and its trailer goes on with the arguments.
theorem trailed_name {name opening : Token} (more : us ≠ []) (named : name.kind = .name)
    (opens : opening.kind = .openParen) (budget : Nat) :
    readAt (budget + 2) .trailed (.ofList (name :: opening :: us)) =
      (arguments (readAt (budget + 1)) .closeParen >>= fun args =>
        (discard <| expect .closeParen) >>= fun _ =>
          trailersLoop (readAt (budget + 1)) us.length
            (.call name.column (.name name.column name.value) args)) (.ofList us) := by
  have first : readAt (budget + 1) .atom (.ofList (name :: opening :: us)) =
      .ok (.name name.column name.value, .ofList (opening :: us)) := by
    obtain ⟨kind, value, column, span⟩ := name
    cases named
    rfl
  show (readAt (budget + 1) .atom >>= fun base => remaining >>= fun turns =>
    trailersLoop (readAt (budget + 1)) turns base) _ = _
  rw [bind_run, first]
  obtain ⟨kind, value, column, span⟩ := opening
  cases opens
  obtain ⟨u, us, rfl⟩ := List.exists_cons_of_ne_nil more
  rfl

/-- The list of arguments is at the end of its text where the call takes its closing bracket. -/
theorem parallel_call {name opening : Token} {budget budget' : Nat} (less : budget' + 1 ≤ budget)
    (named : name.kind = .name) (opens : opening.kind = .openParen) (closed : Closed tokens others)
    (nested : Nested 0 tokens) (balanced : depthOver 0 tokens = 0) :
    Parallel
      (AtEnd fun args e => e.bare = .call 0 (.name 0 name.value) (bareArguments args))
      ((arguments (readAt budget) .finish >>= fun args => expectEnd >>= fun _ => pure args)
        (.ofList tokens))
      (readAt (budget' + 2) .trailed (.ofList (name :: opening :: others))) := by
  have pair : shut.Pair 0 tokens others := ⟨closed, nested, balanced⟩
  obtain ⟨t, ts, u, us, rfl, rfl⟩ := Pairing.exists_cons pair
  rw [trailed_name (List.cons_ne_nil u us) named opens]
  refine parallel_shut (agree_readArguments less) pair ?_
  intro args args' last same end_
  have stopped : stops .trailed (nextKind [last]) = true := by
    rw [nextKind_cons, end_]
    rfl
  refine ⟨_, trailersLoop_ends (List.cons_ne_nil _ _) stopped _ _, ?_⟩
  rw [Expr.bare, bareArguments_eq, bareArguments_eq]
  exact congrArg (Expr.call 0 _) same.symm

end Grammar

open Grammar Token Reader

-- The text of a call with given arguments.
def callOf (arguments : Text) : Text :=
  "f(".toList ++ arguments ++ ")".toList

theorem Token.scan_callOf (t : Text) :
    ∃ name opening : Token, name.symbol = .name ['f'] ∧ opening.kind = .openParen ∧
      scan (callOf t) = (scanFrom 3 (t ++ [')'])).map fun tokens => name :: opening :: tokens := by
  have of_name : Reading (.name ['f']) ['f'] ('(' :: (t ++ [')'])) := by
    refine reading_name (by decide) ?_
    rintro _ ⟨⟩
    decide
  obtain ⟨name, named, first⟩ := scanFrom_reading of_name 1
  obtain ⟨opening, opens, second⟩ := scanFrom_reading (reading_opening (t ++ [')'])) 2
  have whole : callOf t = ['f'] ++ ('(' :: (t ++ [')'])) := rfl
  have behind : scanFrom 2 ('(' :: (t ++ [')'])) =
      (scanFrom 3 (t ++ [')'])).map (opening :: ·) := second
  refine ⟨name, opening, named, congrArg Symbol.kind opens, ?_⟩
  rw [scan, whole, first]
  show (scanFrom 2 _).map _ = _
  rw [behind]
  cases scanFrom 3 (t ++ [')']) <;> rfl

namespace Expr

variable {t : Text} {tokens others : List Token} {args : List Argument} {e : Expr}

theorem depthOver_of_readArguments (scanned : scan t = .ok tokens)
    (h : readArguments t = .ok args) : depthOver 0 tokens = 0 := by
  have agree (total : Int) (n : Nat) :
      (twin total).Agree n 0 0 (Same (List.map bareArgument))
        (arguments (readAt readBudget) .finish) (arguments (readAt readBudget) .finish) := by
    refine Pairing.agree_arguments (Pairing.agree_readAt (Nat.le_refl _)) ?_
    rintro t ts u us ⟨same, -, -⟩
    cases same
    rfl
  exact depthOver_of_readWhole agree scanned h

theorem depthOver_of_read (scanned : scan t = .ok tokens) (h : read t = .ok e) :
    depthOver 0 tokens = 0 :=
  depthOver_of_readWhole (fun _ _ => Pairing.agree_exprList (Pairing.agree_readAt (Nat.le_refl _)))
    scanned h

/-- A call with given arguments, up to columns. -/
def IsCallOf (args : List Argument) (e : Expr) : Prop :=
  e.bare = .call 0 (.name 0 ['f']) (bareArguments args)

section Call

variable {name opening : Token} (named : name.symbol = .name ['f'])
  (opens : opening.kind = .openParen) (scanned : scan t = .ok tokens)
  (scanned_call : scan (callOf t) = .ok (name :: opening :: others)) (closed : Closed tokens others)
include named opens scanned scanned_call closed

theorem parallel_balanced (nested : Nested 0 tokens) (balanced : depthOver 0 tokens = 0) :
    Parallel IsCallOf (readArguments t) (read (callOf t)) := by
  obtain ⟨kind, value⟩ := Symbol.mk.inj named
  have inner : 969 + 1 ≤ readBudget := by decide
  have starting : starts .atom (nextKind (name :: opening :: others)) = true := by
    rw [nextKind_cons, kind]
    rfl
  have call := parallel_call inner kind opens closed nested balanced
  rw [value] at call
  exact parallel_whole scanned scanned_call (parallel_exprList starting call)

-- Brackets that are left open are left open in the call too.
theorem parallel_unbalanced (unbalanced : depthOver 0 tokens ≠ 0) :
    Parallel IsCallOf (readArguments t) (read (callOf t)) := by
  have same : depthOver 0 (name :: opening :: others) = depthOver 0 tokens := by
    rw [← depthOver_closed closed]
    show depthOver (depthAfter (depthAfter 0 name.kind) opening.kind) others = _
    rw [(Symbol.mk.inj named).1, opens]
    rfl
  cases alone : readArguments t with
  | ok args => exact absurd (depthOver_of_readArguments scanned alone) unbalanced
  | error e =>
      cases inside : read (callOf t) with
      | ok e' =>
          rw [← same] at unbalanced
          exact absurd (depthOver_of_read scanned_call inside) unbalanced
      | error e' => exact .failed

end Call

theorem parallel_readArguments (nested : ∀ tokens, scan t = .ok tokens → Nested 0 tokens) :
    Parallel IsCallOf (readArguments t) (read (callOf t)) := by
  obtain ⟨name, opening, named, opens, scanned_call⟩ := Token.scan_callOf t
  refine parallel_enclosed scanned_call fun tokens others scanned scanned_call closed => ?_
  by_cases balanced : depthOver 0 tokens = 0
  · exact parallel_balanced named opens scanned scanned_call closed (nested tokens scanned) balanced
  · exact parallel_unbalanced named opens scanned scanned_call closed balanced

/-- Arguments are read by themselves just if they are read in a call, and then they are the
arguments of the call, up to columns. No round bracket may be closed before it is opened, or the
call would end there. -/
theorem readArguments_iff_call
    (nested : ∀ tokens, scan t = .ok tokens → Nested 0 tokens)
    (shallow : read (callOf t) ≠ .error .tooDeep) :
    ((∃ args, readArguments t = .ok args) ↔ ∃ e, read (callOf t) = .ok e) ∧
      ∀ args e, readArguments t = .ok args → read (callOf t) = .ok e →
        e.bare = .call 0 (.name 0 "f".toList) (args.map fun a => (a.1, a.2.bare)) := by
  have both := parallel_readArguments nested
  cases alone : readArguments t with
  | error e =>
      cases inside : read (callOf t) with
      | error e' => exact ⟨⟨nofun, nofun⟩, nofun⟩
      | ok e' =>
          rw [alone, inside] at both
          contradiction
  | ok args =>
      cases inside : read (callOf t) with
      | error e' =>
          rw [alone, inside] at both
          cases both
          exact absurd inside shallow
      | ok e' =>
          rw [alone, inside] at both
          cases both with
          | read same =>
              refine ⟨⟨fun _ => ⟨e', rfl⟩, fun _ => ⟨args, rfl⟩⟩, ?_⟩
              rintro _ _ ⟨⟩ ⟨⟩
              rw [IsCallOf, bareArguments_eq] at same
              exact same

theorem readArguments_iff_call_keyword :
    let t := "g(a), b=[1],".toList
    (∀ tokens, scan t = .ok tokens → Nested 0 tokens) ∧ read (callOf t) ≠ .error .tooDeep ∧
      ∃ args e, readArguments t = .ok args ∧ read (callOf t) = .ok e ∧
        e.bare = .call 0 (.name 0 "f".toList) (args.map fun a => (a.1, a.2.bare)) := by
  intro t
  have checked : (scan t).toOption.all (fun tokens => decide (Nested 0 tokens)) = true := by
    decide +kernel
  have nested : ∀ tokens, scan t = .ok tokens → Nested 0 tokens := by
    intro tokens scanned
    rw [scanned] at checked
    exact of_decide_eq_true checked
  have readable : (read (callOf t)).isOk = true := by decide +kernel
  cases inside : read (callOf t) with
  | error e =>
      rw [inside] at readable
      contradiction
  | ok e =>
      have shallow : read (callOf t) ≠ .error .tooDeep := by
        rw [inside]
        nofun
      obtain ⟨both, same⟩ := readArguments_iff_call nested shallow
      obtain ⟨args, alone⟩ := both.mpr ⟨e, inside⟩
      exact ⟨nested, nofun, args, e, alone, rfl, same args e alone inside⟩

end Expr

end Snippet
