import Snippet.Proofs.Eval.Accepted
import Snippet.Proofs.Eval.Columns
import Snippet.Proofs.Expr.RoundTrip
import Snippet.Proofs.Extension.Registration
import Snippet.Proofs.Text.Word

/-!
Functions of extensions under their names. A function is registered under any name, but snippets
reach it only through a single token: keywords are names too, and so are words with marks that are
no letters, which no token holds.
-/

set_option autoImplicit false

namespace Snippet

open Token (scan scanFrom isNameRest isLayout isQuote finishAt)

variable {s : Services} {p : Provided} {id front rest : Text} {c : Char}

namespace Token

-- Beyond the digits, what only continues a name is no sign of any token.
theorem lt_of_isNameTail (tail : isNameTail c = true) (odd : isNameRest c = false) :
    0xB0 < c.toNat := by
  rw [isNameRest, Bool.or_eq_false_iff] at odd
  rw [isNameTail, odd.1, Bool.false_or] at tail
  obtain ⟨r, member, from_start, to_end⟩ := Ranges.exists_of_hasCode tail
  have high : nameTailExtras.all fun r => r == (0x30, 0x39) || Nat.blt 0xB0 r.1 := by
    decide +kernel
  have kind := List.all_eq_true.mp high r member
  simp only [Bool.or_eq_true, beq_iff_eq, Nat.blt_eq] at kind
  obtain rfl | beyond := kind
  · have digit : decimalRanges.has c = true :=
      Ranges.hasCode_of_mem tables_rising.2.2.1 (r := (0x30, 0x39)) (by decide) from_start to_end
    rw [isDigit, digit] at odd
    cases odd.2
  · exact beyond.trans_le from_start

theorem beq_sign_of_isNameTail (tail : isNameTail c = true) (odd : isNameRest c = false) {sign : Char}
    (low : sign.toNat ≤ 0xB0) : (c == sign) = false := by
  apply beq_false_of_ne
  rintro rfl
  exact Nat.lt_irrefl _ ((lt_of_isNameTail tail odd).trans_le low)

theorem not_isQuote_of_isNameTail (tail : isNameTail c = true) (odd : isNameRest c = false) :
    isQuote c = false := by
  simp [isQuote, beq_sign_of_isNameTail tail odd]

-- No token starts with such a character.
theorem scanFrom_odd (tail : isNameTail c = true) (odd : isNameRest c = false) (column : Nat)
    (rest : Text) : scanFrom column (c :: rest) = .error (.invalidCharacter c column) := by
  have other {sign : Char} (low : sign.toNat ≤ 0xB0) : (c == sign) = false :=
    beq_sign_of_isNameTail tail odd low
  have shown : isLayout c = false := by simp [isLayout, other]
  have unquoted := not_isQuote_of_isNameTail tail odd
  rw [isNameRest, Bool.or_eq_false_iff] at odd
  have no_number : startsNumber c rest = false := by simp [startsNumber, odd.2, other]
  have no_operator : operators.find? (fun o => o.1.toList.isPrefixOf (c :: rest)) = none := by
    have low : operators.all fun o => o.1.toList.head?.any fun d => Nat.ble d.toNat 0xB0 := by decide
    refine List.find?_eq_none.mpr fun o member starts => ?_
    have first := List.all_eq_true.mp low o member
    cases signs : o.1.toList with
    | nil => simp [signs] at first
    | cons d more =>
        rw [signs] at first starts
        have same : (c == d) = false := other (Nat.le_of_ble_eq_true (by simpa using first))
        simp only [List.isPrefixOf, Bool.and_eq_true, beq_iff_eq] at starts
        rw [starts.1, beq_self_eq_true] at same
        cases same
  refine scanFrom_error shown ?_
  rw [Token.read, unquoted, no_number, odd.1, readOperator, no_operator]
  rfl

-- A name is a token, or there is a first character that no token holds.
theorem scan_of_isName (name : isName id = true) :
    (id.all isNameRest = true ∧ ∃ token last, scan id = .ok [token, finishAt last] ∧
      token.symbol = ⟨wordKind id, id⟩) ∨
      ∃ front c rest, id = front ++ c :: rest ∧ isNameRest c = false ∧
        scan id = .error (.invalidCharacter c (front.length + 1)) := by
  cases id with
  | nil => cases name
  | cons c rest =>
      rw [isName, Bool.and_eq_true] at name
      obtain ⟨starts, tails⟩ := name
      have letter := not_isDigit_of_isNameStart starts
      have first : isNameRest c = true := by rw [isNameRest, starts, Bool.true_or]
      have split := List.takeWhile_append_dropWhile (p := isNameRest) (l := rest)
      have front_all : (rest.takeWhile isNameRest).all isNameRest = true := List.all_takeWhile
      cases behind : rest.dropWhile isNameRest with
      | nil =>
          rw [behind, List.append_nil] at split
          rw [split] at front_all
          left
          refine ⟨by rw [List.all_cons, first, front_all]; rfl, ?_⟩
          have word : Reading ⟨wordKind (c :: rest), c :: rest⟩ (c :: rest) [] :=
            reading_word starts letter front_all nofun
          obtain ⟨token, same, scanned⟩ := scanFrom_reading word 1
          rw [List.append_nil, scanFrom_nil] at scanned
          exact ⟨token, _, scanned, same⟩
      | cons d more =>
          have odd : isNameRest d = false := by
            have := List.head?_dropWhile_not isNameRest rest
            rw [behind] at this
            simpa using this
          have tail : isNameTail d = true := by
            refine List.all_eq_true.mp tails d ?_
            rw [← split, behind]
            simp
          have ends : ∀ e ∈ (d :: more).head?, isNameRest e = false ∧ isQuote e = false := by
            rintro _ ⟨⟩
            exact ⟨odd, not_isQuote_of_isNameTail tail odd⟩
          obtain ⟨token, -, scanned⟩ :=
            scanFrom_reading (reading_word starts letter front_all ends) 1
          rw [scanFrom_odd tail odd] at scanned
          refine .inr ⟨c :: rest.takeWhile isNameRest, d, more, ?_, odd, ?_⟩
          · rw [List.cons_append, ← behind, split]
          · rw [List.cons_append, ← behind, split] at scanned
            rw [scan, scanned, Nat.add_comm]
            rfl

end Token

theorem isIdentifier_of_isName (name : isName id = true) (word : wordKind id = .name)
    (all : id.all isNameRest = true) : isIdentifier id = true := by
  cases id with
  | nil => cases name
  | cons c rest =>
      rw [isName, Bool.and_eq_true] at name
      rw [List.all_cons, Bool.and_eq_true] at all
      simp [isIdentifier, not_isDigit_of_isNameStart name.1, name.1, all.2, word]

theorem exists_keyword (reserved : wordKind id ≠ .name) :
    ∃ word ∈ keywords, word.1.toList = id ∧ wordKind id = word.2 := by
  rw [wordKind] at reserved ⊢
  split at reserved
  · rename_i word found
    exact ⟨word, List.mem_of_find?_eq_some found, by simpa using List.find?_some found, rfl⟩
  · contradiction

namespace Expr

-- A keyword on its own is a constant or no expression.
theorem read_keyword {word : String × TokenKind} (listed : word ∈ keywords) {token : Token} {last : Nat}
    (scanned : scan word.1.toList = .ok [token, finishAt last])
    (same : token.symbol = ⟨word.2, word.1.toList⟩) :
    (∃ c v, read word.1.toList = .ok (.literal c v)) ∨ ∃ e, read word.1.toList = .error e := by
  rw [read, Grammar.readWhole_of_scan scanned]
  obtain ⟨kind, value, column, span⟩ := token
  obtain ⟨rfl, rfl⟩ := Symbol.mk.inj same
  simp only [keywords, List.mem_cons, List.not_mem_nil, or_false] at listed
  obtain rfl | rfl | rfl | rfl | rfl | rfl | rfl | rfl | rfl | rfl := listed
  all_goals first | exact .inl ⟨_, _, rfl⟩ | exact .inr ⟨_, rfl⟩

end Expr

namespace Evaluate

variable {env : Env} {b : Builtin}

theorem name_of_find? (unbound : env.scope = .empty)
    (found : Builtin.find? env.builtins id = some b) (named : b.name = id) :
    name env id = pure (.builtin id) := by
  have free : Scope.empty.find? id = none := rfl
  simp only [name, unbound, free, found, named]

theorem literal_ne_builtin {s s' : Store} (v : Literal) : literal v s ≠ .ok (.builtin id) s' := by
  intro ran
  cases v with
  | none | bool b | float x => cases ran
  | int n =>
      rw [literal, Value.ofNat, Value.ofInt] at ran
      split at ran <;> cases ran
  | text t =>
      rw [literal, Value.ofText] at ran
      split at ran <;> cases ran
  | joined t =>
      rw [literal, Value.ofNewText] at ran
      split at ran <;> cases ran

theorem call_of_find? (unbound : env.scope = .empty)
    (found : Builtin.find? env.builtins id = some b) (named : b.name = id) (budget column place : Nat)
    (args : List Argument) :
    evalAt env (budget + 2) (.call column (.name place id) args) = (do
      let (args, keywords) ← arguments (evalAt env (budget + 1)) args
      Value.checked (← b.invoke args keywords)) := by
  show callFunction env (evalAt env (budget + 1)) (.name place id) args = _
  have callee : evalAt env (budget + 1) (.name place id) = pure (.builtin id) :=
    name_of_find? unbound found named
  rw [callFunction, callee, pure_bind]
  simp only [found]

end Evaluate

/-- A function that is provided is the value of its name exactly if the name is no keyword and all
its characters start names or are digits. A call under its name then reaches it. -/
theorem provided_usable_iff (calls : List (Text × Request)) :
    let s := calls.foldl Services.after .empty
    let env : Env := { scope := .empty, builtins := s.builtins }
    s.table = .ok env.builtins ∧ ∀ p ∈ s.provided,
      (∀ store, (∃ store', Session.evaluate env p.builtin.name store =
          .ok (.builtin p.builtin.name) store') ↔
        wordKind p.builtin.name = .name ∧ p.builtin.name.all isNameRest = true) ∧
      ∀ budget column place args,
        Evaluate.evalAt env (budget + 2) (.call column (.name place p.builtin.name) args) = (do
          let (args, keywords) ← Evaluate.arguments (Evaluate.evalAt env (budget + 1)) args
          Value.checked (← p.builtin.invoke args keywords)) := by
  intro s env
  have consistent : s.Consistent := Services.consistent_empty.afterAll calls
  refine ⟨consistent.table_eq, fun p member => ?_⟩
  have found : Builtin.find? env.builtins p.builtin.name = some p.builtin :=
    Services.find?_of_mem consistent.distinct_builtins
      (List.mem_append_right _ (List.mem_map_of_mem member))
  refine ⟨fun store => ⟨?_, ?_⟩, Evaluate.call_of_find? rfl found rfl⟩
  · rintro ⟨store', ran⟩
    obtain ⟨e, after, read, evaluated⟩ := run_bind_eq_ok.mp (Session.guarded_eq_ok.mp ran)
    obtain ⟨all, token, last, scanned, same⟩ | ⟨front, c, rest, -, -, refused⟩ :=
      Token.scan_of_isName (consistent.named p member)
    · refine ⟨?_, all⟩
      -- A keyword is read as a literal or not at all, and no literal is a function.
      by_contra reserved
      obtain ⟨word, listed, named, kind⟩ := exists_keyword reserved
      rw [kind, ← named] at same
      rw [← named] at scanned read
      obtain ⟨c, v, literal⟩ | ⟨fault, refused⟩ := Expr.read_keyword listed scanned same
      · rw [literal] at read
        cases read
        exact Evaluate.literal_ne_builtin v evaluated
      · rw [refused] at read
        cases fault <;> cases read
    · have unread : Expr.read p.builtin.name = .error (.invalidCharacter c (front.length + 1)) := by
        rw [Expr.read, Grammar.readWhole, refused]
        rfl
      rw [unread] at read
      cases read
  · rintro ⟨word, all⟩
    have identifier := isIdentifier_of_isName (consistent.named p member) word all
    obtain ⟨spelled, reads⟩ := Expr.read_spelled (.name (c := 0) identifier)
    have written : (Expr.name 0 p.builtin.name).written = p.builtin.name := List.append_nil _
    have read := (reads _ spelled).1 (Nat.le_of_ble_eq_true rfl)
    rw [written] at read
    refine ⟨store, ?_⟩
    rw [Evaluate.evaluate_of_read read, Session.guarded_eq_ok]
    have value : Evaluate.eval env (.name 0 p.builtin.name) = pure (.builtin p.builtin.name) :=
      Evaluate.name_of_find? rfl found rfl
    rw [value]
    rfl

end Snippet
