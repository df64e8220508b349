import Mathlib.Data.Nat.Digits.Defs
import Snippet.Proofs.Eval.Columns
import Snippet.Proofs.Eval.Exact
import Snippet.Proofs.Eval.Given
import Snippet.Proofs.Expr.RoundTrip
import Snippet.Proofs.Run.Frame
import Snippet.Proofs.Run.Sized

/-!
How large the values of a session get. An integer has at most one bit more than the cap for each
subtraction in the source, as a difference is not checked; the other operators keep to the cap. A
text keeps to the cap on characters unless the source has a longer one. The items of a container
are bounded as far as they weigh something; empty texts weigh nothing, and a list may hold any
number of them.
-/

set_option autoImplicit false

namespace Snippet

open Value (solids solidEntries weight weighAll_le weighAt_leaf weighAt_inside weighAt_shut
  roomy_nil)

variable {s s' : Store} {r : Ref} {a b v : Value} {m n : Int}

/-! ### Integers -/

theorem Operator.exists_sub (left : a.int? = some m) (right : b.int? = some n) (s : Store) :
    ∃ tag s', Operator.sub a b s = .ok (.int tag (m - n)) s' := by
  obtain ⟨tag, s', given, -⟩ := Value.exists_ofInt (m - n) s
  refine ⟨tag, s', ?_⟩
  rw [Operator.sub, Operator.pairOf_of_int? left right]
  exact given

-- The largest integer within the cap, and one more.
theorem exists_difference_beyond : ∃ m n : Int, bitLength m ≤ maxBits ∧ bitLength n ≤ maxBits ∧
    bitLength (m - n) = maxBits + 1 := by
  have positive := Nat.two_pow_pos maxBits
  have long : ¬ bitLength ((2 ^ maxBits - 1 : Nat) - -1 : Int) ≤ maxBits := by
    rw [bitLength_le_iff]
    omega
  have few : bitLength ((2 ^ maxBits - 1 : Nat) : Int) ≤ maxBits := by
    rw [bitLength_le_iff, Int.natAbs_natCast]
    omega
  have few' : bitLength (-1) ≤ maxBits := by
    rw [bitLength_neg]
    exact (bitLength_bool true).trans (by decide)
  have bounded := bitLength_sub_le few few'
  exact ⟨_, _, few, few', by omega⟩

/-- Integers of a session. Each has at most one bit more than the cap for each subtraction in the
source. What an operator or a minus sign gives for integers within the cap is exact, and within the
cap but for a difference, which is not checked and may have one bit more. -/
theorem integers_capped (setup : Setup) :
    (∀ (forms : List LineForm) (t : Text) (v : Value) (s' : Store) (n : Int),
      setup.builtins = Builtin.core →
      Session.evaluate ((Exec.session setup forms .initial).env setup) t
          (Exec.session setup forms .initial).store = .ok v s' →
      v.int? = some n →
      bitLength n ≤
        maxBits + totalSubtractions (forms.flatMap LineForm.expressions ++ Expr.ofText t)) ∧
    (∀ (op : BinaryOp) (a b : Value) (m n : Int) (s : Store) (v : Value) (s' : Store),
      a.int? = some m → b.int? = some n → bitLength m ≤ maxBits → bitLength n ≤ maxBits →
      Operator.binary op a b s = .ok v s' →
      v.IsExact (op.exact m n) ∧
        ∀ tag r, v = .int tag r → bitLength r ≤ maxBits + if op = .sub then 1 else 0) ∧
    (∀ (a : Value) (m : Int) (s : Store) (v : Value) (s' : Store),
      a.int? = some m → bitLength m ≤ maxBits → Operator.unary .minus a s = .ok v s' →
      v.IsExact (some (-m)) ∧ ∀ tag r, v = .int tag r → bitLength r ≤ maxBits) ∧
    ∃ m n : Int, bitLength m ≤ maxBits ∧ bitLength n ≤ maxBits ∧
      bitLength (m - n) = maxBits + 1 ∧
      ∀ (a b : Value) (s : Store), a.int? = some m → b.int? = some n →
        ∃ tag s', Operator.binary .sub a b s = .ok (.int tag (m - n)) s' := by
  refine ⟨fun forms t v s' n core done whole => ?_,
    fun op a b m n s v s' left right few few' done =>
      Operator.yields_binary left right op few few' s v s' done,
    fun a m s v s' left few done => ?_, ?_⟩
  · obtain ⟨w, -, bits, -, of_v⟩ := evaluated_within (core ▸ Builtin.core_isSized) rfl done
    exact bits ▸ of_v.of_int? whole
  · have exact_ := Operator.yields_negate left s v s' done
    refine ⟨exact_, fun tag r same => ?_⟩
    cases exact_ tag r same
    rwa [bitLength_neg]
  · obtain ⟨m, n, few, few', long⟩ := exists_difference_beyond
    exact ⟨m, n, few, few', long, fun a b s left right => Operator.exists_sub left right s⟩

-- A difference of a name that is bound by an earlier statement.
theorem integers_capped_difference :
    let setup := plainSetup
    let forms := [LineForm.assignment ["a".toList] "2 ** 40".toList none]
    let m := Exec.session setup forms .initial
    ∃ v s', setup.builtins = Builtin.core ∧
      Session.evaluate (m.env setup) "-a - a".toList m.store = .ok v s' ∧
      v.int? = some (-2199023255552) ∧ bitLength (-2199023255552) ≤ maxBits + 1 := by
  intro setup forms m
  have whole : (answer? (Session.evaluate (m.env setup) "-a - a".toList) m.store).bind (·.1.int?)
      = some (-2199023255552) := by
    decide +kernel
  have once : totalSubtractions (forms.flatMap LineForm.expressions ++ Expr.ofText "-a - a".toList)
      = 1 := by
    decide +kernel
  obtain ⟨⟨v, s'⟩, answered, whole⟩ := Option.bind_eq_some_iff.mp whole
  have done := answer?_eq_some.mp answered
  have capped := (integers_capped setup).1 forms _ v s' _ rfl done whole
  rw [once] at capped
  exact ⟨v, s', rfl, done, whole, capped⟩

/-! ### Texts and containers -/

/-- Sizes of values: a text has so many characters, and a container so many items that weigh
something whatever happens to the lists and dicts. -/
def Value.Capped (chars : Nat) (s : Store) : Value → Prop
  | .text _ t | .raw _ t => t.length ≤ chars
  | .tuple _ items => solids items ≤ maxLength
  | .list r => solids (s.items r) ≤ listCap
  | .dict r => solidEntries (s.entries r) ≤ dictCap
  | _ => True

theorem Value.Within.capped {w : Limits} (of_v : v.Within w) (held : s.Within w) :
    v.Capped w.chars s := by
  cases of_v with
  | text tag fits | raw tag fits => exact fits
  | tuple tag fits each => exact fits
  | list known => exact (held.lists _).known known
  | dict known => exact (held.dicts _).known known
  | _ => trivial

def Value.IsEmptyText (v : Value) : Prop :=
  ∃ tag, v = .text tag []

-- However many they are, empty texts weigh nothing.
theorem weight_emptyTexts (empty : ∀ v ∈ s.items r, v.IsEmptyText) (limit : Nat) :
    weight s limit (.list r) ≤ if (s.items r).isEmpty then 1 else 0 := by
  rw [weight]
  cases held : (s.items r).isEmpty with
  | true => exact (weighAt_shut (v := .list r) rfl (.inl held)).le
  | false =>
      obtain ⟨less, -, weighed⟩ := weighAt_inside (roomy_nil s) (v := .list r) rfl held rfl
      rw [weighed]
      have each : ∀ v ∈ s.items r, ∀ total,
          Value.weighAt s limit less [.list r] v total ≤ total + (fun _ => 0) v := by
        intro v member total
        obtain ⟨tag, rfl⟩ := empty v member
        exact (weighAt_leaf rfl).le
      exact (weighAll_le each).trans (by simp)

theorem Value.isEmptyText_repeated {k : Nat} (few : k ≤ maxItems) (empty : v.IsEmptyText) :
    ∃ items, items.length = k ∧ (∀ u ∈ items, u.IsEmptyText) ∧
      ∀ s, Operator.repeated k [v] s = .ok items s := by
  by_cases none_ : k = 0
  · subst none_
    exact ⟨[], rfl, nofun, fun s => rfl⟩
  · refine ⟨(List.replicate k [v]).flatten, by simp, ?_, fun s => ?_⟩
    · intro u member
      simp only [List.mem_flatten, List.mem_replicate] at member
      obtain ⟨_, ⟨-, rfl⟩, one⟩ := member
      rwa [List.mem_singleton.mp one]
    · rw [Operator.repeated, if_neg (by simpa using none_), if_neg (by simpa using few)]
      rfl

/-- A list of one empty text, repeated. -/
def repeatedEmpty (k : Nat) : Expr :=
  .binary 0 .mul (.list 0 [.literal 0 (.text [])]) (.literal 0 (.int k))

theorem read_repeatedEmpty {k : Nat} (few : k ≤ maxItems) :
    (Expr.read (repeatedEmpty k).written).map Expr.bare = .ok (repeatedEmpty k).bare := by
  have short : (digitsOf k).length ≤ maxDecimalDigits :=
    Nat.toDigits_length 10 k _ (by decide) (few.trans_lt (by decide +kernel))
  have plain : (repeatedEmpty k).Plain :=
    .binary (.list (List.forall_mem_singleton.mpr (.literal trivial))) (.literal short)
  have nesting : (repeatedEmpty k).layout.whole.nesting ≤ Grammar.readBudget := by
    show 22 ≤ Grammar.readBudget
    decide
  obtain ⟨spelled, reads⟩ := Expr.read_spelled plain
  exact (reads _ spelled).1 nesting

theorem countOf_of_le {k : Nat} (few : k ≤ maxItems) : Operator.countOf k = pure k := by
  have word : Operator.isWord k = true := by
    rw [maxItems] at few
    rw [Operator.isWord]
    norm_num at few ⊢
    omega
  rw [Operator.countOf, if_pos word, Int.toNat_natCast]

theorem mul_emptyTexts {q : Ref} {tag : Tag} {k : Nat} (few : k ≤ maxItems)
    (held : s.items q = [v]) (empty : v.IsEmptyText) :
    ∃ r s', Operator.mul (.list q) (.int tag k) s = .ok (.list r) s' ∧ (s'.items r).length = k := by
  have nothing : weight s maxLength (.list q) = 0 := by
    have weighed := weight_emptyTexts (r := q) (s := s) (by simpa [held] using empty) maxLength
    simpa [held] using weighed
  obtain ⟨items, long, all_empty, given⟩ := Value.isEmptyText_repeated few empty
  have allowed : Operator.checkProduct (.list q) (.int tag k) s = .ok () s := by
    have small : ¬ (Value.isTrue s (.list q) &&
        decide ((weight s maxLength (.list q) : Int) * max (k : Int) 0 > maxLength)) = true := by
      rw [nothing]
      simp [maxLength]
    show (if (Value.isTrue s (.list q) &&
        decide ((weight s maxLength (.list q) : Int) * max (k : Int) 0 > maxLength)) = true
      then Eval.fail .resultTooLarge else pure ()) s = _
    rw [if_neg small]
    rfl
  have new : Operator.mulPlain (.list q) (.int tag k) s =
      .ok (.list s.lists.size) { s with lists := s.lists.push items } := by
    show Operator.repeatValue (.list q) k s = _
    rw [Operator.repeatValue, countOf_of_le few, pure_bind]
    show (Eval.itemsOf q >>= fun xs => Operator.repeated k xs >>= Value.ofList) s = _
    have found : Eval.itemsOf q s = .ok [v] s := congrArg (EStateM.Result.ok · s) held
    rw [bind_eq, found]
    dsimp only
    rw [bind_eq, given]
    rfl
  have held' : { s with lists := s.lists.push items : Store }.items s.lists.size = items := by
    simp [Store.items]
  have light : weight { s with lists := s.lists.push items } maxLength (.list s.lists.size)
      ≤ maxLength := by
    refine (weight_emptyTexts (by rw [held']; exact all_empty) maxLength).trans ?_
    split
    · simp [maxLength]
    · exact Nat.zero_le _
  refine ⟨_, _, ?_, (congrArg List.length held').trans long⟩
  rw [Operator.mul]
  exact run_bind_eq_ok.mpr ⟨_, _, allowed, run_bind_eq_ok.mpr
    ⟨_, _, new, Value.checked_of_light rfl light⟩⟩

/-- Any number of empty texts can be asked for. -/
theorem evaluate_repeatedEmpty {k : Nat} (few : k ≤ maxItems) (env : Env) (s : Store) :
    ∃ r s', Session.evaluate env (repeatedEmpty k).written s = .ok (.list r) s' ∧
      (s'.items r).length = k := by
  let pushed : Store := { s with lists := s.lists.push [.text Tag.shared []] }
  have held : pushed.items s.lists.size = [.text Tag.shared []] := by
    simp [Store.items, pushed]
  have light : weight pushed maxLength (.list s.lists.size) ≤ maxLength := by
    refine (weight_emptyTexts (by simpa [held] using ⟨_, rfl⟩) maxLength).trans ?_
    simp [held]
  have left : Evaluate.evalAt env 959 (.list 0 [.literal 0 (.text [])]) s
      = .ok (.list s.lists.size) pushed := by
    show (Value.ofList [.text Tag.shared []] >>= Value.checked) s = _
    exact run_bind_eq_ok.mpr ⟨_, _, rfl, Value.checked_of_light rfl light⟩
  obtain ⟨tag, aged, right, ages⟩ := Value.exists_ofInt k pushed
  have held' : aged.items s.lists.size = [.text Tag.shared []] := by
    rw [Store.items, ages.data.1]
    exact held
  obtain ⟨r, s', done, long⟩ := mul_emptyTexts few held' ⟨_, rfl⟩
  refine ⟨r, s', ?_, long⟩
  rw [Evaluate.evaluate_of_read (read_repeatedEmpty few), Session.guarded_eq_ok]
  exact run_bind_eq_ok.mpr ⟨_, _, left, run_bind_eq_ok.mpr ⟨_, _, right, done⟩⟩

/-- The place of a list. -/
def Value.list? : Value → Option Ref
  | .list r => some r
  | _ => Option.none

theorem Value.eq_of_list? (listed : v.list? = some r) : v = .list r := by
  cases v <;> cases listed
  rfl

end Snippet
