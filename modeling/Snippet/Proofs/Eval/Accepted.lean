import Snippet.Eval.Evaluate
import Snippet.Proofs.Value.Leaves

/-!
Values that are let through to be written out. What passes the check of its weight shows at most
`maxLength` leaves itself. What it shows through views of dicts is not bounded, since a view weighs
one.
-/

set_option autoImplicit false

namespace Snippet

open Value (checkWeight weight shown shownFragments)

variable {s s' : Store} {v w : Value}

theorem Value.checkWeight_apply :
    checkWeight v s =
      if v.isContainer && weight s maxLength v > maxLength then
        .error (.cause .resultTooLarge) s
      else .ok () s := by
  rw [checkWeight, bind_eq]
  show (if (v.isContainer && weight s maxLength v > maxLength) = true
    then Eval.fail .resultTooLarge else pure ()) s = _
  split <;> rfl

theorem Value.checkWeight_eq_ok :
    checkWeight v s = .ok () s' ↔
      s' = s ∧ (v.isContainer = true → weight s maxLength v ≤ maxLength) := by
  rw [checkWeight_apply]
  split
  · rename_i refused
    simp only [Bool.and_eq_true, decide_eq_true_eq] at refused
    refine ⟨nofun, fun passed => ?_⟩
    exact absurd (passed.2 refused.1) (Nat.not_le_of_gt refused.2)
  · rename_i light
    simp only [Bool.and_eq_true, decide_eq_true_eq, not_and, Nat.not_lt] at light
    constructor
    · rintro ⟨⟩
      exact ⟨rfl, light⟩
    · rintro ⟨rfl, -⟩
      rfl

/-- The text of a value has at most `maxLength` leaves besides those that views show. -/
def Value.ShowsWithin (s : Store) (v : Value) : Prop :=
  ∀ t, shown s v = .ok t → (shownFragments s v).text = t ∧
    (shownFragments s v).leaves ≤ maxLength + (shownFragments s v).viewedLeaves

theorem Value.showsWithin_of_weight (within : weight s maxLength v ≤ maxLength) :
    v.ShowsWithin s := by
  intro t done
  obtain ⟨text, plain⟩ := shownFragments_bounded done within
  refine ⟨text, ?_⟩
  rw [Fragments.leaves_eq]
  omega

-- A value that is not weighed weighs little, but for an integer, which is one leaf.
theorem Value.showsWithin_of_unweighed (free : v.isContainer = false) : v.ShowsWithin s := by
  cases v with
  | text tag t | raw tag t | tuple tag items | list r | dict r => cases free
  | int tag n =>
      intro t done
      refine ⟨text_fragmentsAt done, ?_⟩
      have one : (shownFragments s (int tag n)).leaves ≤ 1 := List.countP_le_length
      exact one.trans (by rw [maxLength]; omega)
  | _ =>
      apply showsWithin_of_weight
      rw [weight, weighAt_leaf rfl, maxLength]
      simp [leafWeight]

theorem Value.showsWithin_of_checked (passed : checkWeight v s = .ok () s') : v.ShowsWithin s := by
  obtain ⟨-, light⟩ := checkWeight_eq_ok.mp passed
  cases weighed : v.isContainer with
  | true => exact showsWithin_of_weight (light weighed)
  | false => exact showsWithin_of_unweighed weighed

theorem forM_checkWeight_eq_ok {α : Type} {f : α → Value} {xs : List α}
    (passed : xs.forM (fun x => checkWeight (f x)) s = .ok ⟨⟩ s') :
    s' = s ∧ ∀ x ∈ xs, (f x).ShowsWithin s := by
  induction xs with
  | nil =>
      cases passed
      exact ⟨rfl, by simp⟩
  | cons x rest ih =>
      obtain ⟨_, after, first, later⟩ := run_bind_eq_ok.mp passed
      obtain ⟨rfl, -⟩ := Value.checkWeight_eq_ok.mp first
      obtain ⟨rfl, others⟩ := ih later
      refine ⟨rfl, ?_⟩
      simp only [List.forall_mem_cons]
      exact ⟨Value.showsWithin_of_checked first, others⟩

theorem display_eq_ok {t : Text} (done : Session.display v s = .ok t s') : v.ShowsWithin s := by
  obtain ⟨_, after, passed, -⟩ := run_bind_eq_ok.mp (Session.guarded_eq_ok.mp done)
  exact Value.showsWithin_of_checked passed

theorem display_of_light {t : Text} (done : shown s v = .ok t)
    (light : weight s maxLength v ≤ maxLength) : Session.display v s = .ok t s := by
  have passed : checkWeight v s = .ok () s := Value.checkWeight_eq_ok.mpr ⟨rfl, fun _ => light⟩
  refine Session.guarded_eq_ok.mpr (run_bind_eq_ok.mpr ⟨(), s, passed, ?_⟩)
  show Eval.lift (shown s v) s = _
  rw [done]
  rfl

theorem checkArguments_eq_ok {b : Builtin} {given : Nat} {keywords : Bindings}
    (done : b.checkArguments given keywords s = .ok () s') : s' = s := by
  rw [Builtin.checkArguments] at done
  dsimp only at done
  generalize keywords.find? (fun k => !b.keywords.contains k.1) = unknown at done
  generalize b.most = most at done
  split at done
  · cases done
  · cases most with
    | none =>
        cases unknown <;> cases done
        rfl
    | some most =>
        dsimp only at done
        split at done
        · cases done
        · cases unknown <;> cases done
          rfl

theorem invoke_eq_ok {b : Builtin} {args : List Value} {keywords : Bindings}
    (done : b.invoke args keywords s = .ok w s') : ∀ v ∈ args, v.ShowsWithin s := by
  obtain ⟨_, after, counted, ran⟩ := run_bind_eq_ok.mp done
  obtain ⟨_, later, passed, -⟩ := run_bind_eq_ok.mp ran
  obtain rfl := checkArguments_eq_ok counted
  exact (forM_checkWeight_eq_ok (f := id) passed).2

theorem field_eq_ok {eval : Evaluate.Evaluator} {e : Expr} {conversion : Option Conversion}
    {spec : Option Text} (done : Evaluate.part eval (.field e conversion spec) s = .ok w s') :
    ∃ v after, eval e s = .ok v after ∧ v.ShowsWithin after := by
  obtain ⟨v, after, evaluated, done⟩ := run_bind_eq_ok.mp done
  obtain ⟨_, later, passed, -⟩ := run_bind_eq_ok.mp done
  exact ⟨v, after, evaluated, Value.showsWithin_of_checked passed⟩

theorem mod_eq_ok {a b : Value} (done : Operator.mod a b s = .ok w s') : b.ShowsWithin s := by
  rw [Operator.mod] at done
  split at done
  · cases done
  · obtain ⟨_, after, passed, -⟩ := run_bind_eq_ok.mp done
    exact Value.showsWithin_of_checked passed

-- A view of a dict that holds one text shows all of its characters.
theorem view_shows (n : Nat) :
    ∃ s v t, weight s maxLength v = 1 ∧ shown s v = .ok t ∧ n ≤ (shownFragments s v).leaves := by
  let held : Value := .text 1 (List.replicate n 'a')
  let s : Store := { lists := #[], dicts := #[[(.int 0 1, held)]], nextTag := 3 }
  let v : Value := .view 2 .values 0
  have leaves (budget : Nat) : (Value.fragmentsAt s (budget + 2) [] false v).leaves = n := by
    simp [Value.fragmentsAt, v, s, held, Value.isContainerOrView, Value.partFragments,
      Value.shownItems, Value.viewItems, Store.entries, Fragments.enclosed, Fragments.joined,
      Value.scalarFragments, Value.quotedFragments, Fragments.leaves, List.countP_append,
      List.countP_replicate, Fragment.isLeaf]
  exact ⟨s, v, _, rfl, rfl, (leaves 948).ge⟩

end Snippet
