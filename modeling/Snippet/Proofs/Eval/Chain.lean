import Snippet.Proofs.Eval.Alike.Evaluation
import Snippet.Proofs.Eval.Depth
import Snippet.Proofs.Eval.Plain

/-!
Chains of comparisons. A chain holds if each of its links does. It differs from the comparisons
that its links make, joined by `and`, in that it evaluates an operand between two links once: the
comparisons evaluate it twice, and give the values behind it other identities. And it is not nested,
whereas the comparisons may be nested deeper than is evaluated.
-/

set_option autoImplicit false

namespace Snippet

open Eval (Alike AlikeEnds Plain UpToDepth)

namespace Expr

/-- The comparisons that links make, each with the operand before it, joined to what is in front of
them. -/
def conjoined (column : Nat) : Expr → Expr → List (Comparison × Expr) → Expr
  | front, _, [] => front
  | front, left, (op, e) :: rest =>
      conjoined column (.bool column .and front (.compare column left [(op, e)])) e rest

/-- The comparisons that the links of a chain make, joined by `and` from the left. -/
def conjunction (column : Nat) (first : Expr) : List (Comparison × Expr) → Expr
  | [] => .compare column first []
  | (op, e) :: rest => conjoined column (.compare column first [(op, e)]) e rest

/-- An operand that may stand between two links: a literal or a name. -/
def isAtom : Expr → Bool
  | literal .. | name .. => true
  | _ => false

end Expr

namespace Evaluate

variable {env : Env} {P : Prop} {column : Nat}

/-! ### The comparisons one after the other -/

/-- One link as a comparison of its own. -/
def link (eval : Evaluator) (left : Expr) (op : Comparison) (e : Expr) : Eval Bool := do
  links eval (← eval left) [(op, e)]

/-- Links as comparisons of their own, up to the first that fails. -/
def relinked (eval : Evaluator) : Expr → List (Comparison × Expr) → Eval Bool
  | _, [] => return true
  | left, (op, e) :: rest => do
      if ← link eval left op e then relinked eval e rest else return false

/-- The links behind one that has been compared. -/
def onward (eval : Evaluator) (left : Expr) (rest : List (Comparison × Expr)) (holds : Bool) :
    Eval Bool :=
  if holds then relinked eval left rest else return false

theorem onward_nil (eval : Evaluator) (left : Expr) (m : Eval Bool) :
    m >>= onward eval left [] = m := by
  have last : onward eval left [] = pure := by
    funext holds
    cases holds <;> rfl
  rw [last, bind_pure]

theorem onward_cons (eval : Evaluator) (left : Expr) (op : Comparison) (e : Expr)
    (rest : List (Comparison × Expr)) (m : Eval Bool) :
    m >>= onward eval left ((op, e) :: rest)
      = (do if ← m then link eval left op e else return false) >>= onward eval e rest := by
  rw [bind_assoc]
  congr 1
  funext holds
  cases holds <;> rfl

theorem compare_upToDepth {budget : Nat} (left : Expr) (op : Comparison) (e : Expr) {b : Nat}
    (fits : P ∨ (Expr.compare column left [(op, e)]).height ≤ b) (le : b ≤ budget + 1) :
    UpToDepth P (evalAt env b (.compare column left [(op, e)]))
      (Value.bool <$> link (evalAt env budget) left op e) := by
  have whole : evalAt env (budget + 1) (.compare column left [(op, e)])
      = Value.bool <$> link (evalAt env budget) left op e := by
    simp [evalAt, step, link]
  rw [← whole]
  exact evalAt_upToDepth fits le

theorem and_upToDepth {budget : Nat} {front left : Expr} {op : Comparison} {e : Expr} {m : Eval Bool}
    (ofFront : ∀ b ≤ budget + 1, P ∨ front.height ≤ b →
      UpToDepth P (evalAt env b front) (Value.bool <$> m))
    {b : Nat} (le : b ≤ budget + 1)
    (fits : P ∨ (Expr.bool column .and front (.compare column left [(op, e)])).height ≤ b) :
    UpToDepth P (evalAt env b (.bool column .and front (.compare column left [(op, e)])))
      (Value.bool <$> do if ← m then link (evalAt env budget) left op e else return false) := by
  cases b with
  | zero =>
      obtain may | fits := fits
      · exact fun s => .inr ⟨may, s, rfl⟩
      · exact absurd fits (Nat.not_le_of_gt (Expr.height_pos _))
  | succ b =>
      have inner {p : Expr} (ofParts : p ∈ [front, .compare column left [(op, e)]]) :
          P ∨ p.height ≤ b := by
        refine fits.imp_right fun fits => ?_
        have below := Expr.height_lt_of_mem_parts
          (e := .bool column .and front (.compare column left [(op, e)])) ofParts
        omega
      -- The conjunction in the form in which its expression is evaluated.
      have whole : (Value.bool <$> do if ← m then link (evalAt env budget) left op e else return false)
          = (do
            let v ← Value.bool <$> m
            if (← isTrue v) == false then return v
            else Value.bool <$> link (evalAt env budget) left op e) := by
        simp only [map_bind, bind_map_left]
        congr 1
        funext holds
        cases holds <;> rfl
      rw [whole]
      refine (ofFront b (by omega) (inner (by simp))).bind fun v =>
        (UpToDepth.refl _).bind fun holds => ?_
      exact .ite (.refl _) (compare_upToDepth left op e (inner (by simp)) (by omega))

theorem conjoined_upToDepth {budget : Nat} {front left : Expr} {m : Eval Bool}
    {rest : List (Comparison × Expr)}
    (ofFront : ∀ b ≤ budget + 1, P ∨ front.height ≤ b →
      UpToDepth P (evalAt env b front) (Value.bool <$> m))
    {b : Nat} (le : b ≤ budget + 1) (fits : P ∨ (Expr.conjoined column front left rest).height ≤ b) :
    UpToDepth P (evalAt env b (Expr.conjoined column front left rest))
      (Value.bool <$> (m >>= onward (evalAt env budget) left rest)) := by
  induction rest generalizing front left m with
  | nil =>
      rw [onward_nil]
      exact ofFront b le fits
  | cons next rest ih =>
      obtain ⟨op, e⟩ := next
      rw [onward_cons]
      exact ih (fun b le fits => and_upToDepth ofFront le fits) fits

/-- The comparisons of a chain do what its links do one after the other, each with an operand of its
own in front, unless they are nested too deeply. -/
theorem conjunction_upToDepth {budget : Nat} (first : Expr) {links : List (Comparison × Expr)}
    (some : links ≠ []) (fits : P ∨ (Expr.conjunction column first links).height ≤ budget + 1) :
    UpToDepth P (evalAt env (budget + 1) (Expr.conjunction column first links))
      (Value.bool <$> relinked (evalAt env budget) first links) := by
  obtain ⟨⟨op, e⟩, rest, rfl⟩ := List.exists_cons_of_ne_nil some
  exact conjoined_upToDepth (fun b le fits => compare_upToDepth first op e fits le) (Nat.le_refl _) fits

/-! ### Operands that are evaluated again -/

theorem sameData_of_atom {budget : Nat} {e : Expr} (atom : e.isAtom = true) {s t : Store} {w : Value}
    (ran : evalAt env budget e s = .ok w t) : s.SameData t := by
  cases budget with
  | zero => cases ran
  | succ budget =>
      cases e with
      | literal _ l => exact (plain_literal l).ok ran
      | name _ id =>
          have ran : name env id s = .ok w t := ran
          unfold name at ran
          cases bound : env.scope.find? id with
          | some v =>
              rw [bound] at ran
              cases ran
              exact .refl s
          | none =>
              cases known : Builtin.find? env.builtins id with
              | some b =>
                  rw [bound, known] at ran
                  cases ran
                  exact .refl s
              | none =>
                  rw [bound, known] at ran
                  cases ran
      | _ => cases atom

theorem store_of_lift {α : Type} {r : Except Breach α} {s t : Store} {a : α}
    (ran : Eval.lift r s = .ok a t) : t = s := by
  cases r with
  | ok a =>
      cases ran
      rfl
  | error b => cases ran

theorem store_of_compare {op : Comparison} {a b : Value} {s t : Store} {holds : Bool}
    (ran : Operator.compare op a b s = .ok holds t) : t = s := by
  have negated {r : Except Breach Bool}
      (ran : (do return !(← Eval.lift r) : Eval Bool) s = .ok holds t) : t = s := by
    obtain ⟨c, u, ran, done⟩ := run_bind_eq_ok.mp ran
    cases done
    exact store_of_lift ran
  cases op with
  | eq | lt | gt | le | ge | isIn => exact store_of_lift ran
  | ne | notIn => exact negated ran
  | same | notSame =>
      cases ran
      rfl

variable {first : Store} (sound : env.Sound first) (uniform : ∀ b ∈ env.builtins, b.Uniform)
include uniform

/-- An atom that is evaluated again has the same value under another identity. -/
theorem atom_again {budget : Nat} {e : Expr} (atom : e.isAtom = true) {s t : Store} {w : Value}
    (below : s.Below first.nextTag) (late : first.nextTag ≤ s.nextTag)
    (ran : evalAt env budget e s = .ok w t) (gap : Nat) :
    ∃ gap', evalAt env budget e (t.rename (sound.shift gap))
      = .ok (w.rename (sound.shift gap')) (t.rename (sound.shift gap')) := by
  have alike (gap : Nat) := alike_evalAt (sound.unmoved uniform gap) budget s.nextTag e
  have same := sameData_of_atom atom ran
  obtain ⟨-, -, -, later, -⟩ := (ran ▸ (alike 0).ends s rfl late (below.mono late)).of_ok
  -- The store behind the first evaluation is the one in front of it but for the next tag.
  have ofT : t.Below first.nextTag := below.of_sameData same
  have moved : t.rename (sound.shift gap)
      = s.rename (sound.shift (t.nextTag + gap - s.nextTag)) := by
    rw [Store.rename_of_below (ρ := sound.shift gap) ofT (Nat.le_trans late later),
      Store.rename_of_below (ρ := sound.shift _) below late]
    have next : t.nextTag + gap = s.nextTag + (t.nextTag + gap - s.nextTag) :=
      (Nat.add_sub_of_le (Nat.le_add_right_of_le later)).symm
    simp only [Env.Sound.shift, same.1, same.2, ← next]
  have ends := (alike (t.nextTag + gap - s.nextTag)).ends s rfl late (below.mono late)
  rw [ran, ← moved] at ends
  obtain ⟨w', ran', ⟨rfl, -⟩, -⟩ := ends.of_ok
  exact ⟨_, ran'⟩

/-- A chain from a value on ends as its links do as comparisons of their own, where evaluating the
operand in front again gives that value under another identity. -/
theorem links_alike {budget : Nat} {v : Value} {left : Expr} {s s' : Store} {gap : Nat}
    {rest : List (Comparison × Expr)} (nonempty : rest ≠ [])
    (atoms : ∀ l ∈ rest.dropLast, l.2.isAtom = true) (below : s.Below first.nextTag)
    (late : first.nextTag ≤ s.nextTag)
    (again : evalAt env budget left s' = .ok (v.rename (sound.shift gap)) (s.rename (sound.shift gap))) :
    ∃ gap', AlikeEnds (sound.shift gap') s.nextTag Equal (links (evalAt env budget) v rest s)
      (relinked (evalAt env budget) left rest s') := by
  induction rest generalizing v left s s' gap with
  | nil => exact absurd rfl nonempty
  | cons next rest ih =>
      obtain ⟨op, e⟩ := next
      have ofE := (alike_evalAt (sound.unmoved uniform gap) budget s.nextTag e).ends s rfl late
        (below.mono late)
      rw [links, relinked, link, bind_eq, bind_eq, bind_eq, again]
      dsimp only
      rw [links, bind_eq]
      cases ran : evalAt env budget e s with
      | error fault t =>
          obtain ⟨ran', later, below⟩ := (ran ▸ ofE).of_error
          rw [ran']
          exact ⟨gap, .error later below⟩
      | ok w t =>
          obtain ⟨_, ran', ⟨rfl, -⟩, later, below'⟩ := (ran ▸ ofE).of_ok
          rw [ran']
          dsimp only
          have compared := (Operator.alike_compare (ρ := sound.shift gap) (a := v) (b := w) op).ends
            t rfl (Nat.le_trans late later) below'
          rw [bind_eq, bind_eq]
          cases held : Operator.compare op v w t with
          | error fault u =>
              obtain ⟨held', later', below⟩ := (held ▸ compared).of_error
              rw [held']
              exact ⟨gap, .error (Nat.le_trans later later') below⟩
          | ok holds u =>
              obtain ⟨other, held', same, -⟩ := (held ▸ compared).of_ok
              obtain rfl := store_of_compare held
              rw [held', show other = holds from same]
              cases holds with
              | false => exact ⟨gap, .ok rfl later below'⟩
              | true =>
                  obtain _ | ⟨further, rest⟩ := rest
                  · exact ⟨gap, .ok rfl later below'⟩
                  · have atom := atoms (op, e) List.mem_cons_self
                    obtain ⟨gap, again⟩ := atom_again sound uniform atom below late ran gap
                    obtain ⟨gap, ends⟩ := ih (List.cons_ne_nil _ _)
                      (fun l member => atoms l (List.mem_cons_of_mem _ member))
                      (below.of_sameData (sameData_of_atom atom ran)) (Nat.le_trans late later) again
                    exact ⟨gap, ends.of_later later⟩

end Evaluate

/-! ### Outcomes -/

/-- The same boolean or the same failure. The stores behind are the same but for the identities of
what has been made from a tag on: all lists and dicts have the same contents. -/
inductive SameOutcome (n : Nat) : EStateM.Result Stop Store Value → EStateM.Result Stop Store Value → Prop
  | holds (b : Bool) (s : Store) {ρ : Renaming} (made : n ≤ ρ.start) :
      SameOutcome n (.ok (.bool b) s) (.ok (.bool b) (s.rename ρ))
  | fails (stop : Stop) (s : Store) {ρ : Renaming} (made : n ≤ ρ.start) :
      SameOutcome n (.error stop s) (.error stop (s.rename ρ))

theorem Session.stopOf_rename {ρ : Renaming} {s : Store} (late : ρ.start ≤ s.nextTag) (fault : Fault) :
    stopOf (s.rename ρ) (fault.rename ρ) = stopOf s fault := by
  cases fault with
  | cause c => rfl
  | breach b => cases b <;> rfl
  | missingKey key => simp only [Fault.rename, stopOf, Value.written_rename late]

theorem SameOutcome.of_alike {ρ : Renaming} {n k : Nat} {m m' : Eval Bool} {s s' : Store}
    (made : n ≤ ρ.start) (late : ρ.start ≤ k) (ends : AlikeEnds ρ k Equal (m s) (m' s')) :
    SameOutcome n (Session.guarded (Value.bool <$> m) s) (Session.guarded (Value.bool <$> m') s') := by
  rw [Session.guarded, Session.guarded, map_eq_pure_bind, map_eq_pure_bind, bind_eq, bind_eq]
  generalize m s = r, m' s' = r' at ends
  cases ends with
  | ok related _ _ =>
      cases related
      exact .holds _ _ made
  | error later below =>
      dsimp only
      rw [Session.stopOf_rename (Nat.le_trans late later)]
      exact .fails _ _ made

variable {env : Env} {s : Store}

theorem sameOutcome_relinked (sound : env.Sound s) (uniform : ∀ b ∈ env.builtins, b.Uniform)
    (budget column : Nat) (first : Expr) {links : List (Comparison × Expr)} (nonempty : links ≠ [])
    (atoms : ∀ l ∈ links.dropLast, l.2.isAtom = true) :
    SameOutcome s.nextTag
      (Session.guarded (Evaluate.evalAt env (budget + 1) (.compare column first links)) s)
      (Session.guarded (Value.bool <$> Evaluate.relinked (Evaluate.evalAt env budget) first links) s) := by
  have whole : Evaluate.evalAt env (budget + 1) (.compare column first links)
      = Value.bool <$> (Evaluate.evalAt env budget first >>= fun v =>
        Evaluate.links (Evaluate.evalAt env budget) v links) := by
    simp [Evaluate.evalAt, Evaluate.step]
  have ends := (Evaluate.alike_evalAt (sound.unmoved uniform 0) budget s.nextTag first).ends s rfl
    (Nat.le_refl _) sound.store
  rw [whole]
  cases ran : Evaluate.evalAt env budget first s with
  -- A first operand that fails is not evaluated again.
  | error fault t =>
      obtain ⟨-, later, below⟩ := (ran ▸ ends).of_error
      obtain ⟨⟨op, e⟩, rest, rfl⟩ := List.exists_cons_of_ne_nil nonempty
      have soundAfter := sound.of_later later below
      have fails := SameOutcome.fails (ρ := soundAfter.shift 0) (Session.stopOf t fault) t later
      rw [soundAfter.rename_eq] at fails
      simpa [Session.guarded, Evaluate.relinked, Evaluate.link, map_eq_pure_bind, bind_eq, ran]
        using fails
  -- A shift that starts behind the first operand moves nothing that it left.
  | ok v t =>
      obtain ⟨-, -, ⟨-, ofV⟩, later, below⟩ := (ran ▸ ends).of_ok
      have soundAfter := sound.of_later later below
      have again : Evaluate.evalAt env budget first s
          = .ok (v.rename (soundAfter.shift 0)) (t.rename (soundAfter.shift 0)) := by
        rw [soundAfter.rename_eq, v.rename_of_below (ρ := soundAfter.shift 0) ofV, ran]
      obtain ⟨gap, linked⟩ := Evaluate.links_alike soundAfter uniform nonempty atoms soundAfter.store
        (Nat.le_refl _) again
      refine SameOutcome.of_alike (ρ := soundAfter.shift gap) (k := t.nextTag) later (Nat.le_refl _) ?_
      rwa [bind_eq, ran]

theorem sameOutcome_conjunction {P : Prop} (sound : env.Sound s)
    (uniform : ∀ b ∈ env.builtins, b.Uniform) {budget column : Nat} {first : Expr}
    {links : List (Comparison × Expr)} (nonempty : links ≠ [])
    (atoms : ∀ l ∈ links.dropLast, l.2.isAtom = true)
    (fits : P ∨ (Expr.conjunction column first links).height ≤ budget + 1) :
    SameOutcome s.nextTag
        (Session.guarded (Evaluate.evalAt env (budget + 1) (.compare column first links)) s)
        (Session.guarded (Evaluate.evalAt env (budget + 1) (Expr.conjunction column first links)) s) ∨
      P ∧ ∃ t, Session.guarded (Evaluate.evalAt env (budget + 1) (Expr.conjunction column first links)) s
        = .error (.cause .tooDeep) t := by
  have same := sameOutcome_relinked sound uniform budget column first nonempty atoms
  have joined : UpToDepth P _ (Value.bool <$> Evaluate.relinked (Evaluate.evalAt env budget) first links) :=
    Evaluate.conjunction_upToDepth first nonempty fits
  obtain ended | ⟨may, t, refused⟩ := joined s
  · left
    have settled : Session.guarded (Evaluate.evalAt env (budget + 1) (Expr.conjunction column first links)) s
        = Session.guarded (Value.bool <$> Evaluate.relinked (Evaluate.evalAt env budget) first links) s := by
      simp only [Session.guarded, ended]
    rwa [settled]
  · right
    exact ⟨may, t, by rw [Session.guarded, refused]; rfl⟩

/-! ### Operands that are not evaluated -/

theorem links_append_of_false {eval : Evaluate.Evaluator} {v : Value} {s t : Store}
    {links : List (Comparison × Expr)} (failed : Evaluate.links eval v links s = .ok false t)
    (behind : List (Comparison × Expr)) : Evaluate.links eval v (links ++ behind) s = .ok false t := by
  induction links generalizing v s with
  | nil => cases failed
  | cons next rest ih =>
      obtain ⟨op, e⟩ := next
      rw [Evaluate.links, run_bind_eq_ok] at failed
      obtain ⟨w, u, ran, failed⟩ := failed
      obtain ⟨holds, u', compared, failed⟩ := run_bind_eq_ok.mp failed
      rw [List.cons_append, Evaluate.links, run_bind_eq_ok]
      refine ⟨w, u, ran, run_bind_eq_ok.mpr ⟨holds, u', compared, ?_⟩⟩
      cases holds with
      | true => exact ih failed
      | false => exact failed

theorem compare_append_of_false {column : Nat} {first : Expr} {s t : Store}
    {links : List (Comparison × Expr)}
    (failed : Session.guarded (Evaluate.eval env (.compare column first links)) s = .ok (.bool false) t)
    (behind : List (Comparison × Expr)) :
    Session.guarded (Evaluate.eval env (.compare column first (links ++ behind))) s
      = .ok (.bool false) t := by
  rw [Session.guarded_eq_ok] at failed ⊢
  obtain ⟨v, u, ran, failed⟩ := run_bind_eq_ok.mp failed
  obtain ⟨holds, u', linked, done⟩ := run_bind_eq_ok.mp failed
  cases done
  exact run_bind_eq_ok.mpr ⟨v, u, ran, run_bind_eq_ok.mpr
    ⟨false, t, links_append_of_false linked behind, rfl⟩⟩

/-! ### Nesting -/

theorem conjoined_refused (column least : Nat) (front left : Expr) (rest : List (Comparison × Expr))
    (ofFront : ∀ b ≤ least, ∀ s, Evaluate.evalAt env b front s = .error (.breach .depth) s) :
    ∀ b ≤ least + rest.length, ∀ s,
      Evaluate.evalAt env b (Expr.conjoined column front left rest) s = .error (.breach .depth) s := by
  induction rest generalizing front left least with
  | nil => exact ofFront
  | cons next rest ih =>
      obtain ⟨op, e⟩ := next
      rw [List.length_cons, Nat.add_comm rest.length, ← Nat.add_assoc]
      refine ih _ _ _ fun b le s => ?_
      cases b with
      | zero => rfl
      | succ b => rw [Evaluate.evalAt, Evaluate.step, bind_eq, ofFront b (Nat.le_of_succ_le_succ le)]

/-- Comparisons joined by `and` are refused when there are more of them than the nesting that is
evaluated. -/
theorem conjunction_refused (env : Env) (column : Nat) (first : Expr)
    (links : List (Comparison × Expr))
    (long : Evaluate.evalBudget < links.length) (s : Store) :
    Session.guarded (Evaluate.eval env (Expr.conjunction column first links)) s
      = .error (.cause .tooDeep) s := by
  obtain _ | ⟨⟨op, e⟩, rest⟩ := links
  · cases long
  · have within : Evaluate.evalBudget ≤ 0 + rest.length := by
      rw [Nat.zero_add]
      exact Nat.le_of_lt_succ long
    have ofFront : ∀ b ≤ 0, ∀ s,
        Evaluate.evalAt env b (.compare column first [(op, e)]) s = .error (.breach .depth) s := by
      intro b le s
      rw [Nat.le_zero.mp le]
      rfl
    rw [Session.guarded, Evaluate.eval, Expr.conjunction, conjoined_refused _ _ _ _ _ ofFront _ within]
    rfl

-- The chain is a loop over its links, so that it is as deep as its operands.
theorem long_chain_holds (column place : Nat) (count : Nat) (builtins : List Builtin) :
    Session.guarded (Evaluate.eval ⟨.empty, builtins⟩ (.compare column (.literal place (.int 0))
        (List.replicate count (.eq, .literal place (.int 0))))) .empty
      = .ok (.bool true) .empty := by
  have linked (budget : Nat) : Evaluate.links (Evaluate.evalAt ⟨.empty, builtins⟩ (budget + 1))
      (.int Tag.shared 0) (List.replicate count (.eq, .literal place (.int 0))) .empty
        = .ok true .empty := by
    induction count with
    | zero => rfl
    | succ count ih =>
        rw [List.replicate_succ, Evaluate.links, run_bind_eq_ok]
        exact ⟨.int Tag.shared 0, .empty, rfl, run_bind_eq_ok.mpr ⟨true, .empty, rfl, ih⟩⟩
  rw [Session.guarded_eq_ok]
  exact run_bind_eq_ok.mpr ⟨.int Tag.shared 0, .empty, rfl,
    run_bind_eq_ok.mpr ⟨true, .empty, linked _, rfl⟩⟩

end Snippet
