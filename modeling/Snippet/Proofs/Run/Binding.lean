import Snippet.Proofs.Eval.Given
import Snippet.Proofs.Run.Failure

/-!
What an assignment binds. Either every target takes its component of the value, or all of them take
the source text that stands in for it.
-/

set_option autoImplicit false

namespace Snippet

variable {s s' : Store} {v : Value} {values : List Value}

namespace Scope

def names (scope : Scope) : List Text :=
  scope.bindings.map (·.1)

/-- Bind names one after the other. -/
def setAll (scope : Scope) (bound : Bindings) : Scope :=
  bound.foldl (fun scope b => scope.set b.1 b.2) scope

theorem setAll_cons (scope : Scope) (name : Text) (v : Value) (bound : Bindings) :
    scope.setAll ((name, v) :: bound) = (scope.set name v).setAll bound :=
  rfl

-- Names that are not bound keep their values.
theorem find?_setAll_of_not_mem {bound : Bindings} {name : Text} (other : name ∉ bound.map (·.1))
    (scope : Scope) : (scope.setAll bound).find? name = scope.find? name := by
  induction bound generalizing scope with
  | nil => rfl
  | cons b rest ih =>
      obtain ⟨n, v⟩ := b
      have apart : name ≠ n := List.ne_of_not_mem_cons other
      rw [setAll_cons, ih (List.not_mem_of_not_mem_cons other), find?_set, if_neg apart]

-- A name that is bound more than once takes the last value.
theorem find?_setAll_last {front behind : Bindings} {name : Text} {v : Value}
    (last : name ∉ behind.map (·.1)) (scope : Scope) :
    (scope.setAll (front ++ (name, v) :: behind)).find? name = some v := by
  induction front generalizing scope with
  | nil =>
      rw [List.nil_append, setAll_cons, find?_setAll_of_not_mem last, find?_set, if_pos rfl]
  | cons b rest ih =>
      obtain ⟨n, w⟩ := b
      rw [List.cons_append, setAll_cons, ih]

theorem names_set (scope : Scope) (name : Text) (v : Value) :
    (scope.set name v).names =
      if name ∈ scope.names then scope.names else scope.names ++ [name] := by
  obtain ⟨bindings⟩ := scope
  show (bindIn bindings name v).map (·.1) =
    if name ∈ bindings.map (·.1) then bindings.map (·.1) else bindings.map (·.1) ++ [name]
  induction bindings with
  | nil => rfl
  | cons b rest ih =>
      obtain ⟨n, w⟩ := b
      rw [bindIn]
      by_cases same : n = name
      · simp [same]
      · simp only [beq_false_of_ne same, Bool.false_eq_true, if_false, List.map_cons, ih,
          List.mem_cons, Ne.symm same, false_or]
        split <;> rfl

-- New names come behind the old ones, each where it is first bound.
theorem names_setAll (scope : Scope) (bound : Bindings) :
    (scope.setAll bound).names =
      scope.names ++ ((bound.map (·.1)).filter (· ∉ scope.names)).eraseDups := by
  induction bound generalizing scope with
  | nil => simp [setAll]
  | cons b rest ih =>
      obtain ⟨name, v⟩ := b
      rw [setAll_cons, ih, names_set, List.map_cons]
      by_cases known : name ∈ scope.names
      · simp [known]
      · have later (other : Text) : decide (other ∉ scope.names ++ [name]) =
            (!(other == name) && decide (other ∉ scope.names)) := by
          by_cases same : other = name <;> simp [same, known]
        simp only [known, if_false, not_false_eq_true, decide_true, List.filter_cons_of_pos,
          List.eraseDups_cons, List.append_assoc, List.filter_filter, later]
        rfl

/-- After values are bound to targets one by one: the last one of a repeated target holds, all other
names are as before, and new names come last in the order of the targets. -/
structure Binds (targets : List Text) (values : List Value) (before after : Scope) : Prop where
  each : ∀ (i : Nat) name v, targets[i]? = some name → values[i]? = some v →
    (∀ j : Nat, i < j → targets[j]? ≠ some name) → after.find? name = some v
  others : ∀ name, name ∉ targets → after.find? name = before.find? name
  names : after.names = before.names ++ (targets.filter (· ∉ before.names)).eraseDups

theorem binds_setAll {targets : List Text} {values : List Value}
    (same : values.length = targets.length) (scope : Scope) :
    scope.Binds targets values (scope.setAll (targets.zip values)) := by
  have fst : (targets.zip values).map (·.1) = targets := List.map_fst_zip (by omega)
  constructor
  case each =>
    intro i name v target value later
    have paired : (targets.zip values)[i]? = some (name, v) :=
      List.getElem?_zip_eq_some.mpr ⟨target, value⟩
    obtain ⟨inside, here⟩ := List.getElem?_eq_some_iff.mp paired
    have last : name ∉ ((targets.zip values).drop (i + 1)).map (·.1) := by
      rw [List.map_drop, fst]
      intro member
      obtain ⟨j, found⟩ := List.mem_iff_getElem?.mp member
      rw [List.getElem?_drop] at found
      exact later _ (by omega) found
    have split : targets.zip values =
        (targets.zip values).take i ++ (name, v) :: (targets.zip values).drop (i + 1) := by
      rw [← here, List.getElem_cons_drop, List.take_append_drop]
    rw [split]
    exact find?_setAll_last last scope
  case others =>
    intro name other
    exact find?_setAll_of_not_mem (by rwa [fst]) scope
  case names =>
    rw [names_setAll, fst]

end Scope

/-! ### Components -/

/-- What a value gives to so many targets: itself to a single one, and else its items or characters,
if there are exactly as many. -/
inductive Components (s : Store) : Value → Nat → List Value → Prop where
  | whole (v : Value) : Components s v 1 [v]
  | list {r : Ref} {count : Nat} (several : count ≠ 1) (exact_ : (s.items r).length = count) :
      Components s (.list r) count (s.items r)
  | tuple {tag : Tag} {items : List Value} {count : Nat} (several : count ≠ 1)
      (exact_ : items.length = count) : Components s (.tuple tag items) count items
  | text {v : Value} {t : Text} {count : Nat} {values : List Value} (several : count ≠ 1)
      (shown : v.text? = some t) (exact_ : t.length = count)
      (each : List.Forall₂ (fun c x => ∃ tag, x = .text tag [c]) t values) :
      Components s v count values

theorem Components.length {count : Nat} (h : Components s v count values) :
    values.length = count := by
  cases h with
  | whole => rfl
  | list several exact_ => exact exact_
  | tuple several exact_ => exact exact_
  | text several shown exact_ each => exact each.length_eq ▸ exact_

namespace Value

theorem exists_characters (t : Text) (s : Store) :
    ∃ values s', (t.mapM fun c => ofText [c]) s = .ok values s' ∧
      List.Forall₂ (fun c x => ∃ tag, x = .text tag [c]) t values := by
  induction t generalizing s with
  | nil => exact ⟨[], s, rfl, .nil⟩
  | cons c rest ih =>
      obtain ⟨tag, after, first, -⟩ := exists_ofText [c] s
      obtain ⟨values, s', done, each⟩ := ih after
      refine ⟨.text tag [c] :: values, s', ?_, .cons ⟨tag, rfl⟩ each⟩
      rw [List.mapM_cons, bind_eq, first]
      dsimp only
      rw [bind_eq, done]
      rfl

/-- The items, if there are so many. -/
def counted (count : Nat) (items : List Value) : Session (List Value) :=
  if items.length == count then pure items
  else throw (.cause (.wrongUnpackCount count items.length))

/-- Gives all components, or fails for want of them. -/
def Gives (v : Value) (count : Nat) (s : Store) (r : EStateM.Result Stop Store (List Value)) :
    Prop :=
  (∃ values s', r = .ok values s' ∧ Components s v count values) ∨
    (∃ c s', r = .error (.cause c) s') ∧ ∀ values, ¬ Components s v count values

theorem gives_counted {count : Nat} {items : List Value}
    (components : items.length = count → Components s v count items)
    (only : ∀ values, Components s v count values → items.length = count) (s' : Store) :
    Gives v count s (counted count items s') := by
  unfold counted
  by_cases same : items.length = count
  · rw [if_pos (beq_iff_eq.mpr same)]
    exact .inl ⟨items, s', rfl, components same⟩
  · rw [if_neg (by simpa using same)]
    exact .inr ⟨⟨_, s', rfl⟩, fun values h => same (only values h)⟩

theorem gives_characters {count : Nat} {t : Text} (several : count ≠ 1) (shown : v.text? = some t) :
    Gives v count s ((Session.guarded (t.mapM fun c => ofText [c]) >>= counted count) s) := by
  obtain ⟨items, s', done, each⟩ := exists_characters t s
  have characters : Session.guarded (t.mapM fun c => ofText [c]) s = .ok items s' := by
    rw [Session.guarded, done]
  rw [bind_eq, characters]
  refine gives_counted (fun same => ?_) (fun values h => ?_) s'
  · exact .text several shown (by rw [each.length_eq, same]) each
  · rw [← each.length_eq]
    cases h with
    | whole => contradiction
    | list => cases shown
    | tuple => cases shown
    | text several shown' exact_ each =>
        rw [shown] at shown'
        cases shown'
        exact exact_

theorem gives_unpack (v : Value) (count : Nat) (s : Store) :
    Gives v count s (v.unpack count s) := by
  by_cases single : count = 1
  · subst single
    exact .inl ⟨[v], s, rfl, .whole v⟩
  · rw [unpack, if_neg (by simpa using single)]
    have refused (none_ : ∀ values, ¬ Components s v count values) (c : Cause) :
        Gives v count s (.error (.cause c) s) :=
      .inr ⟨⟨c, s, rfl⟩, none_⟩
    cases v with
    | list r =>
        refine gives_counted (.list single) (fun values h => ?_) s
        cases h with
        | whole => contradiction
        | list several exact_ => exact exact_
        | text several shown => cases shown
    | tuple tag items =>
        refine gives_counted (.tuple single) (fun values h => ?_) s
        cases h with
        | whole => contradiction
        | tuple several exact_ => exact exact_
        | text several shown => cases shown
    | text tag t | raw tag t => exact gives_characters single rfl
    | _ =>
        refine refused (fun values h => ?_) _
        cases h with
        | whole => contradiction
        | text several shown => cases shown

end Value

namespace Exec

variable {setup : Setup} {targets : List Text} {expression : Text} {op : Option BinaryOp}
  {m : Machine}

/-- What the targets of an assignment take: the components of the value, or the source text in place
of all of them if there is no value with so many. -/
inductive Taken (env : Env) (targets : List Text) (expression : Text) (op : Option BinaryOp)
    (s : Store) : List Value → Prop where
  | components {v : Value} {s' : Store} {values : List Value}
      (evaluated : Session.evaluate env (assignedExpression targets expression op) s = .ok v s')
      (given : Components s' v targets.length values) : Taken env targets expression op s values
  | source (tag : Tag)
      (missing : ∀ v s',
        Session.evaluate env (assignedExpression targets expression op) s = .ok v s' →
          ∀ values, ¬ Components s' v targets.length values) :
      Taken env targets expression op s (targets.map fun _ => .raw tag expression)

theorem Taken.length {env : Env} {s : Store} {values : List Value}
    (taken : Taken env targets expression op s values) : values.length = targets.length := by
  cases taken with
  | components evaluated given => exact given.length
  | source tag missing => exact List.length_map ..

theorem forM_set (bound : Bindings) (m : Machine) :
    (bound.forM fun (name, v) => set name v) m =
      .ok () { m with scope := m.scope.setAll bound } := by
  induction bound generalizing m with
  | nil => rfl
  | cons b rest ih => exact ih { m with scope := m.scope.set b.1 b.2 }

theorem assign_of_values {values : List Value} {s' : Store}
    (ran : assignedValues targets expression op (m.env setup) m.store = .ok values s') :
    assign setup targets expression op m
      = .ok () { m with store := s', scope := m.scope.setAll (targets.zip values) } := by
  have attempted : attempt setup (assignedValues targets expression op) m
      = .ok (.ok values) { m with store := s' } := by
    simp only [attempt, ran]
  rw [assign, bind_eq, attempted]
  exact forM_set _ { m with store := s' }

-- The source text stands in for what an evaluation does not give.
theorem assign_of_cause {c : Cause} {s' : Store}
    (failed : assignedValues targets expression op (m.env setup) m.store = .error (.cause c) s') :
    ∃ tag s'', assign setup targets expression op m = .ok () { m with
      store := s''
      scope := m.scope.setAll (targets.zip (targets.map fun _ => .raw tag expression)) } := by
  have attempted : attempt setup (assignedValues targets expression op) m
      = .ok (.error c) { m with store := s' } := by
    simp only [attempt, failed]
  rw [assign, bind_eq, attempted]
  exact ⟨_, _, forM_set _ _⟩

theorem assign_taken
    (contained : ¬ Session.Escapes
      (Session.evaluate (m.env setup) (assignedExpression targets expression op)) m.store) :
    ∃ values s', Taken (m.env setup) targets expression op m.store values ∧
      assign setup targets expression op m
        = .ok () { m with store := s', scope := m.scope.setAll (targets.zip values) } := by
  cases evaluated : Session.evaluate (m.env setup) (assignedExpression targets expression op)
      m.store with
  | ok v s =>
      have unpacks : assignedValues targets expression op (m.env setup) m.store
          = v.unpack targets.length s := by
        rw [assignedValues, bind_eq, evaluated]
      obtain ⟨values, s', unpacked, given⟩ | ⟨⟨c, s', refused⟩, none_⟩ :=
        v.gives_unpack targets.length s
      · exact ⟨values, s', .components evaluated given, assign_of_values (unpacks.trans unpacked)⟩
      · obtain ⟨tag, s'', ran⟩ := assign_of_cause (unpacks.trans refused)
        refine ⟨_, s'', .source tag fun w after same => ?_, ran⟩
        rw [evaluated] at same
        cases same
        exact none_
  | error stop s =>
      cases stop with
      | escaped b => exact absurd ⟨_, _, evaluated, b, rfl⟩ contained
      | cause c =>
          have fails : assignedValues targets expression op (m.env setup) m.store
              = .error (.cause c) s := by
            rw [assignedValues, bind_eq, evaluated]
          obtain ⟨tag, s', ran⟩ := assign_of_cause fails
          refine ⟨_, s', .source tag fun w after same => ?_, ran⟩
          rw [evaluated] at same
          cases same

end Exec

/-- An assignment whose evaluation lets no failure escape binds either all targets to their
components of the value or all of them to the source text, and changes nothing else but the store. -/
theorem assignment_all_or_nothing {setup : Setup} {m : Machine} {targets : List Text}
    {expression : Text} {op : Option BinaryOp}
    (contained : ¬ Session.Escapes
      (Session.evaluate (m.env setup) (Exec.assignedExpression targets expression op)) m.store) :
    ∃ values n, Exec.perform setup (.assignment targets expression op) m = .ok () n ∧
      Exec.Taken (m.env setup) targets expression op m.store values ∧
        values.length = targets.length ∧ m.scope.Binds targets values n.scope ∧
          n = { m with store := n.store, scope := n.scope } := by
  obtain ⟨values, s', taken, ran⟩ := Exec.assign_taken contained
  exact ⟨values, _, ran, taken, taken.length, Scope.binds_setAll taken.length m.scope, rfl⟩

-- A text of two characters is bound to a name that is repeated.
theorem assignment_all_or_nothing_repeated :
    ¬ Session.Escapes (Session.evaluate (Machine.initial.env plainSetup) "'xy'".toList)
        Machine.initial.store ∧
      ∃ n v, Exec.perform plainSetup (.assignment [['a'], ['a']] "'xy'".toList none) Machine.initial
          = .ok () n ∧ n.scope.names = [['a']] ∧ n.scope.find? ['a'] = some v := by
  have contained : ¬ Session.Escapes (Session.evaluate (Machine.initial.env plainSetup)
      "'xy'".toList) Machine.initial.store := by
    decide +kernel
  obtain ⟨values, n, ran, taken, same, binds, -⟩ :=
    @assignment_all_or_nothing _ _ [['a'], ['a']] _ none contained
  obtain ⟨v, given⟩ : ∃ v, values[1]? = some v := ⟨_, List.getElem?_eq_getElem (by simp [same])⟩
  refine ⟨contained, n, v, ran, ?_, binds.each 1 ['a'] v rfl given fun j after => ?_⟩
  · rw [binds.names]
    rfl
  · rw [List.getElem?_eq_none (show 2 ≤ j from after)]
    simp

end Snippet
