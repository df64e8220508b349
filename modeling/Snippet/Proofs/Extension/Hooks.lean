import Snippet.Proofs.Extension.Registration

/-!
The order of hooks. After any series of registrations they stand as one stable sort of all that were
accepted: by falling priority, those of one priority as they were registered. An occasion runs those
of its event in this order, up to the first that fails.
-/

set_option autoImplicit false

namespace Snippet

namespace Hook

/-- By falling priority. -/
def Falling (hooks : List Hook) : Prop :=
  hooks.Pairwise fun a b => b.priority ≤ a.priority

/-- May run before another one: its priority is at least as high. -/
def ranks (a b : Hook) : Bool :=
  b.priority ≤ a.priority

def ofPriority (hooks : List Hook) (priority : Int) : List Hook :=
  hooks.filter fun h => h.priority == priority

theorem mem_ofPriority {hook : Hook} {hooks : List Hook} {priority : Int} :
    hook ∈ ofPriority hooks priority ↔ hook ∈ hooks ∧ hook.priority = priority := by
  simp [ofPriority]

theorem ofPriority_cons (hook : Hook) (hooks : List Hook) (priority : Int) :
    ofPriority (hook :: hooks) priority =
      if hook.priority = priority then hook :: ofPriority hooks priority
      else ofPriority hooks priority := by
  simp [ofPriority, List.filter_cons]

theorem ofPriority_append (hooks more : List Hook) (priority : Int) :
    ofPriority (hooks ++ more) priority = ofPriority hooks priority ++ ofPriority more priority :=
  List.filter_append hooks more

/-! ### Stable sorting -/

section Sorting

variable {hook first : Hook} {hooks others rest : List Hook} {priority : Int}

theorem ranks_trans (a b c : Hook) (above : ranks a b = true) (below : ranks b c = true) :
    ranks a c = true := by
  simp only [ranks, decide_eq_true_eq] at above below ⊢
  omega

theorem ranks_total (a b : Hook) : (ranks a b || ranks b a) = true := by
  simp only [ranks, Bool.or_eq_true, decide_eq_true_eq]
  omega

theorem falling_mergeSort (hooks : List Hook) : Falling (hooks.mergeSort ranks) := by
  have sorted := List.pairwise_mergeSort ranks_trans ranks_total hooks
  exact sorted.imp fun above => by simpa [ranks] using above

-- The sort keeps hooks of one priority as they stand.
theorem ofPriority_mergeSort (hooks : List Hook) (priority : Int) :
    ofPriority (hooks.mergeSort ranks) priority = ofPriority hooks priority := by
  have level : (ofPriority hooks priority).Pairwise fun a b => ranks a b = true := by
    apply List.pairwise_of_forall_mem_list
    intro a member b other
    rw [ranks, (mem_ofPriority.mp member).2, (mem_ofPriority.mp other).2]
    exact decide_eq_true (Int.le_refl _)
  have kept := List.sublist_mergeSort ranks_trans ranks_total level List.filter_sublist
  have inside :
      (ofPriority hooks priority).Sublist (ofPriority (hooks.mergeSort ranks) priority) := by
    have again := kept.filter fun h => h.priority == priority
    simpa only [ofPriority, List.filter_filter, Bool.and_self] using again
  exact (inside.eq_of_length ((List.mergeSort_perm hooks ranks).filter _).length_eq.symm).symm

theorem Falling.tail (sorted : Falling (first :: rest)) : Falling rest :=
  (List.pairwise_cons.mp sorted).2

theorem Falling.le_head (sorted : Falling (first :: rest)) (member : hook ∈ first :: rest) :
    hook.priority ≤ first.priority := by
  obtain rfl | member := List.mem_cons.mp member
  · exact Int.le_refl _
  · exact (List.pairwise_cons.mp sorted).1 hook member

theorem mem_iff_of_ofPriority
    (same : ∀ priority, ofPriority hooks priority = ofPriority others priority) (hook : Hook) :
    hook ∈ hooks ↔ hook ∈ others := by
  have both := congrArg (hook ∈ ·) (same hook.priority)
  simpa [mem_ofPriority] using both

-- A list by falling priority is known by its hooks of each priority.
theorem Falling.eq_of_ofPriority (sorted : Falling hooks) (other_sorted : Falling others)
    (same : ∀ priority, ofPriority hooks priority = ofPriority others priority) :
    hooks = others := by
  have mem_iff := mem_iff_of_ofPriority same
  induction hooks generalizing others with
  | nil =>
      have none_left : ∀ hook, hook ∉ others := fun hook member => by
        simpa using (mem_iff hook).mpr member
      exact (List.eq_nil_iff_forall_not_mem.mpr none_left).symm
  | cons first rest ih =>
      cases others with
      | nil => simpa using mem_iff first
      | cons second others =>
          -- Both first hooks are in both lists, so neither has the higher priority.
          have level : first.priority = second.priority := Int.le_antisymm
            (other_sorted.le_head ((mem_iff first).mp List.mem_cons_self))
            (sorted.le_head ((mem_iff second).mpr List.mem_cons_self))
          have heads := same first.priority
          rw [ofPriority_cons, ofPriority_cons, if_pos rfl, if_pos level.symm] at heads
          obtain rfl : first = second := (List.cons.inj heads).1
          have tails (priority : Int) : ofPriority rest priority = ofPriority others priority := by
            have whole := same priority
            rw [ofPriority_cons, ofPriority_cons] at whole
            split at whole
            · exact (List.cons.inj whole).2
            · exact whole
          rw [ih sorted.tail other_sorted.tail tails (mem_iff_of_ofPriority tails)]

theorem ofPriority_insert (hook : Hook) (sorted : Falling hooks) (priority : Int) :
    ofPriority (hook.insert hooks) priority = ofPriority (hooks ++ [hook]) priority := by
  induction hooks with
  | nil => rfl
  | cons first rest ih =>
      by_cases higher : first.priority < hook.priority
      · have below : ofPriority (first :: rest) hook.priority = [] := by
          refine List.eq_nil_iff_forall_not_mem.mpr fun other member => ?_
          obtain ⟨member, level⟩ := mem_ofPriority.mp member
          have bounded := sorted.le_head member
          omega
        rw [insert, if_pos higher, ofPriority_append, ofPriority_cons hook, ofPriority_cons hook]
        by_cases level : hook.priority = priority
        · subst level
          rw [if_pos rfl, if_pos rfl, below]
          rfl
        · rw [if_neg level, if_neg level]
          exact (List.append_nil _).symm
      · rw [insert, if_neg higher, List.cons_append, ofPriority_cons, ofPriority_cons,
          ih sorted.tail]

-- Adding a hook behind those of its priority is the sort of the longer history.
theorem insert_mergeSort (hook : Hook) (history : List Hook) :
    hook.insert (history.mergeSort ranks) = (history ++ [hook]).mergeSort ranks := by
  have sorted := falling_mergeSort history
  refine Falling.eq_of_ofPriority (pairwise_insert hook _ sorted) (falling_mergeSort _) fun p => ?_
  rw [ofPriority_insert hook sorted, ofPriority_append, ofPriority_mergeSort, ofPriority_mergeSort,
    ofPriority_append]

theorem ofEvent_mergeSort (history : List Hook) (event : Event) :
    ofEvent (history.mergeSort ranks) event = (ofEvent history event).mergeSort ranks := by
  refine Falling.eq_of_ofPriority ((falling_mergeSort history).filter _) (falling_mergeSort _)
    fun priority => ?_
  rw [ofPriority_mergeSort]
  calc ofPriority (ofEvent (history.mergeSort ranks) event) priority
      = ofEvent (ofPriority (history.mergeSort ranks) priority) event := List.filter_comm _ _ _
    _ = ofEvent (ofPriority history priority) event := by rw [ofPriority_mergeSort]
    _ = ofPriority (ofEvent history event) priority := List.filter_comm _ _ _

end Sorting

/-! ### Emission -/

section Emission

variable {builtins : List Builtin} {occasion : Occasion} {hook : Hook} {hooks rest : List Hook}
  {w after : Workspace}

/-- The hooks run one after the other, and none of them fails. -/
inductive Ran (builtins : List Builtin) (occasion : Occasion) :
    List Hook → Workspace → Workspace → Prop
  | nil (w : Workspace) : Ran builtins occasion [] w w
  | cons {hook : Hook} {rest : List Hook} {w next after : Workspace}
      (first : hook.act builtins occasion w = .ok () next)
      (others : Ran builtins occasion rest next after) :
      Ran builtins occasion (hook :: rest) w after

/-- The hooks run one after the other up to one that fails; none behind it runs. -/
def RanUpTo (builtins : List Builtin) (occasion : Occasion) (hooks : List Hook) (w : Workspace)
    (halt : Halt) (after : Workspace) : Prop :=
  ∃ front hook behind next, hooks = front ++ hook :: behind ∧
    Ran builtins occasion front w next ∧ hook.act builtins occasion next = .error halt after

theorem ran_cons : Ran builtins occasion (hook :: rest) w after ↔
    ∃ next, hook.act builtins occasion w = .ok () next ∧ Ran builtins occasion rest next after := by
  constructor
  · intro ran
    cases ran with
    | cons first others => exact ⟨_, first, others⟩
  · rintro ⟨next, first, others⟩
    exact .cons first others

theorem ranUpTo_cons {halt : Halt} : RanUpTo builtins occasion (hook :: rest) w halt after ↔
    hook.act builtins occasion w = .error halt after ∨
      ∃ next, hook.act builtins occasion w = .ok () next ∧
        RanUpTo builtins occasion rest next halt after := by
  constructor
  · rintro ⟨front, failing, behind, last, split, ran, failed⟩
    cases ran with
    | nil =>
        obtain ⟨rfl, rfl⟩ := List.cons.inj split
        exact .inl failed
    | cons first others =>
        obtain ⟨rfl, rfl⟩ := List.cons.inj split
        exact .inr ⟨_, first, _, failing, behind, last, rfl, others, failed⟩
  · rintro (failed | ⟨next, first, front, failing, behind, last, rfl, ran, failed⟩)
    · exact ⟨[], hook, rest, w, rfl, .nil w, failed⟩
    · exact ⟨hook :: front, failing, behind, last, rfl, .cons first ran, failed⟩

/-- All hooks of a list, one after the other. -/
def runAll (hooks : List Hook) (builtins : List Builtin) (occasion : Occasion) : Action Unit :=
  hooks.forM fun h => h.act builtins occasion

theorem runAll_cons : runAll (hook :: rest) builtins occasion =
    hook.act builtins occasion >>= fun _ => runAll rest builtins occasion := rfl

theorem runAll_eq_ok :
    runAll hooks builtins occasion w = .ok () after ↔ Ran builtins occasion hooks w after := by
  induction hooks generalizing w with
  | nil =>
      constructor
      · rintro ⟨⟩
        exact .nil after
      · rintro ⟨⟩
        rfl
  | cons hook rest ih =>
      rw [runAll_cons, run_bind_eq_ok, ran_cons]
      simp only [ih]
      exact ⟨fun ⟨(), next, h⟩ => ⟨next, h⟩, fun ⟨next, h⟩ => ⟨(), next, h⟩⟩

theorem runAll_eq_error {halt : Halt} : runAll hooks builtins occasion w = .error halt after ↔
    RanUpTo builtins occasion hooks w halt after := by
  induction hooks generalizing w with
  | nil =>
      constructor
      · rintro ⟨⟩
      · rintro ⟨front, hook, behind, next, split, -⟩
        simp at split
  | cons hook rest ih =>
      rw [runAll_cons, bind_eq, ranUpTo_cons]
      cases ran : hook.act builtins occasion w with
      | ok _ next => simp [ih]
      | error halt next => simp

theorem emit_eq_ok : emit hooks builtins occasion w = .ok () after ↔
    Ran builtins occasion (ofEvent hooks occasion.event) w after := by
  rw [← runAll_eq_ok, emit, runAll]
  cases (ofEvent hooks occasion.event).forM (fun h => h.act builtins occasion) w <;> simp

theorem emit_eq_error {e : Error} : emit hooks builtins occasion w = .error e after ↔
    ∃ halt, RanUpTo builtins occasion (ofEvent hooks occasion.event) w halt after ∧
      failure occasion.event halt = e := by
  simp only [← runAll_eq_error, emit, runAll]
  cases (ofEvent hooks occasion.event).forM (fun h => h.act builtins occasion) w <;>
    simp [and_comm]

end Emission

end Hook

/-! ### Registrations -/

/-- The hook that a request adds: none if it asks for something else, or for an unknown event. -/
def Request.hook? (extension : Text) : Request → Option Hook
  | .hook name priority act =>
      (Event.ofName? name).map fun event => { event, priority, extension, act }
  | .metadata _ | .builtin .. => none

/-- The hooks that a series of calls adds, as they are registered. -/
def registeredHooks (calls : List (Text × Request)) : List Hook :=
  calls.filterMap fun call => call.2.hook? call.1

open Registration (ask ask_cases)

variable {s : Services}

theorem hook_accepted_iff (s : Services) (extension name : Text) (priority : Int)
    (act : List Builtin → Occasion → Action Unit) :
    (∃ s', ask extension (.hook name priority act) s = .ok () s') ↔
      (Event.ofName? name).isSome := by
  rw [ask, Registration.addHook]
  cases Event.ofName? name with
  | none =>
      constructor
      · rintro ⟨s', accepted⟩
        cases accepted
      · intro known
        cases known
  | some event => exact ⟨fun _ => rfl, fun _ => ⟨_, rfl⟩⟩

theorem hook?_of_refused {extension : Text} {request : Request} {refusal : Refusal} {s' : Services}
    (refused : ask extension request s = .error refusal s') : request.hook? extension = none := by
  cases request with
  | metadata m | builtin b doc => rfl
  | hook name priority act =>
      cases known : Event.ofName? name with
      | none => rw [Request.hook?, known]; rfl
      | some event =>
          rw [ask, Registration.addHook, known] at refused
          cases refused

-- One call keeps the hooks sorted: they are the stable sort of those registered so far.
theorem Services.hooks_after {history : List Hook} (sorted : s.hooks = history.mergeSort Hook.ranks)
    (call : Text × Request) : (s.after call).hooks
      = (history ++ (call.2.hook? call.1).toList).mergeSort Hook.ranks := by
  obtain ⟨extension, request⟩ := call
  rw [Services.after]
  obtain ⟨refusal, refused⟩ | ⟨s', done, accept⟩ := ask_cases extension request s
  · simpa [refused, hook?_of_refused refused] using sorted
  · rw [done]
    cases accept with
    | metadata m | builtin b doc named ranged apart fresh => simpa [Request.hook?] using sorted
    | hook name event priority act known =>
        simp [Request.hook?, known, sorted, Hook.insert_mergeSort]

theorem Services.hooks_afterAll {history : List Hook}
    (sorted : s.hooks = history.mergeSort Hook.ranks) (calls : List (Text × Request)) :
    (calls.foldl Services.after s).hooks
      = (history ++ registeredHooks calls).mergeSort Hook.ranks := by
  induction calls generalizing s history with
  | nil => simpa [registeredHooks] using sorted
  | cons call rest ih =>
      rw [List.foldl_cons, ih (Services.hooks_after sorted call), List.append_assoc]
      cases added : call.2.hook? call.1 <;> simp [registeredHooks, added]

/-- After any series of registrations, some of them refused, the hooks of an event are those that
were accepted for it, each as often as it was registered, in one stable sort: by falling priority,
and those of one priority in the order of registration, whichever extension asked. A hook is
refused exactly if its event is unknown. An occasion runs the hooks of its event in this order, and
ends with the failure of the first that fails. -/
theorem hooks_in_order (calls : List (Text × Request)) :
    let s := calls.foldl Services.after .empty
    let accepted := Hook.ofEvent (registeredHooks calls)
    (∀ extension name priority act, (∃ s', ask extension (.hook name priority act) s = .ok () s') ↔
      (Event.ofName? name).isSome) ∧
      (∀ event, Hook.ofEvent s.hooks event = (accepted event).mergeSort Hook.ranks ∧
        (Hook.ofEvent s.hooks event).Perm (accepted event) ∧
          Hook.Falling (Hook.ofEvent s.hooks event) ∧
            (∀ priority, Hook.ofPriority (Hook.ofEvent s.hooks event) priority
              = Hook.ofPriority (accepted event) priority) ∧
              s.handlers event = ((accepted event).mergeSort Hook.ranks).map (·.extension)) ∧
        ∀ builtins occasion w after,
          let handlers := (accepted occasion.event).mergeSort Hook.ranks
          (Hook.emit s.hooks builtins occasion w = .ok () after ↔
            Hook.Ran builtins occasion handlers w after) ∧
            ∀ e, Hook.emit s.hooks builtins occasion w = .error e after ↔
              ∃ halt, Hook.RanUpTo builtins occasion handlers w halt after ∧
                Hook.failure occasion.event halt = e := by
  intro s accepted
  have sorted : s.hooks = (registeredHooks calls).mergeSort Hook.ranks := by
    have none_yet : Services.empty.hooks = [].mergeSort Hook.ranks := List.mergeSort_nil.symm
    exact Services.hooks_afterAll none_yet calls
  have in_order (event : Event) :
      Hook.ofEvent s.hooks event = (accepted event).mergeSort Hook.ranks := by
    rw [sorted, Hook.ofEvent_mergeSort]
  refine ⟨fun extension name priority act => hook_accepted_iff s extension name priority act,
    fun event => ?_, fun builtins occasion w after => ?_⟩
  · rw [Services.handlers, in_order]
    exact ⟨rfl, List.mergeSort_perm _ _, Hook.falling_mergeSort _,
      Hook.ofPriority_mergeSort _, rfl⟩
  · rw [← in_order]
    exact ⟨Hook.emit_eq_ok, fun e => Hook.emit_eq_error⟩

end Snippet
