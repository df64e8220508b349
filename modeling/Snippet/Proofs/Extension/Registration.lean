import Mathlib.Data.List.Nodup
import Snippet.Extension
import Snippet.Proofs.Program

/-!
Registrations, accepted and refused. All checks come before the change, so a refused one leaves what
is provided as it is. Accepted functions have names of their own, which is why an interpreter that
adds them to its table finds none of them there.
-/

set_option autoImplicit false

namespace Snippet

open Registration (ask addBuiltin registerBuiltin addHook)

variable {s s' : Services} {extension : Text} {request : Request} {p : Provided} {b : Builtin}

namespace Registration

/-- What an accepted request leaves. -/
inductive Accepted (extension : Text) (s : Services) : Request → Services → Prop where
  | metadata (m : Metadata) :
      Accepted extension s (.metadata m) { s with metadata := s.metadata ++ [m] }
  | builtin (b : Builtin) (doc : Text) (named : isName b.name = true)
      (ranged : ∀ most, b.most = some most → b.least ≤ most)
      (apart : Builtin.find? Builtin.core b.name = none)
      (fresh : ∀ p ∈ s.provided, p.builtin.name ≠ b.name) :
      Accepted extension s (.builtin b doc)
        { s with provided := s.provided ++ [{ builtin := b, doc, extension }] }
  | hook (name : Text) (event : Event) (priority : Int)
      (act : List Builtin → Occasion → Action Unit) (known : Event.ofName? name = some event) :
      Accepted extension s (.hook name priority act)
        { s with hooks := Hook.insert { event, priority, extension, act } s.hooks }

theorem addBuiltin_cases (p : Provided) (s : Services) :
    (∃ refusal, addBuiltin p s = .error refusal s) ∨
      Builtin.find? Builtin.core p.builtin.name = none ∧
        (∀ q ∈ s.provided, q.builtin.name ≠ p.builtin.name) ∧
          addBuiltin p s = .ok () { s with provided := s.provided ++ [p] } := by
  cases taken : Builtin.find? Builtin.core p.builtin.name with
  | some b => exact .inl ⟨_, by rw [addBuiltin, taken]; rfl⟩
  | none =>
      have current : (get : Registration Services) s = .ok s s := rfl
      cases found : s.provided.find? fun q => q.builtin.name == p.builtin.name with
      | some q =>
          refine .inl ⟨.duplicateBuiltin p.builtin.name p.extension q.extension, ?_⟩
          simp only [addBuiltin, taken, Option.isSome_none, Bool.false_eq_true, if_false, bind_eq,
            current, found]
          rfl
      | none =>
          refine .inr ⟨rfl, by simpa using found, ?_⟩
          simp only [addBuiltin, taken, Option.isSome_none, Bool.false_eq_true, if_false, bind_eq,
            current, found]
          rfl

theorem registerBuiltin_cases (p : Provided) (s : Services) :
    (∃ refusal, registerBuiltin p s = .error refusal s) ∨
      isName p.builtin.name = true ∧
        (∀ most, p.builtin.most = some most → p.builtin.least ≤ most) ∧
          registerBuiltin p s = addBuiltin p s := by
  rw [registerBuiltin]
  cases named : isName p.builtin.name with
  | false => exact .inl ⟨_, rfl⟩
  | true =>
      cases bound : p.builtin.most with
      | none => exact .inr ⟨rfl, nofun, rfl⟩
      | some most =>
          by_cases empty : most < p.builtin.least
          · exact .inl ⟨.emptyRange p.builtin.name p.builtin.least most, by simp [empty]; rfl⟩
          · refine .inr ⟨rfl, fun _ same => ?_, by simp [empty]⟩
            cases same
            exact Int.not_lt.mp empty

-- A request is refused with what is provided as it is, or accepted.
theorem ask_cases (extension : Text) (request : Request) (s : Services) :
    (∃ refusal, ask extension request s = .error refusal s) ∨
      ∃ s', ask extension request s = .ok () s' ∧ Accepted extension s request s' := by
  cases request with
  | metadata m => exact .inr ⟨_, rfl, .metadata m⟩
  | builtin b doc =>
      let p : Provided := { builtin := b, doc, extension }
      obtain refused | ⟨named, ranged, same⟩ := registerBuiltin_cases p s
      · exact .inl refused
      obtain ⟨refusal, refused⟩ | ⟨apart, fresh, added⟩ := addBuiltin_cases p s
      · exact .inl ⟨refusal, same.trans refused⟩
      · exact .inr ⟨_, same.trans added, .builtin b doc named ranged apart fresh⟩
  | hook name priority act =>
      cases known : Event.ofName? name with
      | some event =>
          refine .inr ⟨_, ?_, .hook name event priority act known⟩
          rw [ask, addHook, known]
          rfl
      | none =>
          refine .inl ⟨.unknownEvent name, ?_⟩
          rw [ask, addHook, known]
          rfl

end Registration

namespace Services

open Registration (Accepted ask_cases)

/-- What is provided after an extension has asked for something, also if it was refused. -/
def after (s : Services) (call : Text × Request) : Services :=
  match ask call.1 call.2 s with
  | .ok () s' | .error _ s' => s'

/-- The functions that are accepted in a series of calls, some of which may be refused. -/
def accepted : Services → List (Text × Request) → List Provided
  | _, [] => []
  | s, call :: rest =>
      match call.2, ask call.1 call.2 s with
      | .builtin b doc, .ok () s' =>
          { builtin := b, doc, extension := call.1 } :: accepted s' rest
      | _, _ => accepted (s.after call) rest

/-- The functions that are provided have names of their own. -/
structure Consistent (s : Services) : Prop where
  distinct : (s.provided.map (·.builtin.name)).Nodup
  apart : ∀ p ∈ s.provided, Builtin.find? Builtin.core p.builtin.name = none
  named : ∀ p ∈ s.provided, isName p.builtin.name = true

theorem consistent_empty : empty.Consistent :=
  ⟨.nil, nofun, nofun⟩

theorem Consistent.accept (h : s.Consistent) (accept : Accepted extension s request s') :
    s'.Consistent := by
  cases accept with
  | metadata m => exact ⟨h.distinct, h.apart, h.named⟩
  | builtin b doc named ranged apart fresh =>
      constructor
      · rw [List.map_append, List.nodup_append]
        refine ⟨h.distinct, by simp, fun name taken last new same => ?_⟩
        obtain ⟨p, member, rfl⟩ := List.mem_map.mp taken
        exact fresh p member (same.trans (by simpa using new))
      · simpa [or_imp, forall_and] using And.intro h.apart apart
      · simpa [or_imp, forall_and] using And.intro h.named named
  | hook name event priority act known => exact ⟨h.distinct, h.apart, h.named⟩

theorem Consistent.after (h : s.Consistent) (call : Text × Request) : (s.after call).Consistent := by
  rw [Services.after]
  obtain ⟨refusal, refused⟩ | ⟨s', done, accept⟩ := ask_cases call.1 call.2 s
  · rw [refused]
    exact h
  · rw [done]
    exact h.accept accept

theorem Consistent.afterAll (h : s.Consistent) (calls : List (Text × Request)) :
    (calls.foldl Services.after s).Consistent := by
  induction calls generalizing s with
  | nil => exact h
  | cons call rest ih => exact ih (h.after call)

-- Only accepted functions are provided, in the order of the calls.
theorem provided_afterAll (s : Services) (calls : List (Text × Request)) :
    (calls.foldl Services.after s).provided = s.provided ++ s.accepted calls := by
  induction calls generalizing s with
  | nil => exact (List.append_nil _).symm
  | cons call rest ih =>
      obtain ⟨extension, request⟩ := call
      rw [List.foldl_cons, ih, accepted]
      obtain ⟨refusal, refused⟩ | ⟨s', done, accept⟩ := ask_cases extension request s
      · simp only [Services.after, refused]
      · simp only [Services.after, done]
        cases accept with
        | metadata m | hook name event priority act known => rfl
        | builtin b doc named ranged apart fresh => simp

/-! ### The table of an interpreter -/

theorem find?_eq_none_of_forall {table : List Builtin} {name : Text}
    (other : ∀ b ∈ table, b.name ≠ name) : Builtin.find? table name = none :=
  List.find?_eq_none.mpr fun b member same => other b member (by simpa using same)

theorem extend_all {table more : List Builtin} (distinct : ((table ++ more).map (·.name)).Nodup) :
    more.foldlM Builtin.extend table = .ok (table ++ more) := by
  induction more generalizing table with
  | nil => rw [List.append_nil]; rfl
  | cons b rest ih =>
      have fresh : Builtin.find? table b.name = none := by
        refine find?_eq_none_of_forall fun c member same => ?_
        rw [List.map_append, List.nodup_append] at distinct
        exact distinct.2.2 c.name (List.mem_map_of_mem member) b.name (by simp) same
      have added : Builtin.extend table b = .ok (table ++ [b]) := by
        rw [Builtin.extend, fresh]
        rfl
      rw [List.foldlM_cons, added]
      have last := @ih (table ++ [b]) (by simpa using distinct)
      rw [List.append_assoc] at last
      exact last

-- In a table of distinct names each function is found under its own.
theorem find?_of_mem {table : List Builtin} (distinct : (table.map (·.name)).Nodup)
    (member : b ∈ table) : Builtin.find? table b.name = some b := by
  obtain ⟨c, found⟩ : ∃ c, Builtin.find? table b.name = some c :=
    Option.isSome_iff_exists.mp (List.find?_isSome.mpr ⟨b, member, beq_self_eq_true b.name⟩)
  have same : c.name = b.name := by simpa using List.find?_some found
  rw [found, List.inj_on_of_nodup_map distinct (List.mem_of_find?_eq_some found) member same]

theorem distinct_core : (Builtin.core.map (·.name)).Nodup := by
  decide

theorem Consistent.core_ne (h : s.Consistent) (member : p ∈ s.provided) {b : Builtin}
    (core : b ∈ Builtin.core) : p.builtin.name ≠ b.name := by
  intro same
  have absent := List.find?_eq_none.mp (h.apart p member) b core
  exact absent (by simpa using same.symm)

theorem Consistent.distinct_builtins (h : s.Consistent) : (s.builtins.map (·.name)).Nodup := by
  rw [builtins, List.map_append, List.nodup_append, List.map_map]
  refine ⟨distinct_core, h.distinct, fun name core other provided same => ?_⟩
  obtain ⟨b, member, rfl⟩ := List.mem_map.mp core
  obtain ⟨p, of_p, rfl⟩ := List.mem_map.mp provided
  exact h.core_ne of_p member same.symm

theorem Consistent.table_eq (h : s.Consistent) : s.table = .ok s.builtins :=
  extend_all h.distinct_builtins

end Services

/-- Whatever extensions ask for, the functions that are provided keep names of their own, apart from
each other and from the core; a request that is refused changes nothing; and an interpreter can
always be constructed: its table has the functions of the core and those that were accepted, each
of them under its own name. -/
theorem registrations_consistent (calls : List (Text × Request)) :
    let s := calls.foldl Services.after .empty
    let accepted := Services.empty.accepted calls
    (s.provided.map (·.builtin.name)).Nodup ∧
      (∀ p ∈ s.provided, ∀ b ∈ Builtin.core, p.builtin.name ≠ b.name) ∧
        (∀ extension request refusal s', ask extension request s = .error refusal s' → s' = s) ∧
          s.provided = accepted ∧
            ∀ filename verbose sink, ∃ setup, s.construct filename verbose sink = .ok setup ∧
              setup.builtins = Builtin.core ++ accepted.map (·.builtin) ∧
                ∀ b ∈ setup.builtins, Builtin.find? setup.builtins b.name = some b := by
  intro s accepted
  have consistent : s.Consistent := Services.consistent_empty.afterAll calls
  have provided : s.provided = accepted := Services.provided_afterAll .empty calls
  refine ⟨consistent.distinct, fun p member b core => consistent.core_ne member core, ?_, provided,
    fun filename verbose sink => ⟨s.setup filename verbose sink, ?_, ?_, ?_⟩⟩
  · intro extension request refusal s' refused
    obtain ⟨_, kept⟩ | ⟨_, done, -⟩ := Registration.ask_cases extension request s
    · rw [kept] at refused
      cases refused
      rfl
    · rw [done] at refused
      cases refused
  · rw [Services.construct, consistent.table_eq]
    rfl
  · rw [← provided]
    rfl
  · exact fun b member => Services.find?_of_mem consistent.distinct_builtins member

end Snippet
