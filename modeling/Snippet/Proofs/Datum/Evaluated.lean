import Mathlib.Algebra.Order.BigOperators.Group.List
import Mathlib.Algebra.Order.Ring.Nat
import Snippet.Proofs.Datum.Key
import Snippet.Proofs.Datum.Weight
import Snippet.Proofs.Eval.Given

/-!
Evaluating the expression for a datum. It gives a value that is this datum: every container in it is
new, and lies within containers that are newer.
-/

set_option autoImplicit false

namespace Snippet

variable {s s' s'' : Store} {v w : Value} {path : Value.Path}

/-! ### Later stores -/

/-- A later store, in which nothing that was there has changed. -/
structure Store.Leads (s s' : Store) : Prop where
  lists : s.lists.size ≤ s'.lists.size
  dicts : s.dicts.size ≤ s'.dicts.size
  items : ∀ r, r < s.lists.size → s'.items r = s.items r
  entries : ∀ r, r < s.dicts.size → s'.entries r = s.entries r
  tags : s.nextTag ≤ s'.nextTag

namespace Store.Leads

theorem refl (s : Store) : s.Leads s where
  lists := Nat.le_refl _
  dicts := Nat.le_refl _
  items _ _ := rfl
  entries _ _ := rfl
  tags := Nat.le_refl _

theorem trans (first : s.Leads s') (second : s'.Leads s'') : s.Leads s'' where
  lists := Nat.le_trans first.lists second.lists
  dicts := Nat.le_trans first.dicts second.dicts
  items r inside :=
    (second.items r (Nat.lt_of_lt_of_le inside first.lists)).trans (first.items r inside)
  entries r inside :=
    (second.entries r (Nat.lt_of_lt_of_le inside first.dicts)).trans (first.entries r inside)
  tags := Nat.le_trans first.tags second.tags

theorem of_ages (ages : s.Ages s') : s.Leads s' where
  lists := by rw [ages.data.1]
  dicts := by rw [ages.data.2]
  items r _ := by rw [Store.items, Store.items, ages.data.1]
  entries r _ := by rw [Store.entries, Store.entries, ages.data.2]
  tags := ages.tags

theorem pushList (s : Store) (items : List Value) :
    s.Leads { s with lists := s.lists.push items } where
  lists := by simp
  dicts := Nat.le_refl _
  items r inside := by simp [Store.items, Array.getElem?_push, Nat.ne_of_lt inside]
  entries _ _ := rfl
  tags := Nat.le_refl _

theorem pushDict (s : Store) (entries : Entries) :
    s.Leads { s with dicts := s.dicts.push entries } where
  lists := Nat.le_refl _
  dicts := by simp
  items _ _ := rfl
  entries r inside := by simp [Store.entries, Array.getElem?_push, Nat.ne_of_lt inside]
  tags := Nat.le_refl _

end Store.Leads

namespace Value

/-- A container that is not in a store yet. -/
def IsNewer (s : Store) : Value → Prop
  | list r => s.lists.size ≤ r
  | dict r => s.dicts.size ≤ r
  | tuple tag items => s.nextTag ≤ tag ∧ items ≠ []
  | _ => True

/-- A container of a store. -/
def IsOlder (s : Store) : Value → Prop
  | list r => r < s.lists.size
  | dict r => r < s.dicts.size
  | tuple tag items => items ≠ [] → tag < s.nextTag
  | _ => False

theorem IsNewer.mono (newer : v.IsNewer s') (leads : s.Leads s') : v.IsNewer s := by
  cases v with
  | list r => exact Nat.le_trans leads.lists newer
  | dict r => exact Nat.le_trans leads.dicts newer
  | tuple tag items => exact ⟨Nat.le_trans leads.tags newer.1, newer.2⟩
  | _ => trivial

theorem same_eq_false (older : v.IsOlder s) (newer : w.IsNewer s) : same v w = false := by
  cases v with
  | list r =>
      cases w with
      | list q => exact beq_false_of_ne (Nat.ne_of_lt (Nat.lt_of_lt_of_le older newer))
      | _ => rfl
  | dict r =>
      cases w with
      | dict q => exact beq_false_of_ne (Nat.ne_of_lt (Nat.lt_of_lt_of_le older newer))
      | _ => rfl
  | tuple tag items =>
      cases w with
      | tuple tag' others =>
          by_cases empty : items = []
          · have long : (0 == others.length) = false :=
              beq_false_of_ne (Nat.ne_of_lt (List.length_pos_of_ne_nil newer.2))
            rw [same, empty, List.length_nil, long, Bool.and_false]
          · have apart : (tag == tag') = false :=
              beq_false_of_ne (Nat.ne_of_lt (Nat.lt_of_lt_of_le (older empty) newer.1))
            rw [same, apart, Bool.false_and]
      | _ => rfl
  | _ => exact older.elim

theorem not_open (older : v.IsOlder s) (newer : ∀ u ∈ path, u.IsNewer s) :
    path.any (same v) = false := by
  rw [List.any_eq_false]
  intro u member
  rw [same_eq_false older (newer u member)]
  exact Bool.false_ne_true

end Value

/-! ### Values that are given -/

open Evaluate (evalAt entries)
open Value (not_open)

variable {d : Datum} {items : List Datum} {values : List Value}

namespace Datum

/-- An evaluation gives a value that is this datum in every later store, within containers that are
newer. -/
structure Given (d : Datum) (s s' : Store) (v : Value) : Prop where
  leads : s.Leads s'
  tags : v.TagsIn s.nextTag s'.nextTag
  is : ∀ s'' path, s'.Leads s'' → (∀ u ∈ path, Value.IsNewer s' u) → d.Is s'' path v

structure GivenItems (items : List Datum) (s s' : Store) (values : List Value) : Prop where
  leads : s.Leads s'
  tags : ∀ v ∈ values, v.TagsIn s.nextTag s'.nextTag
  is : ∀ s'' path, s'.Leads s'' → (∀ u ∈ path, Value.IsNewer s' u) →
    List.Forall₂ (fun d v => d.Is s'' path v) items values

theorem GivenItems.nil (s : Store) : GivenItems [] s s [] where
  leads := .refl s
  tags := nofun
  is _ _ _ _ := .nil

theorem GivenItems.cons (first : d.Given s s' v) (rest : GivenItems items s' s'' values) :
    GivenItems (d :: items) s s'' (v :: values) where
  leads := first.leads.trans rest.leads
  tags := List.forall_mem_cons.mpr ⟨first.tags.mono (Nat.le_refl _) rest.leads.tags,
    fun v member => (rest.tags v member).mono first.leads.tags (Nat.le_refl _)⟩
  is later path leads newer :=
    .cons (first.is later path (rest.leads.trans leads) fun u member =>
      (newer u member).mono rest.leads) (rest.is later path leads newer)

-- Under a container of its own, which is newer.
theorem GivenItems.under (given : GivenItems items s s' values) (leads : s'.Leads s'')
    (own : w.IsNewer s') (newer : ∀ u ∈ path, Value.IsNewer s' u) :
    items.length = values.length ∧
      ∀ d v, (d, v) ∈ items.zip values → Is s'' (w :: path) d v := by
  have each := given.is s'' (w :: path) leads (List.forall_mem_cons.mpr ⟨own, newer⟩)
  obtain ⟨long, are⟩ := List.forall₂_iff_zip.mp each
  exact ⟨long, fun d v member => are member⟩

theorem GivenItems.list (given : GivenItems items s s' values) :
    (Datum.list items).Given s { s' with lists := s'.lists.push values }
      (.list s'.lists.size) where
  leads := given.leads.trans (.pushList s' values)
  tags := .other nofun
  is s'' path leads newer := by
    have pushed := Store.Leads.pushList s' values
    have older : Value.IsOlder { s' with lists := s'.lists.push values } (.list s'.lists.size) := by
      simp [Value.IsOlder]
    have held : s''.items s'.lists.size = values := by
      rw [leads.items _ older]
      simp [Store.items]
    obtain ⟨long, are⟩ := given.under (w := .list s'.lists.size) (pushed.trans leads)
      (Nat.le_refl _) fun u member => (newer u member).mono pushed
    exact .list (not_open older newer) (held ▸ long) (held ▸ are)

theorem GivenItems.tuple (given : GivenItems items s s' values) {tag : Tag} (ages : s'.Ages s'')
    (own : values ≠ [] → tag = s'.nextTag ∧ s'.nextTag < s''.nextTag) :
    (Datum.tuple items).Given s s'' (.tuple tag values) where
  leads := given.leads.trans (.of_ages ages)
  tags := by
    refine .tuple (fun some_ => ?_) fun v member =>
      (given.tags v member).mono (Nat.le_refl _) ages.tags
    obtain ⟨rfl, below⟩ := own some_
    exact ⟨given.leads.tags, below⟩
  is later path leads newer := by
    have aged := Store.Leads.of_ages ages
    have closed : path.any (Value.same (.tuple tag values)) = false := by
      refine not_open (fun some_ => ?_) newer
      obtain ⟨rfl, below⟩ := own some_
      exact below
    by_cases empty : values = []
    · subst empty
      have none_ := (given.is s' [] (.refl s') nofun).length_eq
      exact .tuple closed none_ (by simp)
    · obtain ⟨rfl, -⟩ := own empty
      obtain ⟨long, are⟩ := given.under (w := .tuple s'.nextTag values) (aged.trans leads)
        ⟨Nat.le_refl _, empty⟩ fun u member => (newer u member).mono aged
      exact .tuple closed long are

structure GivenEntries (es : List (Datum × Datum)) (s s' : Store) (held : Entries) : Prop where
  leads : s.Leads s'
  is : ∀ s'' path, s'.Leads s'' → (∀ u ∈ path, Value.IsNewer s' u) →
    List.Forall₂ (fun (d : Datum × Datum) e => d.1.Is s'' path e.1 ∧ d.2.Is s'' path e.2) es held

variable {es : List (Datum × Datum)} {held : Entries}

-- The value of an entry is given before its key.
theorem GivenEntries.cons {e : Datum × Datum} {t t' : Store} (value : e.2.Given s t v)
    (key : e.1.Given t t' w) (rest : GivenEntries es t' s' held) :
    GivenEntries (e :: es) s s' ((w, v) :: held) where
  leads := value.leads.trans (key.leads.trans rest.leads)
  is later path leads newer := by
    have behind := rest.leads.trans leads
    have outer : ∀ u ∈ path, Value.IsNewer t' u := fun u member => (newer u member).mono rest.leads
    refine .cons ⟨key.is later path behind outer, ?_⟩ (rest.is later path leads newer)
    exact value.is later path (key.leads.trans behind) fun u member =>
      (outer u member).mono key.leads

theorem GivenEntries.dict (given : GivenEntries es s s' held) :
    (Datum.dict es).Given s { s' with dicts := s'.dicts.push held } (.dict s'.dicts.size) where
  leads := given.leads.trans (.pushDict s' held)
  tags := .other nofun
  is s'' path leads newer := by
    have pushed := Store.Leads.pushDict s' held
    have older : Value.IsOlder { s' with dicts := s'.dicts.push held } (.dict s'.dicts.size) := by
      simp [Value.IsOlder]
    have kept : s''.entries s'.dicts.size = held := by
      rw [leads.entries _ older]
      simp [Store.entries]
    have own : Value.IsNewer s' (.dict s'.dicts.size) := Nat.le_refl _
    have each := given.is s'' (.dict s'.dicts.size :: path) (pushed.trans leads)
      (List.forall_mem_cons.mpr ⟨own, fun u member => (newer u member).mono pushed⟩)
    obtain ⟨long, are⟩ := List.forall₂_iff_zip.mp each
    rw [← kept] at long are
    exact .dict (not_open older newer) long (fun d e member => (are member).1)
      fun d e member => (are member).2

/-! ### Evaluating parts -/

/-- Evaluating the expression for a datum gives the datum. -/
def Gives (eval : Evaluate.Evaluator) (d : Datum) : Prop :=
  ∀ s, ∃ v s', eval d.expr s = .ok v s' ∧ d.Given s s' v

variable {eval : Evaluate.Evaluator}

theorem gives_items (each : ∀ d ∈ items, d.Gives eval) (s : Store) :
    ∃ values s', (items.map expr).mapM eval s = .ok values s' ∧ GivenItems items s s' values := by
  induction items generalizing s with
  | nil => exact ⟨[], s, rfl, .nil s⟩
  | cons d rest ih =>
      obtain ⟨here, later⟩ := List.forall_mem_cons.mp each
      obtain ⟨v, t, first, given⟩ := here s
      obtain ⟨values, s', others, all⟩ := ih later t
      refine ⟨v :: values, s', ?_, .cons given all⟩
      rw [List.map_cons, List.mapM_cons]
      exact run_bind_eq_ok.mpr ⟨v, t, first, run_bind_eq_ok.mpr ⟨values, s', others, rfl⟩⟩

theorem insert_of_apart {done : Entries} {key value : Value}
    (apart : ∀ e ∈ done, Value.keyEq key e.1 = false) :
    done.insert key value = done ++ [(key, value)] := by
  induction done with
  | nil => rfl
  | cons e rest ih =>
      obtain ⟨here, later⟩ := List.forall_mem_cons.mp apart
      rw [Entries.insert, here, if_neg Bool.false_ne_true, ih later, List.cons_append]

/-- The key of an entry is a datum that none of these is equal to, and its tags are in use. -/
def IsApart (tag : Tag) (keys : List Datum) (key : Value) : Prop :=
  ∃ d s path, Is s path d key ∧ key.TagsIn 0 tag ∧ ∀ k ∈ keys, ¬ d.Equal k

theorem gives_entries (keys : ∀ e ∈ es, e.1.Gives eval) (values : ∀ e ∈ es, e.2.Gives eval)
    (hashable : ∀ e ∈ es, e.1.Hashable) (distinct : es.Pairwise fun d e => ¬ d.1.Equal e.1)
    (done : Entries) (s : Store)
    (apart : ∀ e ∈ done, IsApart s.nextTag (es.map (·.1)) e.1) :
    ∃ held s', entries eval done (es.map fun e => (e.1.expr, e.2.expr)) s = .ok (done ++ held) s' ∧
      GivenEntries es s s' held := by
  induction es generalizing done s with
  | nil => exact ⟨[], s, by rw [List.append_nil]; rfl, ⟨.refl s, fun _ _ _ _ => .nil⟩⟩
  | cons e rest ih =>
      obtain ⟨v, t, evaluated, of_value⟩ := values e List.mem_cons_self s
      obtain ⟨k, t', keyed, of_key⟩ := keys e List.mem_cons_self t
      have key_hashable := hashable e List.mem_cons_self
      have key_is := of_key.is t' [] (.refl t') nofun
      have new : ∀ f ∈ done, Value.keyEq k f.1 = false := by
        intro f member
        obtain ⟨d, s₀, path, is, tags, unequal⟩ := apart f member
        refine Bool.eq_false_iff.mpr fun same => ?_
        refine unequal e.1 List.mem_cons_self ?_
        exact key_hashable.equal_of_keyEq key_is is of_key.tags tags of_value.leads.tags same
      obtain ⟨first_distinct, rest_distinct⟩ := List.pairwise_cons.mp distinct
      have later := of_value.leads.trans of_key.leads
      have behind : ∀ f ∈ done ++ [(k, v)], IsApart t'.nextTag (rest.map (·.1)) f.1 := by
        refine List.forall_mem_append.mpr ⟨fun f member => ?_, List.forall_mem_singleton.mpr ?_⟩
        · obtain ⟨d, s₀, path, is, tags, unequal⟩ := apart f member
          exact ⟨d, s₀, path, is, tags.mono (Nat.le_refl _) later.tags,
            fun k member => unequal k (List.mem_cons_of_mem _ member)⟩
        · refine ⟨e.1, t', [], key_is, of_key.tags.mono (Nat.zero_le _) (Nat.le_refl _), ?_⟩
          exact List.forall_mem_map.mpr first_distinct
      obtain ⟨held, s', others, all⟩ := ih (fun f member => keys f (List.mem_cons_of_mem e member))
        (fun f member => values f (List.mem_cons_of_mem e member))
        (fun f member => hashable f (List.mem_cons_of_mem e member)) rest_distinct
        (done ++ [(k, v)]) t' behind
      refine ⟨(k, v) :: held, s', ?_, .cons of_value of_key all⟩
      rw [List.map_cons, entries]
      refine run_bind_eq_ok.mpr ⟨v, t, evaluated, run_bind_eq_ok.mpr ⟨k, t', keyed, ?_⟩⟩
      rw [key_hashable.isHashable key_is, insert_of_apart new]
      rw [List.append_assoc] at others
      exact others

/-! ### Weights of parts -/

theorem le_together {weights : List Nat} {n : Nat} (member : n ∈ weights) :
    n ≤ together weights := by
  cases weights with
  | nil => cases member
  | cons m rest => exact List.single_le_sum (fun _ _ => Nat.zero_le _) n member

theorem weight_le_items (member : d ∈ items) : d.weight ≤ together (items.map weight) :=
  le_together (List.mem_map_of_mem member)

theorem weight_le_entries {e : Datum × Datum} (member : e ∈ es) :
    e.1.weight ≤ together (es.flatMap fun e => [e.1.weight, e.2.weight]) ∧
      e.2.weight ≤ together (es.flatMap fun e => [e.1.weight, e.2.weight]) := by
  constructor <;> exact le_together (List.mem_flatMap.mpr ⟨e, member, by simp⟩)

/-! ### Data without parts -/

theorem Given.leaf (ages : s.Ages s') (no_tuple : ∀ tag items, v ≠ .tuple tag items)
    (is : ∀ s path, d.Is s path v) : d.Given s s' v where
  leads := .of_ages ages
  tags := .other no_tuple
  is s'' path _ _ := is s'' path

theorem gives_int (env : Env) (k : Nat) (n : Int) : Gives (evalAt env (k + 2)) (.int n) := by
  intro s
  obtain ⟨tag, t, given, ages⟩ := Value.exists_ofInt n.natAbs s
  by_cases negative : n < 0
  · obtain ⟨tag', s', negated, aged⟩ := Value.exists_ofInt (-(n.natAbs : Int)) t
    have signed : (int n).expr = .unary 0 .minus (.literal 0 (.int n.natAbs)) := if_pos negative
    have same : -(n.natAbs : Int) = n := by omega
    rw [same] at negated
    refine ⟨.int tag' n, s', ?_, .leaf (ages.trans aged) nofun fun s path => .int path tag' n⟩
    rw [signed]
    refine run_bind_eq_ok.mpr ⟨_, t, given, ?_⟩
    show Value.ofInt (-(n.natAbs : Int)) t = _
    rw [same, negated]
  · have unsigned : (int n).expr = .literal 0 (.int n.natAbs) := if_neg negative
    have same : (n.natAbs : Int) = n := by omega
    rw [same] at given
    refine ⟨.int tag n, t, ?_, .leaf ages nofun fun s path => .int path tag n⟩
    rw [unsigned]
    show Value.ofInt (n.natAbs : Int) s = _
    rw [same, given]

/-! ### Data with parts -/

theorem gives_list (env : Env) {k : Nat} (each : ∀ d ∈ items, d.Gives (evalAt env k))
    (light : (list items).weight ≤ maxLength) : (list items).Gives (evalAt env (k + 1)) := by
  intro s
  obtain ⟨values, t, evaluated, given⟩ := gives_items each s
  have is := given.list.is _ [] (.refl _) nofun
  have checked := Value.checked_of_light rfl ((is.weight_le maxLength).trans light)
  refine ⟨_, _, ?_, given.list⟩
  rw [expr_list]
  exact run_bind_eq_ok.mpr ⟨values, t, evaluated, run_bind_eq_ok.mpr ⟨_, _, rfl, checked⟩⟩

theorem gives_tuple (env : Env) {k : Nat} (each : ∀ d ∈ items, d.Gives (evalAt env k))
    (light : (tuple items).weight ≤ maxLength) : (tuple items).Gives (evalAt env (k + 1)) := by
  intro s
  obtain ⟨values, t, evaluated, given⟩ := gives_items each s
  obtain ⟨tag, t', made, ages, own⟩ := Value.exists_ofTuple values t
  have given := given.tuple ages own
  have is := given.is _ [] (.refl _) nofun
  have checked := Value.checked_of_light rfl ((is.weight_le maxLength).trans light)
  refine ⟨_, _, ?_, given⟩
  rw [expr_tuple]
  exact run_bind_eq_ok.mpr ⟨values, t, evaluated, run_bind_eq_ok.mpr ⟨_, _, made, checked⟩⟩

theorem gives_dict (env : Env) {k : Nat} (keys : ∀ e ∈ es, e.1.Gives (evalAt env k))
    (values : ∀ e ∈ es, e.2.Gives (evalAt env k)) (hashable : ∀ e ∈ es, e.1.Hashable)
    (distinct : es.Pairwise fun d e => ¬ d.1.Equal e.1) (light : (dict es).weight ≤ maxLength) :
    (dict es).Gives (evalAt env (k + 1)) := by
  intro s
  obtain ⟨held, t, evaluated, given⟩ := gives_entries keys values hashable distinct [] s nofun
  have is := given.dict.is _ [] (.refl _) nofun
  have checked := Value.checked_of_light rfl ((is.weight_le maxLength).trans light)
  refine ⟨_, _, ?_, given.dict⟩
  rw [expr_dict]
  exact run_bind_eq_ok.mpr ⟨held, t, evaluated, run_bind_eq_ok.mpr ⟨_, _, rfl, checked⟩⟩

/-- Evaluating the expression for a datum that has a written form gives the datum, as long as its
nesting and its weight are within bounds. -/
theorem Literal.gives (literal : d.Literal) (env : Env) {k : Nat} (shallow : d.nesting ≤ k)
    (light : d.weight ≤ maxLength) : Gives (evalAt env (k + 2)) d := by
  -- The parts have one level less to go, and weigh no more than the whole.
  induction literal generalizing k with
  | none => exact fun s => ⟨_, s, rfl, .leaf (.refl s) nofun fun s path => .none path⟩
  | bool b => exact fun s => ⟨_, s, rfl, .leaf (.refl s) nofun fun s path => .bool path b⟩
  | int _ => exact gives_int env k _
  | @text t _ =>
      intro s
      obtain ⟨tag, s', given, ages⟩ := Value.exists_ofText t s
      exact ⟨.text tag t, s', given, .leaf ages nofun fun s path => .text path tag t⟩
  | list literal ih =>
      rw [nesting_list] at shallow
      obtain ⟨less, rfl⟩ : ∃ less, k = less + 1 := ⟨k - 1, by omega⟩
      refine gives_list env (fun d member => ?_) light
      have deep := le_nesting member
      rw [weight_list] at light
      exact ih d member (by omega) ((weight_le_items member).trans light)
  | tuple literal ih =>
      rw [nesting_tuple] at shallow
      obtain ⟨less, rfl⟩ : ∃ less, k = less + 1 := ⟨k - 1, by omega⟩
      refine gives_tuple env (fun d member => ?_) light
      have deep := le_nesting member
      rw [weight_tuple] at light
      exact ih d member (by omega) ((weight_le_items member).trans light)
  | @dict es ofKeys ofValues hashable distinct ihKeys ihValues =>
      rw [nesting_dict] at shallow
      obtain ⟨less, rfl⟩ : ∃ less, k = less + 1 := ⟨k - 1, by omega⟩
      have depth : (es.map fun e => max e.1.nesting e.2.nesting).foldr max 0 ≤ less := by omega
      have deep {e : Datum × Datum} (member : e ∈ es) :=
        Nat.max_le.mp ((le_nesting_entries member).trans depth)
      have parts {e : Datum × Datum} (member : e ∈ es) :
          e.1.weight ≤ maxLength ∧ e.2.weight ≤ maxLength := by
        rw [weight_dict] at light
        have below := weight_le_entries member
        exact ⟨below.1.trans light, below.2.trans light⟩
      exact gives_dict env
        (fun e member => ihKeys e member (deep member).1 (parts member).1)
        (fun e member => ihValues e member (deep member).2 (parts member).2)
        hashable distinct light

end Datum

end Snippet
