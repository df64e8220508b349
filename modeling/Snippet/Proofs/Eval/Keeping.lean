import Snippet.Proofs.Eval.Free
import Snippet.Proofs.Eval.Limits

/-!
Evaluations that keep to the limits. `Keeps` is for those that hold on to no new list or dict;
`Safe` for those after which more lists and dicts are known to keep to their limit, since a value
that is checked may be held.
-/

set_option autoImplicit false

namespace Snippet

open Value (solids solidEntries weight)

variable {α β : Type} {w w' : Limits} {s s' : Store} {v : Value}

/-- A value that is within the limits once it passes the check of its size. -/
def Value.Pending (w : Limits) (s : Store) : Value → Prop
  | .tuple _ items => ∀ v ∈ items, v.Within w
  | .list r => r < s.lists.size
  | .dict r => r < s.dicts.size
  | .view _ _ r => r ∈ w.dicts
  | .builtin name => name ∈ w.functions
  | _ => True

theorem Value.Within.pending (within : v.Within w) (held : s.Within w) : v.Pending w s := by
  cases within with
  | tuple tag fits each => exact each
  | list known => exact held.held_lists _ known
  | dict known => exact held.held_dicts _ known
  | view tag kind known => exact known
  | builtin known => exact known
  | _ => trivial

theorem Value.pending_of_free (free : v.isFree = true) : v.Pending w s := by
  cases v <;> trivial

namespace Eval

/-- Keeps a store within the limits, and ends in one at which a condition holds of the result. -/
def KeepsAt (w : Limits) (s : Store) (m : Eval α) (Q : Store → α → Prop) : Prop :=
  match m s with
  | .ok a s' => s'.Within w ∧ Q s' a
  | .error _ s' => s'.Within w

def Keeps (w : Limits) (m : Eval α) (Q : Store → α → Prop) : Prop :=
  ∀ s, s.Within w → KeepsAt w s m Q

variable {m : Eval α} {next : α → Eval β} {P : α → Prop} {Q Q' : Store → α → Prop}
  {R : Store → β → Prop}

-- The limits may change on the way, if what is within the first ones is within the others.
theorem KeepsAt.bind_into (weaker : ∀ s : Store, s.Within w → s.Within w') (first : KeepsAt w s m Q)
    (then_ : ∀ a s', s'.Within w → Q s' a → KeepsAt w' s' (next a) R) :
    KeepsAt w' s (m >>= next) R := by
  rw [KeepsAt] at first ⊢
  rw [bind_eq]
  cases ran : m s with
  | ok a s' =>
      rw [ran] at first
      exact then_ a s' first.1 first.2
  | error fault s' =>
      rw [ran] at first
      exact weaker s' first

theorem KeepsAt.bind (first : KeepsAt w s m Q)
    (then_ : ∀ a s', s'.Within w → Q s' a → KeepsAt w s' (next a) R) :
    KeepsAt w s (m >>= next) R :=
  first.bind_into (fun _ => id) then_

theorem KeepsAt.itemsOf_bind {r : Ref} {next : List Value → Eval β}
    (then_ : KeepsAt w s (next (s.items r)) R) : KeepsAt w s (Eval.itemsOf r >>= next) R :=
  then_

theorem Plain.keepsAt (plain : m.Plain) (within : s.Within w)
    (result : ∀ a s', m s = .ok a s' → s.SameData s' → Q s' a) : KeepsAt w s m Q := by
  rw [KeepsAt]
  cases ran : m s with
  | ok a s' => exact ⟨within.sameData (plain.ok ran), result a s' ran (plain.ok ran)⟩
  | error fault s' => exact within.sameData (plain.error ran).1

theorem Plain.keepsAt_bind (plain : m.Plain) (within : s.Within w)
    (then_ : ∀ a s', s'.Within w → s.SameData s' → KeepsAt w s' (next a) R) :
    KeepsAt w s (m >>= next) R :=
  (plain.keepsAt within fun _ _ _ same => same).bind then_

theorem Plain.keeps (plain : m.Plain) (yields : Yields m P) : Keeps w m fun _ a => P a :=
  fun s within => plain.keepsAt within fun a s' ran _ => yields s a s' ran

theorem Plain.keeps_any (plain : m.Plain) : Keeps w m fun _ _ => True :=
  plain.keeps fun _ _ _ _ => trivial

namespace Keeps

theorem pure {a : α} (h : ∀ s, s.Within w → Q s a) : Keeps w (pure a) Q :=
  fun s within => ⟨within, h s within⟩

theorem bind (first : Keeps w m fun _ a => P a) (then_ : ∀ a, P a → Keeps w (next a) R) :
    Keeps w (m >>= next) R :=
  fun s within => (first s within).bind fun a s' within' holds => then_ a holds s' within'

theorem mono (h : Keeps w m Q) (weaker : ∀ s a, s.Within w → Q s a → Q' s a) : Keeps w m Q' := by
  intro s within
  have here := h s within
  rw [KeepsAt] at here ⊢
  cases ran : m s with
  | ok a s' =>
      rw [ran] at here
      exact ⟨here.1, weaker s' a here.1 here.2⟩
  | error fault s' =>
      rw [ran] at here
      exact here

theorem throw (fault : Fault) : Keeps w (throw fault : Eval α) Q :=
  fun _ within => within

theorem tryCatch {handle : Fault → Eval α} (first : Keeps w m Q)
    (next : ∀ fault, Keeps w (handle fault) Q) : Keeps w (tryCatch m handle) Q := by
  intro s within
  have here := first s within
  rw [KeepsAt] at here ⊢
  rw [tryCatch_eq]
  cases ran : m s with
  | ok a s' =>
      rw [ran] at here
      exact here
  | error fault s' =>
      rw [ran] at here
      exact next fault s' here

theorem fail (c : Cause) : Keeps w (Eval.fail c : Eval α) Q :=
  throw _

theorem breach (b : Breach) : Keeps w (Eval.breach b : Eval α) Q :=
  throw _

-- Nothing comes after a failure.
theorem breach_bind (b : Breach) : Keeps w (Eval.breach b >>= next) R :=
  bind (P := fun _ => False) (breach b) nofun

theorem fail_bind (c : Cause) : Keeps w (Eval.fail c >>= next) R :=
  bind (P := fun _ => False) (fail c) nofun

theorem lift {r : Except Breach α} (h : ∀ a s, r = .ok a → Q s a) : Keeps w (Eval.lift r) Q := by
  cases r with
  | ok a => exact pure fun s _ => h a s rfl
  | error b => exact breach b

theorem mapM {f : α → Eval β} {P : β → Prop} {xs : List α}
    (each : ∀ x ∈ xs, Keeps w (f x) fun _ b => P b) :
    Keeps w (xs.mapM f) fun _ bs => ∀ b ∈ bs, P b := by
  induction xs with
  | nil => exact pure fun _ _ => nofun
  | cons x rest ih =>
      rw [List.mapM_cons]
      refine (each x List.mem_cons_self).bind fun b of_b => ?_
      refine (ih fun y member => each y (List.mem_cons_of_mem x member)).bind fun bs of_bs => ?_
      exact pure fun _ _ => List.forall_mem_cons.mpr ⟨of_b, of_bs⟩

theorem itemsOf (r : Ref) : Keeps w (Eval.itemsOf r) fun _ items => w.ListFits r items :=
  fun _ within => ⟨within, within.lists r⟩

theorem entriesOf (r : Ref) : Keeps w (Eval.entriesOf r) fun _ entries => w.DictFits r entries :=
  fun _ within => ⟨within, within.dicts r⟩

theorem setItems {r : Ref} {items : List Value} (fits : w.ListFits r items) :
    Keeps w (Eval.setItems r items) fun _ _ => True :=
  fun _ within => ⟨within.setItems fits, trivial⟩

theorem setEntries {r : Ref} {entries : Entries} (fits : w.DictFits r entries) :
    Keeps w (Eval.setEntries r entries) fun _ _ => True :=
  fun _ within => ⟨within.setEntries fits, trivial⟩

theorem ofList {items : List Value} (each : ∀ v ∈ items, v.Within w) :
    Keeps w (Value.ofList items) fun s v => v.Pending w s := by
  intro s within
  refine ⟨within.pushList each, ?_⟩
  show s.lists.size < (s.lists.push items).size
  rw [Array.size_push]
  exact Nat.lt_succ_self _

theorem ofEntries {entries : Entries} (each : ∀ e ∈ entries, e.1.Within w ∧ e.2.Within w) :
    Keeps w (Value.ofEntries entries) fun s v => v.Pending w s := by
  intro s within
  refine ⟨within.pushDict each, ?_⟩
  show s.dicts.size < (s.dicts.push entries).size
  rw [Array.size_push]
  exact Nat.lt_succ_self _

end Keeps

end Eval

/-! ### Limits that grow -/

/-- Room for so many more bits. -/
def Limits.widened (w : Limits) (k : Nat) : Limits :=
  { w with
    bits := w.bits + k
    bits_ge := w.bits_ge.trans (Nat.le_add_right _ k) }

theorem Limits.grows_widened (w : Limits) (k : Nat) : w.Grows k (w.widened k) :=
  ⟨rfl, rfl, subset_rfl, subset_rfl, subset_rfl, subset_rfl, rfl⟩

theorem Store.Within.widened (within : s.Within w) (k : Nat) : s.Within (w.widened k) where
  held_lists := within.held_lists
  held_dicts := within.held_dicts
  lists r := (within.lists r).grow (w.grows_widened k) (fun new old => absurd new old)
    fun new old => absurd new old
  dicts r := (within.dicts r).grow (w.grows_widened k) (fun new old => absurd new old)
    fun new old => absurd new old

namespace Eval

/-- Ends in a store within limits that have grown by so many bits, and in a result of which a
condition holds under these limits. -/
def SafeAt {ε : Type} (w : Limits) (k : Nat) (s : Store) (m : EStateM ε Store α)
    (Q : Limits → α → Prop) : Prop :=
  match m s with
  | .ok a s' => ∃ w', w.Grows k w' ∧ s'.Within w' ∧ Q w' a
  | .error _ s' => ∃ w', w.Grows k w' ∧ s'.Within w'

def Safe {ε : Type} (w : Limits) (k : Nat) (m : EStateM ε Store α) (Q : Limits → α → Prop) :
    Prop :=
  ∀ s, s.Within w → SafeAt w k s m Q

/-- Still holds when the limits grow. -/
def Grows (Q : Limits → α → Prop) : Prop :=
  ∀ w w' k a, w.Grows k w' → Q w a → Q w' a

variable {P Q : Limits → α → Prop} {R : Limits → β → Prop} {j k : Nat}

section Programs

variable {ε : Type} {m : EStateM ε Store α} {next : α → EStateM ε Store β}

theorem SafeAt.of_eq (h : SafeAt w j s m Q) (same : j = k) : SafeAt w k s m Q :=
  same ▸ h

theorem SafeAt.of_grows (h : SafeAt w' k s m Q) (grows : w.Grows 0 w') : SafeAt w k s m Q := by
  have same (last : Limits) (more : w'.Grows k last) : w.Grows k last := by
    simpa using grows.trans more
  rw [SafeAt] at h ⊢
  cases ran : m s with
  | ok a s' =>
      rw [ran] at h
      obtain ⟨last, more, rest⟩ := h
      exact ⟨last, same last more, rest⟩
  | error e s' =>
      rw [ran] at h
      obtain ⟨last, more, rest⟩ := h
      exact ⟨last, same last more, rest⟩

-- The limits may lose something on the way, as long as they keep growing.
theorem SafeAt.bind_into {into : Limits → Limits}
    (mono : ∀ w w' j, w.Grows j w' → (into w).Grows j (into w'))
    (weaker : ∀ (s : Store) w, s.Within w → s.Within (into w)) (first : SafeAt w j s m P)
    (then_ : ∀ w' a s', w.Grows j w' → s'.Within w' → P w' a → SafeAt (into w') k s' (next a) R) :
    SafeAt (into w) (j + k) s (m >>= next) R := by
  rw [SafeAt] at first ⊢
  rw [bind_eq]
  cases ran : m s with
  | ok a s' =>
      rw [ran] at first
      obtain ⟨w', grows, within', holds⟩ := first
      have there := then_ w' a s' grows within' holds
      rw [SafeAt] at there
      dsimp only
      cases ran : next a s' with
      | ok b s'' =>
          rw [ran] at there
          obtain ⟨w'', more, rest⟩ := there
          exact ⟨w'', (mono w w' j grows).trans more, rest⟩
      | error fault s'' =>
          rw [ran] at there
          obtain ⟨w'', more, rest⟩ := there
          exact ⟨w'', (mono w w' j grows).trans more, rest⟩
  -- The bits for what is not run any more are left over.
  | error fault s' =>
      rw [ran] at first
      obtain ⟨w', grows, within'⟩ := first
      exact ⟨(into w').widened k, (mono w w' j grows).trans ((into w').grows_widened k),
        (weaker s' w' within').widened k⟩

theorem SafeAt.bind (first : SafeAt w j s m P)
    (then_ : ∀ w' a s', w.Grows j w' → s'.Within w' → P w' a → SafeAt w' k s' (next a) R) :
    SafeAt w (j + k) s (m >>= next) R :=
  first.bind_into (fun _ _ _ => id) (fun _ _ => id) then_

theorem SafeAt.bind_settled (first : SafeAt w j s m P)
    (then_ : ∀ w' a s', w.Grows j w' → s'.Within w' → P w' a →
      SafeAt w'.settled k s' (next a) R) :
    SafeAt w.settled (j + k) s (m >>= next) R :=
  first.bind_into (fun _ _ _ => Limits.Grows.settled) (fun _ _ => Store.Within.settled) then_

namespace Safe

theorem bind (first : Safe w j m P)
    (then_ : ∀ w' a, w.Grows j w' → P w' a → Safe w' k (next a) R) :
    Safe w (j + k) (m >>= next) R :=
  fun s within => (first s within).bind fun w' a s' grows within' holds =>
    then_ w' a grows holds s' within'

-- What comes last needs no further bits.
theorem bind_last (first : Safe w j m P)
    (then_ : ∀ w' a, w.Grows j w' → P w' a → Safe w' 0 (next a) R) : Safe w j (m >>= next) R :=
  first.bind then_

-- What needs fewer bits is safe with more.
theorem widen (h : Safe w j m Q) (stable : Grows Q) (more : j ≤ k) : Safe w k m Q := by
  obtain ⟨rest, rfl⟩ := Nat.exists_eq_add_of_le more
  intro s within
  have here := h s within
  rw [SafeAt] at here ⊢
  cases ran : m s with
  | ok a s' =>
      rw [ran] at here
      obtain ⟨w', grows, within', holds⟩ := here
      exact ⟨w'.widened rest, grows.trans (w'.grows_widened rest), within'.widened rest,
        stable _ _ rest a (w'.grows_widened rest) holds⟩
  | error fault s' =>
      rw [ran] at here
      obtain ⟨w', grows, within'⟩ := here
      exact ⟨w'.widened rest, grows.trans (w'.grows_widened rest), within'.widened rest⟩

theorem throw (e : ε) : Safe w k (throw e : EStateM ε Store α) Q :=
  fun _ within => ⟨w.widened k, w.grows_widened k, within.widened k⟩

theorem of_eq (h : Safe w j m Q) (same : j = k) : Safe w k m Q :=
  same ▸ h

theorem pure {a : α} (h : Q w a) : Safe w 0 (pure a : EStateM ε Store α) Q :=
  fun _ within => ⟨w, .refl w, within, h⟩

end Safe

end Programs

variable {m : Eval α} {next : α → Eval β}

theorem KeepsAt.safeAt (h : KeepsAt w s m fun _ a => Q w a) : SafeAt w 0 s m Q := by
  rw [KeepsAt] at h
  rw [SafeAt]
  cases ran : m s with
  | ok a s' =>
      rw [ran] at h
      exact ⟨w, .refl w, h.1, h.2⟩
  | error fault s' =>
      rw [ran] at h
      exact ⟨w, .refl w, h⟩

theorem Keeps.safe (h : Keeps w m fun _ a => Q w a) : Safe w 0 m Q :=
  fun s within => (h s within).safeAt

theorem Safe.keeps_bind {P : α → Prop} (first : Keeps w m fun _ a => P a)
    (then_ : ∀ a, P a → Safe w k (next a) R) : Safe w k (m >>= next) R := by
  intro s within
  have here := first s within
  rw [KeepsAt] at here
  rw [SafeAt, bind_eq]
  cases ran : m s with
  | ok a s' =>
      rw [ran] at here
      exact then_ a here.2 s' here.1
  | error fault s' =>
      rw [ran] at here
      exact ⟨w.widened k, w.grows_widened k, Store.Within.widened here k⟩

theorem grows_within : Grows fun w (v : Value) => v.Within w :=
  fun _ _ _ _ grows within => within.grow grows

end Eval

namespace Value

-- What the check of a size leaves: a cause, or the value with what the check says of it.
theorem checked_apply (v : Value) (s : Store) :
    (∃ c, checked v s = .error (.cause c) s) ∨
      checked v s = .ok v s ∧ (∀ tag n, v = .int tag n → bitLength n ≤ maxBits) ∧
        (v.isContainer = true → weight s maxLength v ≤ maxLength) := by
  -- All values but integers are checked by their weight.
  have weighed (same : checked v = checkWeight v >>= fun _ => pure v)
      (no_int : ∀ tag n, v ≠ .int tag n) : (∃ c, checked v s = .error (.cause c) s) ∨
        checked v s = .ok v s ∧ (∀ tag n, v = .int tag n → bitLength n ≤ maxBits) ∧
          (v.isContainer = true → weight s maxLength v ≤ maxLength) := by
    rw [same, bind_eq, checkWeight_apply]
    by_cases heavy : (v.isContainer && weight s maxLength v > maxLength) = true
    · rw [if_pos heavy]
      exact .inl ⟨_, rfl⟩
    · rw [if_neg heavy]
      refine .inr ⟨rfl, fun tag n is_int => absurd is_int (no_int tag n), fun container => ?_⟩
      simpa [container] using heavy
  cases v with
  | int tag n =>
      by_cases large : bitLength n > maxBits
      · refine .inl ⟨.integerTooLarge, ?_⟩
        simp only [checked, large, if_true]
        rfl
      · refine .inr ⟨?_, fun _ _ same => ?_, nofun⟩
        · simp only [checked, large, if_false]
          rfl
        · cases same
          exact Nat.le_of_not_gt large
  | _ => exact weighed rfl nofun

end Value

namespace Eval

theorem SafeAt.checked (within : s.Within w) (pending : v.Pending w s) :
    SafeAt w 0 s v.checked fun w v => v.Within w := by
  rw [SafeAt]
  obtain ⟨c, refused⟩ | ⟨passed, short, light⟩ := v.checked_apply s
  · rw [refused]
    exact ⟨w, .refl w, within⟩
  rw [passed]
  cases v with
  | none => exact ⟨w, .refl w, within, .none⟩
  | bool b => exact ⟨w, .refl w, within, .bool b⟩
  | int tag n => exact ⟨w, .refl w, within, .int tag ((short tag n rfl).trans w.bits_ge)⟩
  | float tag x => exact ⟨w, .refl w, within, .float tag x⟩
  | complex tag z => exact ⟨w, .refl w, within, .complex tag z⟩
  | text tag t =>
      have fits := light rfl
      rw [weight, Value.weighAt_leaf rfl, Nat.zero_add] at fits
      exact ⟨w, .refl w, within, .text tag (fits.trans w.chars_ge)⟩
  | raw tag t =>
      have fits := light rfl
      rw [weight, Value.weighAt_leaf rfl, Nat.zero_add] at fits
      exact ⟨w, .refl w, within, .raw tag (fits.trans w.chars_ge)⟩
  | tuple tag items =>
      have fits : solids items ≤ _ := Value.solids_le_weight (v := .tuple tag items) rfl (light rfl)
      exact ⟨w, .refl w, within, .tuple tag (fits.trans (light rfl)) pending⟩
  | list r =>
      have fits : solids (s.items r) ≤ _ := Value.solids_le_weight (v := .list r) rfl (light rfl)
      refine ⟨w.withList r, w.grows_withList r, within.withList pending ?_,
        .list (Set.mem_insert r w.lists)⟩
      have light := fits.trans (light rfl)
      rw [listCap]
      omega
  | dict r =>
      have fits := Value.solidEntries_le_weight (light rfl)
      refine ⟨w.withDict r, w.grows_withDict r, within.withDict pending ?_,
        .dict (Set.mem_insert r w.dicts)⟩
      have light := fits.trans (light rfl)
      rw [dictCap]
      omega
  | view tag kind r => exact ⟨w, .refl w, within, .view tag kind pending⟩
  | builtin name => exact ⟨w, .refl w, within, .builtin pending⟩

/-- Gives values that are within the limits once they pass the check of their size. -/
def Pends (w : Limits) (m : Eval Value) : Prop :=
  Keeps w m fun s v => v.Pending w s

variable {m : Eval Value}

theorem KeepsAt.checked (h : KeepsAt w s m fun s v => v.Pending w s) :
    SafeAt w 0 s (m >>= Value.checked) fun w v => v.Within w := by
  rw [KeepsAt] at h
  rw [SafeAt, bind_eq]
  cases ran : m s with
  | ok v s' =>
      rw [ran] at h
      exact SafeAt.checked h.1 h.2
  | error fault s' =>
      rw [ran] at h
      exact ⟨w, .refl w, h⟩

theorem Pends.checked (h : Pends w m) : Safe w 0 (m >>= Value.checked) fun w v => v.Within w :=
  fun s within => (h s within).checked

theorem Frees.pends (free : Frees m) (plain : Plain m) : Pends w m :=
  (plain.keeps free).mono fun _ _ _ => Value.pending_of_free

end Eval

end Snippet
