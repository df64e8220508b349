import Snippet.Proofs.Eval.Slices
import Snippet.Proofs.Program

/-!
What it means to put a value into a list or a dict: in the place of an item, under a key, or in the
place of a slice. Each is given on its own terms, by what stands in the container before and
afterwards, and is what the change of the container does.
-/

set_option autoImplicit false

namespace Snippet

variable {s s' : Store} {value key : Value}

theorem Value.keyEq_self (v : Value) : keyEq v v = true := by
  have same : same v v = true := by cases v <;> simp [same]
  cases v <;> simp [keyEq, same]

namespace Subscript

/-! ### Items -/

/-- A value takes the place of one item. The index counts from the end if it is negative. -/
inductive ItemPut (value : Value) : List Value → Value → List Value → Prop where
  | put {front behind : List Value} {old key : Value} {i : Int} (asked : key.int? = some i)
      (here : i = front.length ∨ i = front.length - ((front ++ old :: behind).length : Int)) :
      ItemPut value (front ++ old :: behind) key (front ++ value :: behind)

theorem position_eq_ok {length i : Nat} : position length key = .ok i ↔
    ∃ n, key.int? = some n ∧ i < length ∧ (n = i ∨ n = i - (length : Int)) := by
  unfold position
  cases key.int? with
  | none => exact ⟨nofun, nofun⟩
  | some n =>
      dsimp only
      generalize counted : (if n < 0 then n + (length : Int) else n) = place
      by_cases inside : 0 ≤ place ∧ place < length
      · have within : (decide (0 ≤ place) && decide (place < (length : Int))) = true := by
          simpa using inside
        rw [if_pos within]
        constructor
        · rintro ⟨⟩
          exact ⟨n, rfl, by omega, by omega⟩
        · rintro ⟨_, ⟨⟩, below, here⟩
          exact congrArg Except.ok (by omega)
      · have outside : ¬ (decide (0 ≤ place) && decide (place < (length : Int))) = true := by
          simpa using inside
        rw [if_neg outside]
        refine ⟨nofun, ?_⟩
        rintro ⟨_, ⟨⟩, below, here⟩
        omega

theorem itemPut_iff {xs ys : List Value} : ItemPut value xs key ys ↔
    ∃ i, position xs.length key = .ok i ∧ ys = xs.set i value := by
  simp only [position_eq_ok]
  constructor
  · rintro ⟨asked, here⟩
    rename_i front behind old i
    exact ⟨front.length, ⟨i, asked, by simp, here⟩, by simp⟩
  · rintro ⟨i, ⟨n, asked, inside, here⟩, rfl⟩
    have split : xs = xs.take i ++ xs[i] :: xs.drop (i + 1) := by simp
    have front : (xs.take i).length = i := List.length_take_of_le (Nat.le_of_lt inside)
    rw [List.set_eq_take_append_cons_drop, if_pos inside]
    nth_rewrite 1 [split]
    refine .put asked ?_
    rwa [← split, front]

/-! ### Entries -/

/-- A value takes the place of the one under an equal key, which stays, or comes behind all entries
with a key of its own. -/
inductive EntryPut (key value : Value) : Entries → Entries → Prop where
  | replaced {front behind : Entries} {k old : Value} (before : ∀ e ∈ front, ¬ Value.keyEq key e.1)
      (same : Value.keyEq key k) :
      EntryPut key value (front ++ (k, old) :: behind) (front ++ (k, value) :: behind)
  | added {entries : Entries} (missing : ∀ e ∈ entries, ¬ Value.keyEq key e.1) :
      EntryPut key value entries (entries ++ [(key, value)])

theorem entryPut_insert (entries : Entries) (key value : Value) :
    EntryPut key value entries (entries.insert key value) := by
  induction entries with
  | nil => exact .added nofun
  | cons e rest ih =>
      obtain ⟨k, old⟩ := e
      rw [Entries.insert]
      split
      · rename_i same
        exact @EntryPut.replaced _ _ [] rest k old nofun same
      · rename_i other
        generalize Entries.insert rest key value = inserted at ih
        cases ih with
        | @replaced front behind k' old' before same =>
            exact @EntryPut.replaced _ _ ((k, old) :: front) behind k' old'
              (List.forall_mem_cons.mpr ⟨other, before⟩) same
        | added missing =>
            exact @EntryPut.added _ _ ((k, old) :: rest) (List.forall_mem_cons.mpr ⟨other, missing⟩)

theorem EntryPut.insert_eq {entries changed : Entries} (put : EntryPut key value entries changed) :
    entries.insert key value = changed := by
  cases put with
  | @replaced front behind k old before same =>
      induction front with
      | nil => simp [Entries.insert, same]
      | cons e rest ih =>
          obtain ⟨other, before⟩ := List.forall_mem_cons.mp before
          simp [Entries.insert, other, ih before]
  | added missing =>
      induction entries with
      | nil => rfl
      | cons e rest ih =>
          obtain ⟨other, missing⟩ := List.forall_mem_cons.mp missing
          simp [Entries.insert, other, ih missing]

theorem EntryPut.find? {entries changed : Entries} (put : EntryPut key value entries changed) :
    changed.find? key = some value := by
  have reads (front behind : Entries) (k : Value) (before : ∀ e ∈ front, ¬ Value.keyEq key e.1)
      (same : Value.keyEq key k) :
      Entries.find? (front ++ (k, value) :: behind) key = some value := by
    have none_before : List.find? (fun e => Value.keyEq key e.1) front = none :=
      List.find?_eq_none.mpr before
    simp [Entries.find?, List.find?_append, none_before, same]
  cases put with
  | replaced before same => exact reads _ _ _ before same
  | added missing => exact reads _ [] key missing (Value.keyEq_self key)

/-! ### Slices -/

/-- An end of a slice as a position: counted from the end of the sequence if it is negative, and
then moved to where the steps can start and stop. Descending steps end before the first position. -/
def moved (length step i : Int) : Int :=
  let i := if i < 0 then i + length else i
  if 0 < step then max 0 (min length i) else max (-1) (min (length - 1) i)

def startOf (length step : Int) : Option Int → Int
  | none => if 0 < step then 0 else length - 1
  | some i => moved length step i

def stopOf (length step : Int) : Option Int → Int
  | none => if 0 < step then length else -1
  | some i => moved length step i

/-- A position that steps reach before they stop. -/
def Reaches (step stop place : Int) : Prop :=
  if 0 < step then place < stop else stop < place

/-- A slice of a sequence starts at `start` and goes on in steps until it would reach `stop`. -/
structure Slice.Goes (slice : Slice) (length : Nat) (start stop step : Int) : Prop where
  of_step : ∃ k, endOf slice.step = .ok k ∧ step = k.getD 1
  moves : step ≠ 0
  of_start : ∃ i, endOf slice.lower = .ok i ∧ start = startOf length step i
  of_stop : ∃ i, endOf slice.upper = .ok i ∧ stop = stopOf length step i

/-- Values take the place of a slice. A stretch gives way to any number of them. Positions that are
further apart, or in descending order, take one value each, and there are exactly as many. -/
inductive SlicePut (slice : Slice) (xs values : List Value) : List Value → Prop where
  | stretch {start stop : Int} (goes : slice.Goes xs.length start stop 1) :
      SlicePut slice xs values (xs.take start.toNat ++ values ++ xs.drop (max start stop).toNat)
  | scattered {start stop step : Int} {ys : List Value} (goes : slice.Goes xs.length start stop step)
      (apart : step ≠ 1)
      (each : ∀ n : Nat, n < values.length ↔ Reaches step stop (start + n * step))
      (length : ys.length = xs.length)
      (placed : ∀ n : Nat, n < values.length → ys[(start + n * step).toNat]? = values[n]?)
      (kept : ∀ i : Nat, (∀ n : Nat, n < values.length → start + n * step ≠ i) → ys[i]? = xs[i]?) :
      SlicePut slice xs values ys

theorem lt_ceilDiv_iff {a b : Int} {i : Nat} (positive : 0 < b) :
    i < ceilDiv a b ↔ (i : Int) * b < a := by
  refine ⟨lt_ceilDiv positive, fun before => ?_⟩
  have reached : (i : Int) + 1 ≤ (a + b - 1) / b := by
    rw [Int.le_ediv_iff_mul_le positive, Int.add_mul, Int.one_mul]
    omega
  rw [ceilDiv]
  omega

/-- A span of so many steps from a start. -/
theorem spanOf_goes (length : Nat) (lower upper : Option Int) {step : Int} (moves : step ≠ 0) :
    (spanOf length lower upper step).start = (startOf length step lower).toNat ∧
      (spanOf length lower upper step).step = step ∧
        ∀ n : Nat, n < (spanOf length lower upper step).count ↔
          Reaches step (stopOf length step upper) (startOf length step lower + n * step) := by
  rw [spanOf]
  split
  -- Upwards, both ends are clamped to the length.
  · rename_i ascends
    have ascends : 0 < step := ascends
    have clamped (i : Int) : (clampTo 0 length length i : Int) = moved length step i := by
      simp only [clampTo, moved, if_pos ascends]
      omega
    have start : (((lower.map (clampTo 0 length length)).getD 0 : Nat) : Int) =
        startOf length step lower := by
      cases lower with
      | none => simp [startOf, ascends]
      | some i => exact clamped i
    have stop : (((upper.map (clampTo 0 length length)).getD length : Nat) : Int) =
        stopOf length step upper := by
      cases upper with
      | none => simp [stopOf, ascends]
      | some i => exact clamped i
    refine ⟨by rw [← start, Int.toNat_natCast], rfl, fun n => ?_⟩
    rw [← start, ← stop]
    simp only [lt_ceilDiv_iff ascends, Reaches, if_pos ascends]
    omega
  -- Downwards, the ends are counted one higher, so that the one before the first item is zero.
  · rename_i descends
    have descends : ¬ 0 < step := descends
    extract_lets above start stop
    have shifted (i : Int) : (above i : Int) = moved length step i + 1 := by
      simp only [above, moved, if_neg descends]
      omega
    have of_start : (start : Int) = startOf length step lower + 1 := by
      cases lower with
      | none => simp [start, startOf, descends]
      | some i => exact shifted i
    have of_stop : (stop : Int) = stopOf length step upper + 1 := by
      cases upper with
      | none => simp [stop, stopOf, descends]
      | some i => exact shifted i
    refine ⟨by dsimp only; omega, rfl, fun n => ?_⟩
    simp only [lt_ceilDiv_iff (show 0 < -step by omega), Reaches, if_neg descends, Int.mul_neg]
    omega

theorem span_eq_ok {slice : Slice} {length : Nat} {p : Span} : slice.span length = .ok p ↔
    ∃ lower upper step, endOf slice.lower = .ok lower ∧ endOf slice.upper = .ok upper ∧
      endOf slice.step = .ok step ∧ step.getD 1 ≠ 0 ∧ p = spanOf length lower upper (step.getD 1) := by
  simp only [Slice.span, bind_eq_ok]
  constructor
  · rintro ⟨step, of_step, ran⟩
    split at ran
    · cases ran
    · rename_i moves
      obtain ⟨lower, of_lower, ran⟩ := bind_eq_ok.mp ran
      obtain ⟨upper, of_upper, ran⟩ := bind_eq_ok.mp ran
      cases ran
      exact ⟨lower, upper, step, of_lower, of_upper, of_step, by simpa using moves, rfl⟩
  · rintro ⟨lower, upper, step, of_lower, of_upper, of_step, moves, rfl⟩
    refine ⟨step, of_step, ?_⟩
    rw [if_neg (by simpa using moves), of_lower, of_upper]
    rfl

/-- A span that goes in steps from `start` up to `stop`. -/
structure Span.Covers (p : Span) (start stop step : Int) : Prop where
  starts : p.start = start.toNat
  steps : p.step = step
  counts : ∀ n : Nat, n < p.count ↔ Reaches step stop (start + n * step)

theorem goes_of_span {slice : Slice} {length : Nat} {p : Span} (done : slice.span length = .ok p) :
    ∃ start stop step, slice.Goes length start stop step ∧ p.Covers start stop step := by
  obtain ⟨lower, upper, step, of_lower, of_upper, of_step, moves, rfl⟩ := span_eq_ok.mp done
  obtain ⟨start, same, count⟩ := spanOf_goes length lower upper moves
  exact ⟨_, _, _, ⟨⟨step, of_step, rfl⟩, moves, ⟨lower, of_lower, rfl⟩, ⟨upper, of_upper, rfl⟩⟩,
    start, same, count⟩

namespace Slice.Goes

variable {slice : Slice} {length : Nat} {start stop step : Int}

theorem span (goes : slice.Goes length start stop step) :
    ∃ p, slice.span length = .ok p ∧ p.Covers start stop step := by
  obtain ⟨⟨step, of_step, rfl⟩, moves, ⟨lower, of_lower, rfl⟩, ⟨upper, of_upper, rfl⟩⟩ := goes
  obtain ⟨start, same, count⟩ := spanOf_goes length lower upper moves
  exact ⟨_, span_eq_ok.mpr ⟨lower, upper, step, of_lower, of_upper, of_step, moves, rfl⟩, start,
    same, count⟩

theorem start_bounds (goes : slice.Goes length start stop step) :
    if 0 < step then 0 ≤ start else start < length := by
  obtain ⟨-, -, ⟨i, -, rfl⟩, -⟩ := goes
  cases i <;> simp only [startOf, moved] <;> split <;> omega

theorem stop_bounds (goes : slice.Goes length start stop step) :
    if 0 < step then stop ≤ length else -1 ≤ stop := by
  obtain ⟨-, -, -, ⟨i, -, rfl⟩⟩ := goes
  cases i <;> simp only [stopOf, moved] <;> split <;> omega

-- What is reached is a position of the sequence.
theorem inside (goes : slice.Goes length start stop step) {n : Nat}
    (reached : Reaches step stop (start + n * step)) :
    0 ≤ start ∧ 0 ≤ start + n * step ∧ start + n * step < length := by
  have from_start := goes.start_bounds
  have up_to := goes.stop_bounds
  unfold Reaches at reached
  split at reached
  · rename_i ascends
    rw [if_pos ascends] at from_start up_to
    have ahead : 0 ≤ (n : Int) * step := Int.mul_nonneg (Int.natCast_nonneg n) (Int.le_of_lt ascends)
    omega
  · rename_i descends
    rw [if_neg descends] at from_start up_to
    have behind : 0 ≤ (n : Int) * -step := Int.mul_nonneg (Int.natCast_nonneg n) (by omega)
    rw [Int.mul_neg] at behind
    omega

end Slice.Goes

/-! ### Replacing one for one -/

theorem replaceAt_cons (xs : List Value) (p : Nat) (positions : List Nat) (v : Value)
    (values : List Value) :
    replaceAt xs (p :: positions) (v :: values) = replaceAt (xs.set p v) positions values := by
  simp [replaceAt]

theorem replaceAt_nil (xs : List Value) (positions : List Nat) :
    replaceAt xs positions [] = xs := by
  simp [replaceAt]

theorem length_replaceAt (xs : List Value) (positions : List Nat) (values : List Value) :
    (replaceAt xs positions values).length = xs.length := by
  induction positions generalizing xs values with
  | nil => simp [replaceAt]
  | cons p rest ih =>
      cases values with
      | nil => rw [replaceAt_nil]
      | cons v values => rw [replaceAt_cons, ih, List.length_set]

theorem getElem?_replaceAt_of_not_mem {positions : List Nat} {i : Nat} (other : i ∉ positions)
    (xs values : List Value) : (replaceAt xs positions values)[i]? = xs[i]? := by
  induction positions generalizing xs values with
  | nil => simp [replaceAt]
  | cons p rest ih =>
      have apart := List.ne_of_not_mem_cons other
      have later := List.not_mem_of_not_mem_cons other
      cases values with
      | nil => rw [replaceAt_nil]
      | cons v values => rw [replaceAt_cons, ih later, List.getElem?_set_ne (Ne.symm apart)]

theorem getElem?_replaceAt {positions : List Nat} (nodup : positions.Nodup) {n p : Nat}
    (named : positions[n]? = some p) {xs values : List Value} (inside : p < xs.length)
    (given : n < values.length) : (replaceAt xs positions values)[p]? = values[n]? := by
  induction positions generalizing n xs values with
  | nil => cases named
  | cons q rest ih =>
      obtain ⟨once, nodup⟩ := List.nodup_cons.mp nodup
      cases values with
      | nil => cases given
      | cons v values =>
          rw [replaceAt_cons]
          cases n with
          | zero =>
              cases named
              rw [getElem?_replaceAt_of_not_mem once, List.getElem?_set_self inside]
              rfl
          | succ n =>
              exact ih nodup named (by rwa [List.length_set]) (Nat.lt_of_succ_lt_succ given)

/-! ### The whole -/

theorem Span.length_positions (p : Span) : p.positions.length = p.count := by
  simp [positions]

-- As many values as positions.
theorem eq_of_lt_iff {m n : Nat} (same : ∀ k, k < m ↔ k < n) : m = n := by
  have not_more := same n
  have not_less := same m
  omega

theorem Slice.Goes.stretch {slice : Slice} {length : Nat} {start stop : Int} {p : Span}
    (goes : slice.Goes length start stop 1) (covers : p.Covers start stop 1) :
    p.start + p.count = (max start stop).toNat := by
  have from_start := goes.start_bounds
  rw [if_pos Int.one_pos] at from_start
  have count : p.count = (stop - start).toNat := by
    refine eq_of_lt_iff fun k => ?_
    rw [covers.counts, Reaches, if_pos Int.one_pos]
    omega
  rw [covers.starts, count]
  omega

theorem Slice.Goes.getElem?_positions {slice : Slice} {length : Nat} {start stop step : Int}
    {p : Span} (goes : slice.Goes length start stop step) (covers : p.Covers start stop step) {n : Nat}
    (before : n < p.count) :
    ∃ i : Nat, start + n * step = i ∧ i < length ∧ p.positions[n]? = some i := by
  obtain ⟨from_start, at_least, below⟩ := goes.inside ((covers.counts n).mp before)
  have named : p.positions[n]? = some ((p.start : Int) + n * p.step).toNat := by
    simp [Span.positions, List.getElem?_range before]
  rw [covers.starts, covers.steps, Int.toNat_of_nonneg from_start] at named
  exact ⟨_, (Int.toNat_of_nonneg at_least).symm, by omega, named⟩

/-- What takes the place of positions that are apart, one for one. -/
theorem scattered_iff {slice : Slice} {xs values ys : List Value} {start stop step : Int} {p : Span}
    (done : slice.span xs.length = .ok p) (goes : slice.Goes xs.length start stop step)
    (covers : p.Covers start stop step) (same : values.length = p.count) :
    (ys.length = xs.length ∧
        (∀ n : Nat, n < values.length → ys[(start + n * step).toNat]? = values[n]?) ∧
          ∀ i : Nat, (∀ n : Nat, n < values.length → start + n * step ≠ i) → ys[i]? = xs[i]?) ↔
      ys = replaceAt xs p.positions values := by
  have nodup := (Slice.span_isInside done).nodup
  -- The positions are apart: each of them has its own value, and all others keep what they had.
  have placed {n : Nat} (given : n < values.length) :
      (replaceAt xs p.positions values)[(start + n * step).toNat]? = values[n]? := by
    obtain ⟨i, here, inside, named⟩ := goes.getElem?_positions covers (same ▸ given)
    rw [here]
    exact getElem?_replaceAt nodup named inside given
  have kept {i : Nat} (other : ∀ n : Nat, n < values.length → start + n * step ≠ i) :
      (replaceAt xs p.positions values)[i]? = xs[i]? := by
    refine getElem?_replaceAt_of_not_mem (fun member => ?_) xs values
    obtain ⟨n, found⟩ := List.mem_iff_getElem?.mp member
    have before : n < p.count := by
      rw [← p.length_positions]
      exact (List.getElem?_eq_some_iff.mp found).1
    obtain ⟨j, here, -, named⟩ := goes.getElem?_positions covers before
    rw [found] at named
    cases named
    exact other n (same ▸ before) here
  constructor
  · rintro ⟨length, of_placed, of_kept⟩
    refine List.ext_getElem? fun i => ?_
    by_cases other : ∀ n : Nat, n < values.length → start + n * step ≠ i
    · rw [of_kept i other, kept other]
    · simp only [not_forall, not_not] at other
      obtain ⟨n, given, here⟩ := other
      have there := of_placed n given
      rw [← placed given, here] at there
      exact there
  · rintro rfl
    exact ⟨length_replaceAt _ _ _, fun n => placed, fun i => kept⟩

theorem slicePut_iff {slice : Slice} {xs values ys : List Value} : SlicePut slice xs values ys ↔
    ∃ p, slice.span xs.length = .ok p ∧ withSlice xs p values = .ok ys := by
  constructor
  · intro put
    cases put with
    | stretch goes =>
        obtain ⟨p, done, covers⟩ := goes.span
        refine ⟨p, done, ?_⟩
        rw [withSlice, covers.steps, if_pos (beq_self_eq_true 1), goes.stretch covers, covers.starts]
    | scattered goes apart each length placed kept =>
        obtain ⟨p, done, covers⟩ := goes.span
        have same : values.length = p.count := eq_of_lt_iff fun n => by rw [each, covers.counts]
        refine ⟨p, done, ?_⟩
        rw [(scattered_iff done goes covers same).mp ⟨length, placed, kept⟩, withSlice, covers.steps,
          if_neg (by simpa using apart), if_neg (by simpa using same)]
  · rintro ⟨p, done, changed⟩
    obtain ⟨start, stop, step, goes, covers⟩ := goes_of_span done
    rw [withSlice, covers.steps] at changed
    by_cases single : step = 1
    · subst single
      cases changed
      rw [goes.stretch covers, covers.starts]
      exact .stretch goes
    · rw [if_neg (by simpa using single)] at changed
      split at changed
      · cases changed
      · rename_i same
        cases changed
        have same : values.length = p.count := by simpa using same
        obtain ⟨length, placed, kept⟩ := (scattered_iff done goes covers same).mpr rfl
        exact .scattered goes single (fun n => by rw [same, covers.counts]) length placed kept

end Subscript

end Snippet
