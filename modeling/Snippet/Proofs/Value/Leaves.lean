import Mathlib.Algebra.BigOperators.Group.List.Basic
import Snippet.Value.Render
import Snippet.Proofs.Program
import Snippet.Proofs.Value.Weight
import Snippet.Proofs.Value.Written

/-!
The leaves of a rendered text. Every character of a text counts one, and so do every other value
without items and every empty container. The weight of a value bounds the leaves that it shows
itself; those that it shows through a view of a dict are counted apart, as a view weighs one.
-/

set_option autoImplicit false

namespace Snippet

/-- A stretch of a rendered text. -/
inductive Fragment where
  /-- A quote, a bracket, or what stands between items. -/
  | frame (t : Text)
  /-- What counts one. It is viewed if a view of a dict shows it. -/
  | leaf (viewed : Bool) (t : Text)

namespace Fragment

def text : Fragment → Text
  | frame t | leaf _ t => t

def isLeaf : Fragment → Bool
  | frame _ => false
  | leaf .. => true

def isPlain : Fragment → Bool
  | frame _ => false
  | leaf viewed _ => !viewed

def isViewed : Fragment → Bool
  | frame _ => false
  | leaf viewed _ => viewed

end Fragment

/-- A rendered text in stretches. -/
abbrev Fragments := List Fragment

namespace Fragments

def text (fs : Fragments) : Text :=
  fs.flatMap Fragment.text

def leaves (fs : Fragments) : Nat :=
  fs.countP Fragment.isLeaf

/-- The leaves that no view shows. -/
def plainLeaves (fs : Fragments) : Nat :=
  fs.countP Fragment.isPlain

def viewedLeaves (fs : Fragments) : Nat :=
  fs.countP Fragment.isViewed

theorem leaves_eq (fs : Fragments) : fs.leaves = fs.plainLeaves + fs.viewedLeaves := by
  induction fs with
  | nil => rfl
  | cons f rest ih =>
      simp only [leaves, plainLeaves, viewedLeaves] at ih
      simp only [leaves, plainLeaves, viewedLeaves, List.countP_cons, ih]
      rcases f with t | ⟨viewed, t⟩
      · simp [Fragment.isLeaf, Fragment.isPlain, Fragment.isViewed]
      · cases viewed <;> simp [Fragment.isLeaf, Fragment.isPlain, Fragment.isViewed] <;> omega

def joined : List Fragments → Fragments
  | [] => []
  | [fs] => fs
  | fs :: rest => fs ++ .frame [',', ' '] :: joined rest

/-- Items between brackets; nothing between them is a leaf. -/
def enclosed (viewed : Bool) (opening : Text) (items : List Fragments) (closing : Text) :
    Fragments :=
  if items.isEmpty then [.leaf viewed (opening ++ closing)]
  else .frame opening :: joined items ++ [.frame closing]

@[simp] theorem text_append (fs gs : Fragments) : text (fs ++ gs) = text fs ++ text gs :=
  List.flatMap_append

@[simp] theorem text_cons (f : Fragment) (fs : Fragments) : text (f :: fs) = f.text ++ text fs :=
  rfl

@[simp] theorem text_nil : text [] = [] :=
  rfl

theorem text_joined (items : List Fragments) :
    text (joined items) = Value.commaJoined (items.map text) := by
  induction items with
  | nil => rfl
  | cons fs rest ih =>
      cases rest with
      | nil => rfl
      | cons gs others =>
          rw [joined, text_append, text_cons, ih]
          · simp [Value.commaJoined, Text.join, Fragment.text]
          · simp

theorem text_enclosed (viewed : Bool) (opening : Text) (items : List Fragments) (closing : Text) :
    text (enclosed viewed opening items closing) =
      Value.enclosed opening (Value.commaJoined (items.map text)) closing := by
  rw [enclosed]
  split
  · rename_i none
    rw [List.isEmpty_iff.mp none]
    simp [Value.enclosed, Value.commaJoined, Text.join, Fragment.text]
  · simp [Value.enclosed, Fragment.text, text_joined]

@[simp] theorem plainLeaves_append (fs gs : Fragments) :
    plainLeaves (fs ++ gs) = plainLeaves fs + plainLeaves gs :=
  List.countP_append

@[simp] theorem plainLeaves_frame (t : Text) (fs : Fragments) :
    plainLeaves (.frame t :: fs) = plainLeaves fs := by
  simp [plainLeaves, Fragment.isPlain]

@[simp] theorem plainLeaves_nil : plainLeaves [] = 0 :=
  rfl

theorem plainLeaves_joined (items : List Fragments) :
    plainLeaves (joined items) = (items.map plainLeaves).sum := by
  induction items with
  | nil => rfl
  | cons fs rest ih =>
      cases rest with
      | nil => simp [joined]
      | cons gs others =>
          rw [joined, plainLeaves_append, plainLeaves_frame, ih]
          · simp
          · simp

theorem plainLeaves_enclosed {viewed : Bool} (opening : Text) {items : List Fragments}
    (closing : Text) (held : items.isEmpty = false) :
    plainLeaves (enclosed viewed opening items closing) = (items.map plainLeaves).sum := by
  simp [enclosed, held, plainLeaves_joined]

theorem plainLeaves_shut {viewed : Bool} (opening : Text) {items : List Fragments}
    (closing : Text) (shut : items.isEmpty = true) :
    plainLeaves (enclosed viewed opening items closing) ≤ 1 := by
  rw [enclosed, if_pos shut]
  exact List.countP_le_length

theorem plainLeaves_enclosed_viewed (opening : Text) {items : List Fragments} (closing : Text)
    (viewed : ∀ fs ∈ items, plainLeaves fs = 0) :
    plainLeaves (enclosed true opening items closing) = 0 := by
  cases items with
  | nil => rfl
  | cons fs rest =>
      rw [plainLeaves_enclosed _ _ rfl]
      exact List.sum_eq_zero (by simpa using viewed)

end Fragments

namespace Value

open Fragments (plainLeaves)

/-- A text in quotes: a leaf for each character. -/
def quotedFragments (viewed : Bool) (t : Text) : Fragments :=
  let quote := Text.quoteFor t
  .frame [quote] :: t.map (fun c => .leaf viewed (Text.quotedChar quote isPrintable c))
    ++ [.frame [quote]]

/-- The fragments of a value without items. -/
def scalarFragments (viewed : Bool) : Value → Fragments
  | text _ t | raw _ t => quotedFragments viewed t
  | v => [.leaf viewed ((renderScalar v).toOption.getD [])]

def isContainerOrView : Value → Bool
  | tuple .. | list _ | dict _ | view .. => true
  | _ => false

/-- The text of a container that is open on the way to itself. -/
def openMark : Value → Text
  | tuple .. => "(...)".toList
  | list _ => "[...]".toList
  | dict _ => ['{', '.', '.', '.', '}']
  | _ => "...".toList

def brackets : Value → Text × Text
  | tuple _ [_] => (['('], [',', ')'])
  | tuple .. => (['('], [')'])
  | list _ => (['['], [']'])
  | dict _ => (['{'], ['}'])
  | view _ kind _ => (kind.typeName.toList ++ "([".toList, "])".toList)
  | _ => ([], [])

/-- An entry of a dict, given the fragments of its key and its value. -/
def entryFragments (inner : Value → Fragments) (e : Value × Value) : Fragments :=
  inner e.1 ++ .frame [':', ' '] :: inner e.2

/-- What stands between the brackets of a container. All that a view shows is viewed. -/
def partFragments (inner : Bool → Value → Fragments) (s : Store) (path : Path) (viewed : Bool) :
    Value → List Fragments
  | tuple _ items => items.map (inner viewed)
  | list r => (s.items r).map (inner viewed)
  | dict r => (s.entries r).map (entryFragments (inner viewed))
  | view _ kind r => (shownItems s path kind r).map (inner true)
  | _ => []

/-- The fragments of a value below the containers of a path, as deep as a budget allows. -/
def fragmentsAt (s : Store) : Nat → Path → Bool → Value → Fragments
  | 0, _, _, _ => []
  | budget + 1, path, viewed, v =>
      if v.isContainerOrView then
        if path.any (same v) then [.leaf viewed (openMark v)]
        else
          let parts :=
            partFragments (fun viewed w => fragmentsAt s budget (v :: path) viewed w) s path viewed v
          .enclosed viewed (brackets v).1 parts (brackets v).2
      else scalarFragments viewed v

/-- The text of a value as it would be written, in fragments. -/
def fragments (s : Store) (v : Value) : Fragments :=
  fragmentsAt s depthBudget [] false v

/-- The text of a value as it is shown, in fragments: a text stands for itself. -/
def shownFragments (s : Store) : Value → Fragments
  | text _ t | raw _ t => t.map fun c => .leaf false [c]
  | v => fragments s v

theorem mapM_ok {α β γ : Type} {f : α → Except Breach β} {g : α → γ} {h : γ → β} {xs : List α}
    {ys : List β} (each : ∀ x ∈ xs, ∀ y, f x = .ok y → h (g x) = y) (done : xs.mapM f = .ok ys) :
    (xs.map g).map h = ys := by
  induction xs generalizing ys with
  | nil => cases done; rfl
  | cons x rest ih =>
      rw [List.mapM_cons, bind_eq_ok] at done
      obtain ⟨y, first, done⟩ := done
      rw [bind_eq_ok] at done
      obtain ⟨later, others, done⟩ := done
      cases done
      rw [List.map_cons, List.map_cons, each x List.mem_cons_self y first,
        ih (fun z member => each z (List.mem_cons_of_mem x member)) others]

theorem text_quotedFragments (viewed : Bool) (t : Text) :
    (quotedFragments viewed t).text = Text.quoted t := by
  simp only [quotedFragments, Fragments.text, Text.quoted, Text.quotedWith]
  rw [List.flatMap_append, List.flatMap_cons, List.flatMap_map]
  rfl

theorem text_scalarFragments {viewed : Bool} {v : Value} {t : Text} (scalar : renderScalar v = .ok t) :
    (scalarFragments viewed v).text = t := by
  cases v with
  | text tag u => cases scalar; exact text_quotedFragments viewed u
  | raw tag u => cases scalar; exact text_quotedFragments viewed u
  | _ => simp [scalarFragments, scalar, Except.toOption, Fragment.text]

section Text

variable {s : Store} {render : Renderer} {inner : Value → Fragments} {t : Text}

theorem text_items {items : List Value} (each : ∀ v ∈ items, ∀ t, render v = .ok t → (inner v).text = t)
    (done : renderItems render items = .ok t) :
    commaJoined ((items.map inner).map Fragments.text) = t := by
  rw [renderItems, map_eq_pure_bind, bind_eq_ok] at done
  obtain ⟨texts, rendered, done⟩ := done
  cases done
  rw [mapM_ok each rendered]

theorem text_entry {e : Value × Value} (each : ∀ v t, render v = .ok t → (inner v).text = t)
    (done : renderEntry render e = .ok t) : (entryFragments inner e).text = t := by
  rw [renderEntry, bind_eq_ok] at done
  obtain ⟨key, first, done⟩ := done
  rw [bind_eq_ok] at done
  obtain ⟨value, second, done⟩ := done
  cases done
  simp [entryFragments, each _ _ first, each _ _ second, Fragment.text]

end Text

-- A container is cut short, or its parts are written between its brackets.
theorem renderStep_container {s : Store} {render : Path → Renderer} {path : Path} {v : Value} {t : Text}
    {inner : Bool → Value → Fragments} (viewed : Bool) (container : v.isContainerOrView = true)
    (each : ∀ viewed w t, render (v :: path) w = .ok t → (inner viewed w).text = t)
    (done : renderStep render s path v = .ok t) :
    if path.any (same v) then t = openMark v
    else enclosed (brackets v).1
      (commaJoined ((partFragments inner s path viewed v).map Fragments.text)) (brackets v).2 = t := by
  have closed {r : Except Breach Text} {marker : Text}
      (written : (if path.any (same v) = true then .ok marker else r) = .ok t)
      (cut : marker = openMark v)
      (rest : r = .ok t → enclosed (brackets v).1
        (commaJoined ((partFragments inner s path viewed v).map Fragments.text)) (brackets v).2 = t) :
      if path.any (same v) then t = openMark v
      else enclosed (brackets v).1
        (commaJoined ((partFragments inner s path viewed v).map Fragments.text)) (brackets v).2 = t := by
    split at written
    · cases written
      rwa [if_pos ‹_›]
    · rw [if_neg ‹_›]
      exact rest written
  cases v with
  | tuple tag items =>
      refine closed done rfl fun written => ?_
      split at written
      · rename_i x
        obtain ⟨inside, rendered, written⟩ := bind_eq_ok.mp written
        cases written
        simp [partFragments, each _ _ _ rendered, commaJoined, Text.join, brackets]
      · rename_i many
        obtain ⟨inside, rendered, written⟩ := bind_eq_ok.mp written
        cases written
        rw [partFragments, text_items (fun w _ => each viewed w) rendered, brackets]
        exact many
  | list r =>
      refine closed done rfl fun written => ?_
      obtain ⟨inside, rendered, written⟩ := bind_eq_ok.mp written
      cases written
      rw [partFragments, text_items (fun w _ => each viewed w) rendered]
      rfl
  | dict r =>
      refine closed done rfl fun written => ?_
      obtain ⟨inside, rendered, written⟩ := bind_eq_ok.mp written
      cases written
      rw [partFragments, mapM_ok (fun e _ t => text_entry (each viewed)) rendered]
      rfl
  | view tag kind r =>
      refine closed done rfl fun written => ?_
      obtain ⟨inside, rendered, written⟩ := bind_eq_ok.mp written
      cases written
      rw [partFragments, text_items (fun w _ => each true w) rendered]
      rfl
  | _ => cases container

-- The fragments of a value make up its text.
theorem text_fragmentsAt {s : Store} {budget : Nat} {path : Path} {viewed : Bool} {v : Value} {t : Text}
    (done : renderAt s budget path v = .ok t) : (fragmentsAt s budget path viewed v).text = t := by
  induction budget generalizing path viewed v t with
  | zero => cases done
  | succ budget ih =>
      rw [renderAt] at done
      rw [fragmentsAt]
      by_cases container : v.isContainerOrView = true
      · have each (viewed : Bool) (w : Value) (t : Text)
            (done : renderAt s budget (v :: path) w = .ok t) :
            (fragmentsAt s budget (v :: path) viewed w).text = t := ih done
        have shown := renderStep_container viewed container each done
        rw [if_pos container]
        split
        · rename_i is_open
          rw [if_pos is_open] at shown
          simp [shown, Fragment.text]
        · rename_i is_open
          rw [if_neg is_open] at shown
          rw [Fragments.text_enclosed]
          exact shown
      · rw [if_neg container]
        apply text_scalarFragments
        cases v <;> first | exact done | exact absurd rfl container

/-! ### The leaves against the weight -/

theorem leafWeight_pos {v : Value} (no_text : v.text? = Option.none) : 1 ≤ leafWeight v := by
  cases v with
  | text tag t | raw tag t => cases no_text
  | int tag n =>
      simp only [leafWeight, intWeight]
      split <;> omega
  | _ => exact Nat.le_refl _

theorem plainLeaves_scalarFragments (v : Value) :
    plainLeaves (scalarFragments false v) ≤ leafWeight v := by
  have counted (t : Text) : plainLeaves (quotedFragments false t) = t.length := by
    simp only [quotedFragments, plainLeaves, List.countP_append, List.countP_cons, List.countP_map]
    simp [Fragment.isPlain, Function.comp_def]
  cases v with
  | text tag t | raw tag t => exact (counted t).le
  | _ => exact List.countP_le_length.trans (leafWeight_pos rfl)

theorem plainLeaves_scalarFragments_viewed (v : Value) :
    plainLeaves (scalarFragments true v) = 0 := by
  cases v <;> simp [scalarFragments, quotedFragments, plainLeaves, Fragment.isPlain]

-- Below a view every leaf is viewed.
theorem plainLeaves_fragmentsAt_viewed (s : Store) (budget : Nat) (path : Path) (v : Value) :
    plainLeaves (fragmentsAt s budget path true v) = 0 := by
  induction budget generalizing path v with
  | zero => rfl
  | succ budget ih =>
      rw [fragmentsAt]
      split
      · split
        · rfl
        · apply Fragments.plainLeaves_enclosed_viewed
          cases v with
          | dict r =>
              simp only [partFragments, List.forall_mem_map]
              simp [entryFragments, ih]
          | _ => simp [partFragments, ih]
      · exact plainLeaves_scalarFragments_viewed v

theorem isEmpty_partFragments {s : Store} {path : Path} {viewed : Bool} {v : Value}
    (inner : Bool → Value → Fragments) (open_ : v.isLeaf = false) :
    (partFragments inner s path viewed v).isEmpty = (inside s v).isEmpty := by
  cases v with
  | tuple tag items => simp [partFragments, inside]
  | list r => simp [partFragments, inside, children]
  | dict r =>
      simp only [partFragments, inside, children]
      cases s.entries r <;> rfl
  | _ => cases open_

theorem sum_partFragments {s : Store} {path : Path} {viewed : Bool} {v : Value}
    (inner : Bool → Value → Fragments) (open_ : v.isLeaf = false) :
    ((partFragments inner s path viewed v).map plainLeaves).sum =
      ((inside s v).map fun w => plainLeaves (inner viewed w)).sum := by
  cases v with
  | tuple tag items => simp [partFragments, inside, Function.comp_def]
  | list r => simp [partFragments, inside, children, Function.comp_def]
  | dict r =>
      simp only [partFragments, inside, children]
      induction s.entries r with
      | nil => rfl
      | cons e rest ih =>
          simp only [List.map_cons, List.sum_cons, ih, List.flatMap_cons, List.map_append,
            List.sum_append]
          simp [entryFragments]
  | _ => cases open_

-- What a value without parts of its own shows: a view shows viewed leaves only.
theorem plainLeaves_leaf {s : Store} {budget : Nat} {path : Path} {v : Value}
    (leaf : v.isLeaf = true) : plainLeaves (fragmentsAt s budget path false v) ≤ leafWeight v := by
  cases budget with
  | zero => exact Nat.zero_le _
  | succ budget =>
      rw [fragmentsAt]
      split
      · rename_i container
        obtain ⟨tag, kind, r, rfl⟩ : ∃ tag kind r, v = view tag kind r := by
          cases v <;> simp_all [isLeaf, isContainerOrView]
        split
        · exact Nat.le_refl _
        · simp only [partFragments]
          cases shown : shownItems s path kind r with
          | nil => exact Fragments.plainLeaves_shut _ _ rfl
          | cons w rest =>
              rw [Fragments.plainLeaves_enclosed _ _ rfl]
              simp [plainLeaves_fragmentsAt_viewed, Function.comp_def]
      · exact plainLeaves_scalarFragments v

-- By the depth of the value; a container adds up what its parts weigh.
theorem plainLeaves_le_weighAt {s : Store} {budget room limit total : Nat} {path : Path} {v : Value}
    (roomy : Roomy s path room) (done : ¬ Fails (renderAt s budget path v))
    (within : weighAt s limit room path v total ≤ limit) :
    total + plainLeaves (fragmentsAt s budget path false v) ≤ weighAt s limit room path v total := by
  induction budget generalizing room path v total with
  | zero => exact absurd (fails_error _) done
  | succ budget ih =>
      by_cases leaf : v.isLeaf = true
      · rw [weighAt_leaf leaf]
        exact Nat.add_le_add_left (plainLeaves_leaf leaf) total
      have open_ : v.isLeaf = false := by simpa using leaf
      have container : v.isContainerOrView = true := by cases v <;> first | rfl | cases open_
      rw [fragmentsAt, if_pos container]
      by_cases is_open : path.any (same v) = true
      · rw [weighAt_shut open_ (.inr is_open), if_pos is_open]
        exact Nat.add_le_add_left List.countP_le_length total
      have closed : path.any (same v) = false := by simpa using is_open
      rw [if_neg is_open]
      by_cases empty : (inside s v).isEmpty = true
      · rw [weighAt_shut open_ (.inl empty)]
        refine Nat.add_le_add_left (Fragments.plainLeaves_shut _ _ ?_) total
        rw [isEmpty_partFragments _ open_, empty]
      have held : (inside s v).isEmpty = false := by simpa using empty
      obtain ⟨less, rest, weighed⟩ := weighAt_inside roomy open_ held closed
      rw [Fragments.plainLeaves_enclosed _ _ (by rw [isEmpty_partFragments _ open_, held]),
        sum_partFragments _ open_]
      rw [weighed] at within ⊢
      refine weighAll_ge (fun w member t fits => ?_) within
      refine ih rest (fun failed => done ?_) fits
      rw [renderAt, fails_renderStep]
      refine .inr ⟨closed, w, ?_, failed⟩
      cases v <;> first | exact member | cases open_

theorem plainLeaves_le_weight {s : Store} {limit : Nat} {v : Value} {t : Text}
    (done : written s v = .ok t) (within : weight s limit v ≤ limit) :
    plainLeaves (fragments s v) ≤ weight s limit v := by
  have rendered : ¬ Fails (renderAt s depthBudget [] v) :=
    fun failed => not_fails_ok t (by rwa [← done])
  have bounded := plainLeaves_le_weighAt (roomy_nil s) rendered within
  rwa [Nat.zero_add] at bounded

-- A text that stands for itself has a leaf for each character.
theorem shownFragments_bounded {s : Store} {limit : Nat} {v : Value} {t : Text}
    (done : shown s v = .ok t) (within : weight s limit v ≤ limit) :
    (shownFragments s v).text = t ∧ plainLeaves (shownFragments s v) ≤ weight s limit v := by
  have itself (u : Text) :
      Fragments.text (u.map fun c => .leaf false [c]) = u ∧
        plainLeaves (u.map fun c => .leaf false [c]) = u.length := by
    constructor
    · rw [Fragments.text, List.flatMap_map]
      exact List.flatMap_singleton' u
    · rw [plainLeaves, List.countP_map]
      exact List.countP_eq_length.mpr fun c _ => rfl
  cases v with
  | text tag u | raw tag u =>
      cases done
      refine ⟨(itself t).1, (itself t).2.le.trans ?_⟩
      rw [weight, weighAt_leaf rfl, Nat.zero_add]
      exact Nat.le_refl _
  | _ => exact ⟨text_fragmentsAt done, plainLeaves_le_weight done within⟩

end Value

end Snippet
