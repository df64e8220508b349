import Snippet.Error

/-!
Hooks: actions of extensions that run on the events of an execution. They run by falling priority,
those of one priority in the order in which they were added, and the first that fails is the last
that runs.
-/

set_option autoImplicit false

namespace Snippet

inductive Event where
  | programStart
  | beforeLine
  | afterLine
  | onError
  | programEnd
  deriving Repr, DecidableEq

namespace Event

def name : Event → String
  | programStart => "program_start"
  | beforeLine => "before_line"
  | afterLine => "after_line"
  | onError => "on_error"
  | programEnd => "program_end"

def all : List Event := [programStart, beforeLine, afterLine, onError, programEnd]

def ofName? (name : Text) : Option Event :=
  all.find? fun e => e.name.toList == name

end Event

/-- An event together with what it is about. -/
inductive Occasion where
  | programStart
  | beforeLine (line : Line)
  | afterLine (line : Line)
  | onError (e : Error)
  | programEnd
  deriving Repr, DecidableEq

namespace Occasion

def event : Occasion → Event
  | programStart => .programStart
  | beforeLine _ => .beforeLine
  | afterLine _ => .afterLine
  | onError _ => .onError
  | programEnd => .programEnd

/-- The line that an occasion is about. -/
def line? : Occasion → Option Line
  | beforeLine line | afterLine line => some line
  | programStart | onError _ | programEnd => none

end Occasion

/-- What hooks read and change. -/
structure Workspace where
  scope : Scope
  store : Store
  /-- What hooks have noted, and on which occasions. -/
  notes : Array (Occasion × Text)

namespace Workspace

def empty : Workspace :=
  { scope := .empty, store := .empty, notes := #[] }

end Workspace

abbrev Action := EStateM Halt Workspace

namespace Action

/-- Evaluate with the names of the workspace. -/
def evaluate (builtins : List Builtin) (t : Text) : Action Value :=
  fun w =>
    match Session.evaluate { scope := w.scope, builtins } t w.store with
    | .ok v s => .ok v { w with store := s }
    | .error stop s => .error (.ofStop stop) { w with store := s }

def find (name : Text) : Action Value := do
  match (← get).scope.find? name with
  | some v => return v
  | none => throw (.error ⟨.undefinedName name, none⟩)

def set (name : Text) (v : Value) : Action Unit :=
  modify fun w => { w with scope := w.scope.set name v }

def note (occasion : Occasion) (t : Text) : Action Unit :=
  modify fun w => { w with notes := w.notes.push (occasion, t) }

end Action

structure Hook where
  event : Event
  priority : Int
  /-- The extension that the hook belongs to. -/
  extension : Text
  act : List Builtin → Occasion → Action Unit

namespace Hook

/-- Add a hook behind those of its own priority. -/
def insert (hook : Hook) : List Hook → List Hook
  | [] => [hook]
  | first :: rest =>
      if first.priority < hook.priority then hook :: first :: rest
      else first :: insert hook rest

theorem insert_perm (hook : Hook) (hooks : List Hook) :
    (hook.insert hooks).Perm (hook :: hooks) := by
  induction hooks with
  | nil => exact .refl _
  | cons first rest ih =>
      by_cases h : first.priority < hook.priority
      · simp [insert, h]
      · simpa [insert, h] using (ih.cons first).trans (.swap hook first rest)

/-- Adding a hook keeps the hooks sorted by falling priority. -/
theorem pairwise_insert (hook : Hook) (hooks : List Hook)
    (sorted : hooks.Pairwise fun a b => b.priority ≤ a.priority) :
    (hook.insert hooks).Pairwise fun a b => b.priority ≤ a.priority := by
  induction hooks with
  | nil => simp [insert]
  | cons first rest ih =>
      obtain ⟨above, sorted⟩ := List.pairwise_cons.mp sorted
      by_cases h : first.priority < hook.priority
      · simp only [insert, h, if_true, List.pairwise_cons, List.mem_cons, forall_eq_or_imp]
        exact ⟨⟨by omega, fun x hx => by have := above x hx; omega⟩, above, sorted⟩
      · simp only [insert, h, if_false, List.pairwise_cons]
        refine ⟨fun x hx => ?_, ih sorted⟩
        rcases List.mem_cons.mp ((insert_perm hook rest).mem_iff.mp hx) with rfl | hx
        · omega
        · exact above x hx

/-- The hooks of an event in the order in which they run. -/
def ofEvent (hooks : List Hook) (event : Event) : List Hook :=
  hooks.filter fun h => h.event == event

/-- A mishap in a hook is an error of the event; an error stays what it is. -/
def failure (event : Event) : Halt → Error
  | .error e => e
  | .mishap m => ⟨.hookFailed event.name m.reason, none⟩

/-- Run the hooks of an occasion. -/
def emit (hooks : List Hook) (builtins : List Builtin) (occasion : Occasion) :
    EStateM Error Workspace Unit :=
  fun w =>
    match (ofEvent hooks occasion.event).forM (fun h => h.act builtins occasion) w with
    | .ok () w => .ok () w
    | .error halt w => .error (failure occasion.event halt) w

end Hook

end Snippet
