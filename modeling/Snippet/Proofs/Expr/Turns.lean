import Snippet.Proofs.Expr.Matching

/-!
The loops of the grammar, turn by turn. A turn either ends its loop or asks for another one, and
then it has taken a token. So a loop has turns enough if it has as many as there are tokens, and it
makes no difference how many more it is given.
-/

set_option autoImplicit false

namespace Snippet.Grammar

open Reader Token

variable {σ α : Type}

/-- What a turn comes to: another turn, and what its result is made part of, or the end. -/
inductive Turn (σ α : Type) where
  | again (next : σ) (join : α → α)
  | done (a : α)

/-- A loop of a reader, as a function of the turns that it may take, and what it does in each. -/
structure Loop where
  State : Type
  Result : Type
  read : Nat → Reader Result
  turn : State → Reader (Turn State Result)
  /-- The result if no turn is left. -/
  stop : State → Result
  start : State

/-- Take turns as long as they ask for another one. -/
def runTurns (turn : σ → Reader (Turn σ α)) (stop : σ → α) : Nat → σ → Reader α
  | 0, s => return stop s
  | turns + 1, s => do
      match ← turn s with
      | .again next join => return join (← runTurns turn stop turns next)
      | .done a => return a

/-- A turn that asks for another one has taken a token. -/
def Turned (ts : List Token) : Turn σ α → List Token → Prop
  | .again _ _, rest => Later ts rest
  | .done _, rest => Left ts rest

theorem matches_runTurns {E : Endings} {ts : List Token} {turn turn' : σ → Reader (Turn σ α)}
    {stop stop' : σ → α} (stream : IsStream ts)
    (each : ∀ s rest, Left ts rest → Matches E rest (Turned rest) (turn s) (turn' s))
    {turns turns' : Nat} (enough : ts.length ≤ turns) (enough' : ts.length ≤ turns') (s : σ) :
    Matches E ts (fun _ => Left ts) (runTurns turn stop turns s)
      (runTurns turn' stop' turns' s) := by
  have some_left := List.length_pos_iff.mpr stream.ne_nil
  induction turns generalizing ts turns' s with
  | zero => omega
  | succ turns ih =>
      obtain ⟨turns', rfl⟩ := Nat.exists_eq_add_of_le' (show 1 ≤ turns' by omega)
      refine (each s ts stream.refl).bind fun turned rest taken => ?_
      cases turned with
      | again next join =>
          have more : Later ts rest := taken
          have fewer := more.2
          refine (ih (stream.later more) (fun s left behind => each s left (more.1.trans behind)) ?_
            ?_ next (List.length_pos_iff.mpr more.1.2)).bind
            fun a left behind => .pure (more.1.trans behind)
          · omega
          · omega
      | done a => exact .pure taken

theorem matches_allTurns {E : Endings} {ts : List Token} {turn turn' : σ → Reader (Turn σ α)}
    {stop stop' : σ → α} (stream : IsStream ts)
    (each : ∀ s rest, Left ts rest → Matches E rest (Turned rest) (turn s) (turn' s)) (s : σ) :
    Matches E ts (fun _ => Left ts) (runTurns turn stop ts.length s)
      (runTurns turn' stop' ts.length s) :=
  matches_runTurns stream each (Nat.le_refl _) (Nat.le_refl _) s

-- Where the first turn takes a token in any case, so does the loop.
theorem matches_runTurns_of_taken {E : Endings} {ts : List Token}
    {turn turn' : σ → Reader (Turn σ α)} {stop stop' : σ → α} (stream : IsStream ts) {s : σ}
    (first : Matches E ts (fun _ => Later ts) (turn s) (turn' s))
    (each : ∀ s rest, Left ts rest → Matches E rest (Turned rest) (turn s) (turn' s)) :
    Matches E ts (fun _ => Later ts) (runTurns turn stop ts.length s)
      (runTurns turn' stop' ts.length s) := by
  have some_left := List.length_pos_iff.mpr stream.ne_nil
  obtain ⟨turns, counted⟩ := Nat.exists_eq_succ_of_ne_zero some_left.ne'
  rw [counted]
  refine first.bind fun turned rest more => ?_
  cases turned with
  | again next join =>
      have enough : rest.length ≤ turns := Nat.le_of_lt_succ (counted ▸ more.2)
      exact (matches_runTurns (stream.later more)
        (fun s left behind => each s left (more.1.trans behind)) enough enough next).bind
        fun a left behind => .pure (more.left behind)
  | done a => exact .pure more

/-! ### The loops -/

def chainTurn (operand : Reader Expr) (join? : TokenKind → Option (Expr → Expr → Expr))
    (left : Expr) : Reader (Turn Expr Expr) := do
  match join? (← peek).kind with
  | none => return .done left
  | some join =>
      advance
      let right ← operand
      return .again (join left right) id

def linksTurn (operand : Reader Expr) : Unit → Reader (Turn Unit (List (Comparison × Expr))) :=
  fun _ => do
    match ← comparison? with
    | none => return .done []
    | some op =>
        let right ← operand
        return .again () ((op, right) :: ·)

def itemsTurn (item : Reader α) (goesOn : TokenKind → Bool) : Unit → Reader (Turn Unit (List α)) :=
  fun _ => do
    if ← accept .comma then
      if goesOn (← peek).kind then
        let first ← item
        return .again () (first :: ·)
      else return .done []
    else return .done []

def argumentsTurn (levels : Levels) (closing : TokenKind) (afterKeyword : Bool) :
    Reader (Turn Bool (List Argument)) := do
  if (← peek).kind == closing then return .done []
  else
    let first ← argument levels afterKeyword
    if ← accept .comma then return .again (afterKeyword || first.1.isSome) (first :: ·)
    else return .done [first]

def trailersTurn (levels : Levels) (base : Expr) : Reader (Turn Expr Expr) := do
  match (← peek).kind with
  | .openParen =>
      advance
      let args ← arguments levels .closeParen
      discard <| expect .closeParen
      return .again (.call base.column base args) id
  | .openBracket =>
      advance
      let sub ← subscript levels
      discard <| expect .closeBracket
      return .again (.index base.column base sub) id
  | .dot =>
      advance
      let name ← expect .name
      return .again (.member base.column base name.value) id
  | _ => return .done base

def textsTurn (levels : Levels) : Unit → Reader (Turn Unit (Bool × List Part)) :=
  fun _ => do
    let token ← peek
    match token.kind with
    | .string =>
        advance
        return .again () fun (formatted, rest) => (formatted, .text token.value :: rest)
    | .formatted =>
        advance
        let parts ← Field.readBody (readField levels) token.column token.value
        return .again () fun (_, rest) => (true, parts ++ rest)
    | _ => return .done (false, [])

section Loops

variable {levels : Levels} {turns : Nat}

theorem chainLoop_eq {operand : Reader Expr} {join? : TokenKind → Option (Expr → Expr → Expr)}
    (left : Expr) :
    chainLoop operand join? turns left = runTurns (chainTurn operand join?) id turns left := by
  induction turns generalizing left with
  | zero => rfl
  | succ turns ih =>
      rw [chainLoop, runTurns, chainTurn, bind_assoc]
      refine congrArg (peek >>= ·) (funext fun token => ?_)
      cases join? token.kind with
      | none => rfl
      | some join => simp only [ih, bind_assoc, pure_bind, id, bind_pure]

theorem linksLoop_eq {operand : Reader Expr} :
    linksLoop operand turns = runTurns (linksTurn operand) (fun _ => []) turns () := by
  induction turns with
  | zero => rfl
  | succ turns ih =>
      rw [linksLoop, runTurns, linksTurn, bind_assoc]
      refine congrArg (comparison? >>= ·) (funext fun op => ?_)
      cases op with
      | none => rfl
      | some op => simp only [ih, bind_assoc, pure_bind]

theorem moreItems_eq {item : Reader α} {goesOn : TokenKind → Bool} :
    moreItems item goesOn turns = runTurns (itemsTurn item goesOn) (fun _ => []) turns () := by
  induction turns with
  | zero => rfl
  | succ turns ih =>
      rw [moreItems, runTurns, itemsTurn, bind_assoc]
      refine congrArg (accept .comma >>= ·) (funext fun comma => ?_)
      cases comma with
      | false => rfl
      | true =>
          simp only [if_true, bind_assoc]
          refine congrArg (peek >>= ·) (funext fun token => ?_)
          cases goesOn token.kind with
          | false => rfl
          | true => simp only [if_true, ih, bind_assoc, pure_bind]

theorem argumentsLoop_eq {closing : TokenKind} (afterKeyword : Bool) :
    argumentsLoop levels closing turns afterKeyword =
      runTurns (argumentsTurn levels closing) (fun _ => []) turns afterKeyword := by
  induction turns generalizing afterKeyword with
  | zero => rfl
  | succ turns ih =>
      rw [argumentsLoop, runTurns, argumentsTurn, bind_assoc]
      refine congrArg (peek >>= ·) (funext fun token => ?_)
      cases token.kind == closing with
      | true => rfl
      | false =>
          simp only [Bool.false_eq_true, if_false, bind_assoc]
          refine congrArg (argument levels afterKeyword >>= ·) (funext fun first => ?_)
          refine congrArg (accept .comma >>= ·) (funext fun comma => ?_)
          cases comma with
          | false => rfl
          | true => simp only [if_true, ih, pure_bind]

theorem trailersLoop_eq (base : Expr) :
    trailersLoop levels turns base = runTurns (trailersTurn levels) id turns base := by
  induction turns generalizing base with
  | zero => rfl
  | succ turns ih =>
      rw [trailersLoop, runTurns, trailersTurn, bind_assoc]
      refine congrArg (peek >>= ·) (funext fun token => ?_)
      cases token.kind <;> first | rfl | simp only [ih, bind_assoc, pure_bind, id, bind_pure]

theorem textsLoop_eq :
    textsLoop levels turns = runTurns (textsTurn levels) (fun _ => (false, [])) turns () := by
  induction turns with
  | zero => rfl
  | succ turns ih =>
      rw [textsLoop, runTurns, textsTurn, bind_assoc]
      refine congrArg (peek >>= ·) (funext fun token => ?_)
      cases token.kind <;> first | rfl | simp only [ih, bind_assoc, pure_bind]

end Loops

/-- The loops over tokens of a grammar, with the operands and items that they are used with. -/
inductive IsLoop (levels : Levels) : Loop → Prop
  | or (left : Expr) : IsLoop levels
      ⟨Expr, Expr, (chainLoop (levels .and) (joinBool .or .or) · left),
        chainTurn (levels .and) (joinBool .or .or), id, left⟩
  | and (left : Expr) : IsLoop levels
      ⟨Expr, Expr, (chainLoop (levels .not) (joinBool .and .and) · left),
        chainTurn (levels .not) (joinBool .and .and), id, left⟩
  | links : IsLoop levels
      ⟨Unit, _, linksLoop (levels .sum), linksTurn (levels .sum), fun _ => [], ()⟩
  | sum (left : Expr) : IsLoop levels
      ⟨Expr, Expr, (chainLoop (levels .product) (joinBinary sumOp?) · left),
        chainTurn (levels .product) (joinBinary sumOp?), id, left⟩
  | product (left : Expr) : IsLoop levels
      ⟨Expr, Expr, (chainLoop (levels .unary) (joinBinary productOp?) · left),
        chainTurn (levels .unary) (joinBinary productOp?), id, left⟩
  | trailers (base : Expr) : IsLoop levels
      ⟨Expr, Expr, (trailersLoop levels · base), trailersTurn levels, id, base⟩
  | arguments (closing : TokenKind) (afterKeyword : Bool) : IsLoop levels
      ⟨Bool, _, (argumentsLoop levels closing · afterKeyword), argumentsTurn levels closing,
        fun _ => [], afterKeyword⟩
  | items (goesOn : TokenKind → Bool) : IsLoop levels
      ⟨Unit, _, moreItems (levels .conditional) goesOn, itemsTurn (levels .conditional) goesOn,
        fun _ => [], ()⟩
  | entries (goesOn : TokenKind → Bool) : IsLoop levels
      ⟨Unit, _, moreItems (entry levels) goesOn, itemsTurn (entry levels) goesOn, fun _ => [], ()⟩
  | texts : IsLoop levels
      ⟨Unit, _, textsLoop levels, textsTurn levels, fun _ => (false, []), ()⟩

/-- A loop is read by taking its turns. -/
theorem IsLoop.read_eq {levels : Levels} {loop : Loop} (of_levels : IsLoop levels loop)
    (turns : Nat) : loop.read turns = runTurns loop.turn loop.stop turns loop.start := by
  cases of_levels with
  | or left | and left | sum left | product left => exact chainLoop_eq left
  | links => exact linksLoop_eq
  | trailers base => exact trailersLoop_eq base
  | arguments closing afterKeyword => exact argumentsLoop_eq afterKeyword
  | items goesOn | entries goesOn => exact moreItems_eq
  | texts => exact textsLoop_eq

end Snippet.Grammar
