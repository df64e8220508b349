import Snippet.Proofs.Expr.Names
import Snippet.Proofs.Expr.Paired
import Snippet.Proofs.Expr.Turns

/-!
Every construct of the grammar takes tokens, and stops at the end mark at the latest. It reads its
operands at a tighter level where it starts, or at any level behind a token that it has taken, or in
a field of a formatted text. Where two readers of all levels match at those places, the construct
matches too.
-/

set_option autoImplicit false

namespace Snippet

namespace Field

/-- The texts that are read as expressions in the fields of a body. -/
def sources (body : Text) : List Text :=
  (stretches body).filterMap fun
    | .field field => some (splitSource .start field).1
    | _ => none

theorem mem_sources {body field : Text} (member : .field field ∈ stretches body) :
    (splitSource .start field).1 ∈ sources body :=
  List.mem_filterMap.mpr ⟨_, member, rfl⟩

theorem isInfix_of_mem_sources {body source : Text} (h : source ∈ sources body) :
    source <:+: body := by
  obtain ⟨stretch, member, found⟩ := List.mem_filterMap.mp h
  cases stretch with
  | field field =>
      cases found
      exact (splitSource_isPrefix .start field).isInfix.trans (isInfix_of_mem_stretches member)
  | literal | strayBrace | unclosed => contradiction

end Field

namespace Grammar

open Reader Token

variable {E : Endings} {levels levels' : Levels} {ts rest : List Token} {l : Level}

/-- A slice from its first colon on. -/
def sliceRest (levels : Levels) (column : Nat) (lower : Option Expr) : Reader Subscript := do
  discard <| expect .colon
  let upper ← slicePart levels [.colon, .closeBracket]
  let step ← if ← accept .colon then slicePart levels [.closeBracket] else pure none
  return .slice column lower upper step

/-- From some place on, two readers of all levels match, and take a token at least. -/
structure From (E : Endings) (levels levels' : Levels) (ts : List Token) : Prop where
  stream : IsStream ts
  level : ∀ l rest, Left ts rest → Matches E rest (fun _ => Later rest) (levels l) (levels' l)

/-- They match in the fields of the texts from there on. -/
def Fields (E : Endings) (levels levels' : Levels) (ts : List Token) : Prop :=
  ∀ token ∈ ts, token.kind = .formatted → ∀ source ∈ Field.sources token.value,
    Matched E (fun _ => True) (readField levels source) (readField levels' source)

/-- They match wherever a level that starts at a place may go on. -/
structure Below (E : Endings) (levels levels' : Levels) (l : Level) (ts : List Token) : Prop where
  stream : IsStream ts
  tighter : ∀ l', l.rank < l'.rank → Matches E ts (fun _ => Later ts) (levels l') (levels' l')
  behind : ∀ rest, Later ts rest → From E levels levels' rest
  fields : Fields E levels levels' ts

theorem From.left (h : From E levels levels' ts) (further : Left ts rest) :
    From E levels levels' rest :=
  ⟨h.stream.left further, fun l _ more => h.level l _ (further.trans more)⟩

theorem From.later (h : From E levels levels' ts) (further : Later ts rest) :
    From E levels levels' rest :=
  h.left further.1

theorem From.here (h : From E levels levels' ts) (l : Level) :
    Matches E ts (fun _ => Later ts) (levels l) (levels' l) :=
  h.level l ts h.stream.refl

theorem Fields.left (h : Fields E levels levels' ts) (further : Left ts rest) :
    Fields E levels levels' rest :=
  fun token member => h token (further.1.mem member)

/-! ### Formatted texts -/

theorem matched_readTail (column : Nat) (tail : Text) :
    Matched E (fun _ => True) (Field.readTail column tail) (Field.readTail column tail) := by
  unfold Field.readTail
  split
  · split
    · exact .mistake nofun nofun
    · split <;> exact .read trivial
  · exact .read trivial
  · exact .read trivial

theorem matched_readBody {readExpr readExpr' : Text → Except ReadError Expr} {body : Text}
    (fields : ∀ source ∈ Field.sources body,
      Matched E (fun _ => True) (readExpr source) (readExpr' source)) (column : Nat) :
    Matched E (fun _ => True) (Field.readBody readExpr column body)
      (Field.readBody readExpr' column body) := by
  refine .mapM fun stretch member => ?_
  cases stretch with
  | literal t => exact .read trivial
  | strayBrace | unclosed => exact .mistake nofun nofun
  | field source =>
      refine (matched_readTail column _).bind fun ending _ => ?_
      dsimp only
      split
      · exact .mistake nofun nofun
      · exact (fields _ (Field.mem_sources member)).bind fun _ _ => .read trivial

-- Where a turn ends the loop, no text is next.
theorem matches_textsTurn (stream : IsStream ts) (fields : Fields E levels levels' ts) :
    Matches E ts (fun turned rest => Later ts rest ∨
        rest = ts ∧ turned = .done (false, []) ∧ nextKind ts ∉ [.string, .formatted])
      (textsTurn levels ()) (textsTurn levels' ()) := by
  refine .peek_bind stream fun token rest here => ?_
  cases kind : token.kind with
  | string => exact .advance_bind stream here (by rw [kind]; decide) fun more => .pure (.inl more)
  | formatted =>
      refine .advance_bind stream here (by rw [kind]; decide) fun more => ?_
      have inside : token ∈ ts := by
        rw [here]
        exact List.mem_cons_self
      have read := matched_readBody (fields token inside kind) token.column
      refine (Matches.lift read).bind fun parts _ same => ?_
      rw [same]
      exact .pure (.inl more)
  | _ =>
      refine .pure (.inr ⟨rfl, rfl, ?_⟩)
      rw [here, nextKind_cons, kind]
      decide

theorem turned_textsTurn (stream : IsStream ts) (fields : Fields E levels levels' ts) :
    Matches E ts (Turned ts) (textsTurn levels ()) (textsTurn levels' ()) := by
  refine (matches_textsTurn stream fields).mono ?_
  rintro turned _ (more | ⟨rfl, rfl, -⟩)
  · cases turned with
    | again => exact more
    | done => exact more.1
  · exact stream.refl

/-! ### Loops and brackets -/

section Steps

variable (stream : IsStream ts)
include stream

-- What stands between an opening token and a closing one.
theorem matches_enclosed {α β : Type} {Q : β → List Token → Prop} {token : Token}
    {closing : TokenKind} {r r' : Reader α} {make : α → β} (here : ts = token :: rest)
    (inner : token.kind ≠ .finish) (inner' : closing ≠ .finish)
    (inside : Later ts rest → Matches E rest (fun _ => Left rest) r r')
    (holds : ∀ a left, Later ts left → Q (make a) left) :
    Matches E ts Q
      (advance >>= fun _ => r >>= fun a => (discard <| expect closing) >>= fun _ => pure (make a))
      (advance >>= fun _ => r' >>= fun a =>
        (discard <| expect closing) >>= fun _ => pure (make a)) := by
  refine .advance_bind stream here inner fun more => ?_
  refine (inside more).bind fun a left further => ?_
  refine (Matches.discard_expect ((stream.later more).left further) inner').bind ?_
  exact fun _ last closed => .pure (holds a last (more.trans (further.later closed)))

theorem matches_comparison?_bind {β : Type} {R : β → List Token → Prop}
    {k k' : Option Comparison → Reader β} (none : Matches E ts R (k none) (k' none))
    (some : ∀ op rest, Later ts rest → Matches E rest R (k (some op)) (k' (some op))) :
    Matches E ts R (comparison? >>= k) (comparison? >>= k') := by
  rw [Pairing.comparison?_bind, Pairing.comparison?_bind]
  refine .peek_bind stream fun token rest here => ?_
  cases found : comparisonOf? token.kind with
  | some op =>
      have before : token.kind ≠ .finish := (Pairing.comparisonOf?_depth found 0).1
      exact .advance_bind stream here before (some op rest)
  -- Of the operators with two words, `is` goes without `not`, but `not` only with its `in`.
  | none =>
      by_cases is : token.kind = .is
      · simp only [is, beq_self_eq_true, if_true]
        refine .advance_bind stream here (by rw [is]; decide) fun more => ?_
        exact .accept_bind (stream.later more) (by decide)
          (fun left further => some _ left (more.trans further)) (some _ rest more)
      · by_cases not : token.kind = .not
        · simp only [not, beq_self_eq_true, if_true, show (TokenKind.not == .is) = false from rfl,
            Bool.false_eq_true, if_false]
          have before : token.kind ≠ .finish := by rw [not]; decide
          refine .peekSecond_bind stream here fun second behind => ?_
          by_cases isIn : second.kind = .in
          · simp only [isIn, beq_self_eq_true, if_true]
            exact .advance_twice_bind stream here before (behind before) (by rw [isIn]; decide)
              (some _)
          · simp only [beq_false_of_ne isIn, Bool.false_eq_true, if_false]
            exact none
        · simp only [beq_false_of_ne is, beq_false_of_ne not, Bool.false_eq_true, if_false]
          exact .peekSecond_bind stream here fun _ _ => none

theorem matches_itemsTurn {α : Type} {item item' : Reader α}
    (of_item : ∀ rest, Later ts rest → Matches E rest (fun _ => Later rest) item item')
    (goesOn : TokenKind → Bool) :
    Matches E ts (Turned ts) (itemsTurn item goesOn ()) (itemsTurn item' goesOn ()) := by
  refine .accept_bind stream (by decide) (fun rest more => ?_) (.pure stream.refl)
  refine .peek_bind (stream.later more) fun token _ _ => ?_
  split
  · exact (of_item rest more).bind fun first rest' next => .pure (more.trans next)
  · exact .pure more.1

variable {operand operand' : Reader Expr}
  (of_operand : ∀ rest, Later ts rest → Matches E rest (fun _ => Later rest) operand operand')
include of_operand

theorem matches_chainTurn {join? : TokenKind → Option (Expr → Expr → Expr)}
    (inner : join? .finish = none) (left : Expr) :
    Matches E ts (Turned ts) (chainTurn operand join? left) (chainTurn operand' join? left) := by
  refine .peek_bind stream fun token rest here => ?_
  cases found : join? token.kind with
  | none => exact .pure stream.refl
  | some join =>
      have before : token.kind ≠ .finish := by
        intro ended
        rw [ended, inner] at found
        contradiction
      refine .advance_bind stream here before fun more => ?_
      exact (of_operand rest more).bind fun right rest' next => .pure (more.trans next)

theorem matches_linksTurn :
    Matches E ts (Turned ts) (linksTurn operand ()) (linksTurn operand' ()) := by
  refine matches_comparison?_bind stream (.pure stream.refl) fun op rest more => ?_
  exact (of_operand rest more).bind fun right rest' next => .pure (more.trans next)

end Steps

section Constructs

variable (h : From E levels levels' ts)
include h

theorem matches_argument (afterKeyword : Bool) :
    Matches E ts (fun _ => Later ts) (argument levels afterKeyword)
      (argument levels' afterKeyword) := by
  refine .peek_bind h.stream fun token rest here => ?_
  refine .peekSecond_bind h.stream here fun second behind => ?_
  split
  · rename_i named
    simp only [Bool.and_eq_true, beq_iff_eq] at named
    have before : token.kind ≠ .finish := by rw [named.1]; decide
    refine .advance_twice_bind h.stream here before (behind before) (by rw [named.2]; decide) ?_
    intro left more
    exact ((h.later more).here .conditional).bind fun e rest' next => .pure (more.trans next)
  · split
    · exact .fail nofun nofun
    · exact (h.here .conditional).bind fun e rest' next => .pure next

theorem matches_argumentsTurn (closing : TokenKind) (afterKeyword : Bool) :
    Matches E ts (Turned ts) (argumentsTurn levels closing afterKeyword)
      (argumentsTurn levels' closing afterKeyword) := by
  refine .peek_bind h.stream fun token _ _ => ?_
  split
  · exact .pure h.stream.refl
  · refine (matches_argument h afterKeyword).bind fun first rest more => ?_
    exact .accept_bind (h.stream.later more) (by decide)
      (fun left further => .pure (more.trans further)) (.pure more.1)

theorem matches_arguments (closing : TokenKind) :
    Matches E ts (fun _ => Left ts) (arguments levels closing) (arguments levels' closing) := by
  refine .remaining_bind ?_
  rw [argumentsLoop_eq, argumentsLoop_eq]
  exact matches_allTurns h.stream (fun afterKeyword rest further =>
    matches_argumentsTurn (h.left further) closing afterKeyword) false

theorem matches_moreItems {α : Type} {item item' : Reader α}
    (of_item : ∀ rest, Later ts rest → Matches E rest (fun _ => Later rest) item item')
    (goesOn : TokenKind → Bool) :
    Matches E ts (fun _ => Left ts) (moreItems item goesOn ts.length)
      (moreItems item' goesOn ts.length) := by
  rw [moreItems_eq, moreItems_eq]
  exact matches_allTurns h.stream (fun _ rest further =>
    matches_itemsTurn (h.stream.left further) (fun left more => of_item left (further.later more))
      goesOn) ()

theorem matches_listed (goesOn : TokenKind → Bool) (column : Expr → Nat) :
    Matches E ts (fun _ => Later ts) (listed levels goesOn column)
      (listed levels' goesOn column) := by
  refine (h.here .conditional).bind fun first rest more => ?_
  have behind := h.later more
  refine .peek_bind behind.stream fun token _ _ => ?_
  split
  · refine .remaining_bind ?_
    have items := matches_moreItems behind
      (fun left further => (behind.later further).here .conditional) goesOn
    exact items.bind fun others left further => .pure (more.left further)
  · exact .pure more

theorem matches_itemsUntil {α : Type} {item item' : Reader α}
    (of_item : ∀ rest, Left ts rest → Matches E rest (fun _ => Later rest) item item')
    (closing : TokenKind) :
    Matches E ts (fun _ => Left ts) (itemsUntil item closing) (itemsUntil item' closing) := by
  refine .peek_bind h.stream fun token _ _ => ?_
  split
  · exact .pure h.stream.refl
  · refine (of_item ts h.stream.refl).bind fun first rest more => .remaining_bind ?_
    have items := matches_moreItems (h.later more)
      (fun left further => of_item left (more.trans further).1) (· != closing)
    exact items.bind fun others left further => .pure (more.left further).1

theorem matches_entry :
    Matches E ts (fun _ => Later ts) (entry levels) (entry levels') := by
  refine (h.here .conditional).bind fun key rest more => ?_
  have behind := h.later more
  refine (Matches.discard_expect behind.stream (by decide)).bind fun _ rest further => ?_
  have value := (behind.later further).here .conditional
  exact value.bind fun value rest next => .pure (more.trans (further.trans next))

theorem matches_slicePart (closing : List TokenKind) :
    Matches E ts (fun _ => Left ts) (slicePart levels closing) (slicePart levels' closing) := by
  refine .peek_bind h.stream fun token _ _ => ?_
  split
  · exact .pure h.stream.refl
  · exact (h.here .conditional).bind fun e rest more => .pure more.1

theorem matches_sliceRest (column : Nat) (lower : Option Expr) :
    Matches E ts (fun _ => Left ts) (sliceRest levels column lower)
      (sliceRest levels' column lower) := by
  refine (Matches.discard_expect h.stream (by decide)).bind fun _ _ colon => ?_
  have behind := h.later colon
  refine (matches_slicePart behind _).bind fun upper _ second => ?_
  have so_far := (colon.left second).1
  refine .accept_bind (behind.left second).stream (by decide) (fun _ again => ?_) (.pure so_far)
  refine (matches_slicePart (h.left (so_far.later again).1) _).bind fun step _ third => .pure ?_
  exact so_far.trans (again.left third).1

theorem matches_subscript :
    Matches E ts (fun _ => Left ts) (subscript levels) (subscript levels') := by
  refine .peek_bind h.stream fun token _ _ => ?_
  refine (matches_slicePart h [.colon]).bind fun lower rest first => ?_
  refine .peek_bind (h.left first).stream fun token' _ _ => ?_
  have sliced := (matches_sliceRest (h.left first) token.column lower).mono
    fun _ _ further => first.trans further
  cases lower with
  | none => exact sliced
  | some position =>
      cases token'.kind == .colon with
      | true => exact sliced
      | false => exact .pure first

theorem matches_trailersTurn (base : Expr) :
    Matches E ts (Turned ts) (trailersTurn levels base) (trailersTurn levels' base) := by
  refine .peek_bind h.stream fun token rest here => ?_
  cases kind : token.kind with
  | openParen =>
      exact matches_enclosed h.stream here (by rw [kind]; decide) (by decide)
        (fun more => matches_arguments (h.later more) .closeParen) fun _ _ more => more
  | openBracket =>
      exact matches_enclosed h.stream here (by rw [kind]; decide) (by decide)
        (fun more => matches_subscript (h.later more)) fun _ _ more => more
  | dot =>
      refine .advance_bind h.stream here (by rw [kind]; decide) fun more => ?_
      refine (Matches.expect (h.later more).stream (by decide)).bind fun name rest named => ?_
      exact .pure (more.trans named)
  | _ => exact .pure h.stream.refl

end Constructs

section Whole

variable {t : Text} (inner : ∀ tokens, scan t = .ok tokens → From E levels levels' tokens)
include inner

theorem matched_exprList :
    Matched E (fun _ => True) (readWhole (exprList levels) t) (readWhole (exprList levels') t) :=
  matched_readWhole fun tokens scanned =>
    (matches_listed (inner tokens scanned) startsExpr Expr.column).mono fun _ _ more => more.1

theorem matched_arguments (closing : TokenKind) :
    Matched E (fun _ => True) (readWhole (arguments levels closing) t)
      (readWhole (arguments levels' closing) t) :=
  matched_readWhole fun tokens scanned => matches_arguments (inner tokens scanned) closing

end Whole

/-! ### Levels -/

namespace Below

theorem conditional (below : Below E levels levels' .conditional ts) :
    Matches E ts (fun _ => Later ts) (Grammar.level levels .conditional)
      (Grammar.level levels' .conditional) := by
  refine (below.tighter .or (by decide)).bind fun body rest more => ?_
  have behind := below.behind rest more
  refine .accept_bind behind.stream (by decide) (fun rest if_ => ?_) (.pure more)
  have behind := behind.later if_
  refine (behind.here .or).bind fun test rest further => ?_
  have behind := behind.later further
  refine (Matches.discard_expect behind.stream (by decide)).bind fun _ rest else_ => ?_
  refine ((behind.later else_).here .conditional).bind fun orelse rest last => .pure ?_
  exact more.trans (if_.trans (further.trans (else_.trans last)))

theorem negation (below : Below E levels levels' .not ts) :
    Matches E ts (fun _ => Later ts) (Grammar.level levels .not) (Grammar.level levels' .not) := by
  refine .peek_bind below.stream fun token rest here => ?_
  by_cases kind : token.kind = .not
  · rw [if_pos (beq_iff_eq.mpr kind), if_pos (beq_iff_eq.mpr kind)]
    refine .advance_bind below.stream here (by rw [kind]; decide) fun more => ?_
    exact ((below.behind rest more).here .not).bind fun e _ last => .pure (more.trans last)
  · rw [if_neg (by simpa using kind), if_neg (by simpa using kind)]
    exact below.tighter .comparison (by decide)

theorem comparison (below : Below E levels levels' .comparison ts) :
    Matches E ts (fun _ => Later ts) (Grammar.level levels .comparison)
      (Grammar.level levels' .comparison) := by
  refine (below.tighter .sum (by decide)).bind fun first rest more => .remaining_bind ?_
  have behind := below.behind rest more
  rw [linksLoop_eq, linksLoop_eq]
  refine (matches_allTurns behind.stream (fun _ _ further =>
    matches_linksTurn (behind.stream.left further)
      fun _ next => (behind.left (further.later next).1).here .sum) ()).bind ?_
  intro links _ further
  cases links with
  | nil => exact .pure (more.left further)
  | cons link links => exact .pure (more.left further)

theorem signed (below : Below E levels levels' .unary ts) :
    Matches E ts (fun _ => Later ts) (Grammar.level levels .unary)
      (Grammar.level levels' .unary) := by
  refine .peek_bind below.stream fun token rest here => ?_
  cases signed : signOp? token.kind with
  | none => exact below.tighter .power (by decide)
  | some op =>
      have inner : token.kind ≠ .finish := by
        intro ended
        rw [ended] at signed
        contradiction
      refine .advance_bind below.stream here inner fun more => ?_
      exact ((below.behind rest more).here .unary).bind fun e _ last => .pure (more.trans last)

theorem power (below : Below E levels levels' .power ts) :
    Matches E ts (fun _ => Later ts) (Grammar.level levels .power)
      (Grammar.level levels' .power) := by
  refine (below.tighter .trailed (by decide)).bind fun base rest more => ?_
  have behind := below.behind rest more
  refine .accept_bind behind.stream (by decide) (fun rest power => ?_) (.pure more)
  refine ((behind.later power).here .unary).bind fun exponent _ last => .pure ?_
  exact more.trans (power.trans last)

theorem trailed (below : Below E levels levels' .trailed ts) :
    Matches E ts (fun _ => Later ts) (Grammar.level levels .trailed)
      (Grammar.level levels' .trailed) := by
  refine (below.tighter .atom (by decide)).bind fun base rest more => .remaining_bind ?_
  have behind := below.behind rest more
  rw [trailersLoop_eq, trailersLoop_eq]
  refine (matches_allTurns behind.stream (fun base _ further => ?_) base).mono
    fun _ _ further => more.left further
  exact matches_trailersTurn (behind.left further) base

variable (below : Below E levels levels' l ts)
include below

theorem text (column : Nat) (starts : nextKind ts ∈ [.string, .formatted]) :
    Matches E ts (fun _ => Later ts) (texts levels column) (texts levels' column) := by
  have turn (s : Unit) (rest : List Token) (further : Left ts rest) :
      Matches E rest (Turned rest) (textsTurn levels s) (textsTurn levels' s) :=
    turned_textsTurn (below.stream.left further) (below.fields.left further)
  have first : Matches E ts (fun _ => Later ts) (textsTurn levels ()) (textsTurn levels' ()) := by
    refine (matches_textsTurn below.stream below.fields).mono ?_
    rintro _ _ (more | ⟨-, -, other⟩)
    · exact more
    · contradiction
  refine .remaining_bind ?_
  rw [textsLoop_eq, textsLoop_eq]
  refine (matches_runTurns_of_taken below.stream first turn).bind fun found rest more => ?_
  obtain ⟨formatted, parts⟩ := found
  cases formatted with
  | true => exact .pure more
  | false => obtain _ | ⟨part, _ | ⟨second, others⟩⟩ := parts <;> exact .pure more

theorem atom :
    Matches E ts (fun _ => Later ts) (Grammar.atom levels) (Grammar.atom levels') := by
  refine .peek_bind below.stream fun token rest here => ?_
  have behind (more : Later ts rest) := below.behind rest more
  -- A token that is an expression by itself.
  have single (r : Reader Expr) (inner : token.kind ≠ .finish)
      (kept : ∀ {rest}, Matches E rest (fun _ left => left = rest) r r) :
      Matches E ts (fun _ => Later ts) (advance >>= fun _ => r) (advance >>= fun _ => r) :=
    .advance_bind below.stream here inner fun more => kept.mono fun _ _ same => same ▸ more
  cases kind : token.kind with
  | number =>
      refine single (literalNumber token) (by rw [kind]; decide) ?_
      unfold literalNumber
      split
      · exact .pure rfl
      · exact .fail nofun nofun
  | float =>
      refine single (literalFloat token) (by rw [kind]; decide) ?_
      unfold literalFloat
      split
      · exact .pure rfl
      · exact .fail nofun nofun
  | string | formatted =>
      refine below.text token.column ?_
      rw [here, nextKind_cons, kind]
      decide
  | true | false | none | name => exact single _ (by rw [kind]; decide) (.pure rfl)
  | openParen =>
      show Matches E ts _ (parenthesized levels _) (parenthesized levels' _)
      rw [parenthesized_eq, parenthesized_eq]
      refine .advance_bind below.stream here (by rw [kind]; decide) fun more => ?_
      refine .accept_bind (behind more).stream (by decide)
        (fun _ closed => .pure (more.trans closed)) ?_
      refine (matches_listed (behind more) _ _).bind fun e _ further => ?_
      refine (Matches.discard_expect ((behind more).later further).stream (by decide)).bind ?_
      exact fun _ _ closed => .pure (more.trans (further.trans closed))
  | openBracket =>
      refine matches_enclosed below.stream here (by rw [kind]; decide) (by decide)
        (fun more => ?_) fun _ _ more => more
      exact matches_itemsUntil (behind more)
        (fun _ further => ((behind more).left further).here .conditional) .closeBracket
  | openBrace =>
      refine matches_enclosed below.stream here (by rw [kind]; decide) (by decide)
        (fun more => ?_) fun _ _ more => more
      exact matches_itemsUntil (behind more)
        (fun _ further => matches_entry ((behind more).left further)) .closeBrace
  | _ => exact .fail nofun nofun

theorem chain (operand : Level) (tighter : l.rank < operand.rank)
    {join? : TokenKind → Option (Expr → Expr → Expr)} (inner : join? .finish = none) :
    Matches E ts (fun _ => Later ts) (Grammar.chain (levels operand) join?)
      (Grammar.chain (levels' operand) join?) := by
  refine (below.tighter operand tighter).bind fun left rest more => .remaining_bind ?_
  have behind := below.behind rest more
  rw [chainLoop_eq, chainLoop_eq]
  refine (matches_allTurns behind.stream (fun left _ further => ?_) left).mono
    fun _ _ further => more.left further
  exact matches_chainTurn (behind.stream.left further)
    (fun _ next => (behind.left (further.later next).1).here operand) inner left

/-- A level matches at a place, if all levels match wherever it may go on. -/
theorem level :
    Matches E ts (fun _ => Later ts) (Grammar.level levels l) (Grammar.level levels' l) := by
  cases l with
  | conditional => exact below.conditional
  | or => exact below.chain .and (by decide) rfl
  | and => exact below.chain .not (by decide) rfl
  | not => exact below.negation
  | comparison => exact below.comparison
  | sum => exact below.chain .product (by decide) rfl
  | product => exact below.chain .unary (by decide) rfl
  | unary => exact below.signed
  | power => exact below.power
  | trailed => exact below.trailed
  | atom => exact below.atom

end Below

end Grammar

end Snippet
