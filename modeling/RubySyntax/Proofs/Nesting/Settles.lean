/-
Rules for parts of the grammar that end with all their brackets and scopes
closed.

Four classes say what is known of a part: it reads no token (`Quiet`), it
closes what is open and otherwise keeps a balance (`Settles`), it does so if
the next token is of a given kind (`SettlesAt`), or it does no harm once an
error has been reported (`Recovers`). Parts that are put together from such
parts are found by instance search where the tokens they take are no brackets;
a bracket is always followed by hand.
-/

import RubySyntax.Proofs.Nesting.Quiet

namespace RubySyntax

variable {α β σ : Type}

open State (Passage)

/-! ### Taking tokens -/

inductive Bracket.Moves : Option BracketMark → List Bracket → List Bracket → Prop where
  | flat {stack : List Bracket} : Moves none stack stack
  | opening (bracket : Bracket) {stack : List Bracket} :
      Moves (some (.opening bracket)) stack (bracket :: stack)
  | closing (bracket : Bracket) {stack : List Bracket} :
      Moves (some (.closing bracket)) (bracket :: stack) stack

class TokenKind.Flat (kind : TokenKind) : Prop where
  flat : kind.bracketMark? = none

namespace TokenKind

variable {kind : TokenKind} {start goal stack : List Bracket}

theorem Flat.moves (kind : TokenKind) [flat : kind.Flat] :
    Bracket.Moves kind.bracketMark? stack stack := by
  rw [flat.flat]
  exact .flat

instance (word : Keyword) : Flat (.keyword word) := ⟨rfl⟩
instance (name : Symbol) : Flat (.identifier name) := ⟨rfl⟩
instance (name : Symbol) : Flat (.constant name) := ⟨rfl⟩
instance (name : Symbol) : Flat (.methodName name) := ⟨rfl⟩
instance (name : Symbol) : Flat (.label name) := ⟨rfl⟩
instance (name : Symbol) : Flat (.symbol name) := ⟨rfl⟩
instance (name : Symbol) : Flat (.instanceVariable name) := ⟨rfl⟩
instance (name : Symbol) : Flat (.classVariable name) := ⟨rfl⟩
instance (name : Symbol) : Flat (.globalVariable name) := ⟨rfl⟩
instance (number : Nat) : Flat (.numberedReference number) := ⟨rfl⟩
instance (byte : Byte) : Flat (.backReference byte) := ⟨rfl⟩
instance (value : Int) : Flat (.integer value) := ⟨rfl⟩
instance (value : Binary64) : Flat (.float value) := ⟨rfl⟩
instance (operator : Symbol) : Flat (.operatorAssign operator) := ⟨rfl⟩
instance (kind : LiteralKind) : Flat (.literalBegin kind) := ⟨rfl⟩
instance : Flat .heredocBegin := ⟨rfl⟩
instance (flags : Bytes) : Flat (.literalEnd flags) := ⟨rfl⟩
instance : Flat .labelEnd := ⟨rfl⟩
instance (bytes : Bytes) (lineHead : Bool) : Flat (.content bytes lineHead) := ⟨rfl⟩
instance : Flat .variableInterpolation := ⟨rfl⟩
instance : Flat .wordSeparator := ⟨rfl⟩
instance : Flat .semicolon := ⟨rfl⟩
instance : Flat (.punct .comma) := ⟨rfl⟩
instance : Flat (.punct .assign) := ⟨rfl⟩
instance : Flat (.punct .fatArrow) := ⟨rfl⟩
instance : Flat (.punct .bar) := ⟨rfl⟩
instance : Flat (.punct .logicalOr) := ⟨rfl⟩
instance : Flat (.punct .colon) := ⟨rfl⟩
instance : Flat (.punct .question) := ⟨rfl⟩
instance : Flat (.punct .dot) := ⟨rfl⟩
instance : Flat (.punct .safeDot) := ⟨rfl⟩
instance : Flat (.punct .colonColon) := ⟨rfl⟩
instance : Flat (.punct .topColonColon) := ⟨rfl⟩
instance : Flat (.punct .less) := ⟨rfl⟩
instance : Flat (.punct .shiftLeft) := ⟨rfl⟩
instance : Flat (.punct .star) := ⟨rfl⟩
instance : Flat (.punct .splatStar) := ⟨rfl⟩
instance : Flat (.punct .power) := ⟨rfl⟩
instance : Flat (.punct .splatPower) := ⟨rfl⟩
instance : Flat (.punct .ampersand) := ⟨rfl⟩
instance : Flat (.punct .blockAmpersand) := ⟨rfl⟩
instance : Flat (.punct .bang) := ⟨rfl⟩
instance : Flat (.punct .arrow) := ⟨rfl⟩
instance : Flat (.punct .numberMinus) := ⟨rfl⟩
instance : Flat (.punct .unaryMinus) := ⟨rfl⟩
instance : Flat (.punct .dotDot) := ⟨rfl⟩
instance : Flat (.punct .dotDotDot) := ⟨rfl⟩

theorem flat_of_isMethodName {mark : Punct} (names : mark.isMethodName) :
    Flat (.punct mark) := by
  unfold Punct.isMethodName at names
  split at names <;> first | exact ⟨rfl⟩ | cases names

end TokenKind

namespace State

variable {state : State} {token : Token} {start goal : List Bracket}

def taking (state : State) (token : Token) : State :=
  { state with lookahead := none, previousStop := token.span.stop }

theorem taking_advances (state : State) (token : Token) (scopes : Nat) :
    Advances scopes scopes state (state.taking token) :=
  .ofSameArena (Nat.le_refl _) rfl (.refl scopes _)

theorem Open.taking (opened : state.Open start) (ahead : state.lookahead = some token)
    (after : Bracket.openAfter token.kind.bracketMark? start = some goal) :
    (state.taking token).Open goal := by
  obtain ⟨taken, tokens, known⟩ := opened
  refine ⟨token :: taken, ?_, ?_⟩
  · change state.tokens = _
    rw [tokens, ahead]
    rfl
  · unfold openBrackets?
    rw [known]
    exact after

theorem openAfter_of_moves {mark : Option BracketMark} (moves : Bracket.Moves mark start goal)
    (outer : List Bracket) :
    Bracket.openAfter mark (start ++ outer) = some (goal ++ outer) := by
  cases moves with
  | flat => rfl
  | opening bracket => rfl
  | closing bracket => simp [Bracket.openAfter]

theorem taking_passage (ahead : state.lookahead = some token) (scopes : Nat)
    (moves : Bracket.Moves token.kind.bracketMark? start goal) :
    Passage { brackets := start, scopes } { brackets := goal, scopes } state
      (state.taking token) where
  toAdvances := state.taking_advances token scopes
  brackets _ outer opened := opened.taking ahead (openAfter_of_moves moves outer)

end State

namespace Parse

variable {table : RuleTable} {brackets inner : List Bracket} {scopes : Nat} {kind : TokenKind}

theorem take_returns {state : State} {token : Token} (ahead : state.lookahead = some token) :
    Returns table take state fun taken after => taken = token ∧ after = state.taking token := by
  apply Returns.get_bind
  rw [ahead]
  apply Returns.modify_bind
  exact returns_pure ⟨rfl, rfl⟩

theorem skip_returns {state : State} {token : Token} (ahead : state.lookahead = some token) :
    Returns table skip state fun _ after => after = state.taking token := by
  apply (take_returns ahead).bind
  intro taken reached same
  exact returns_pure same.2

/-! ### The classes -/

class Quiet (step : Parse α) : Prop where
  returns : ∀ table state, Returns table step state fun _ after => state.Unmoved after

class Settles (table : RuleTable) (brackets : List Bracket) (scopes : Nat) (step : Parse α) :
    Prop where
  returns : ∀ state, Returns table step state fun _ after =>
    Passage { brackets, scopes } {} state after

abbrev Steady (table : RuleTable) (step : Parse α) : Prop :=
  Settles table [] 0 step

/-- A step that closes the given brackets and scopes if a token of a kind has
been read. -/
class SettlesAt (table : RuleTable) (kind : TokenKind) (brackets : List Bracket) (scopes : Nat)
    (step : Parse α) : Prop where
  returns : ∀ state token, state.lookahead = some token → token.kind = kind →
    Returns table step state fun _ after => Passage { brackets, scopes } {} state after

class Recovers (table : RuleTable) (step : Parse α) : Prop where
  returns : ∀ state, 0 < state.report.errors →
    Returns table step state fun _ after => state.Advances 0 0 after

/-! ### Steps without tokens -/

section Quiet

variable {first : Parse α} {next : α → Parse β}

instance (step : Scan α) [Scan.Quiet step] : Quiet (liftM step : Parse α) where
  returns _ := Scan.Quiet.returns

instance (value : α) : Quiet (pure value : Parse α) where
  returns _ state := returns_pure (State.Unmoved.refl state)

instance : Quiet (get : Parse State) where
  returns _ state := by
    constructor
    intro _ _ run
    cases run
    exact State.Unmoved.refl state

instance (halt : Halt) : Quiet (throw halt : Parse α) where
  returns _ _ := returns_throw halt

instance Quiet.bind [Quiet first] [∀ value, Quiet (next value)] : Quiet (first >>= next) where
  returns table state := (Quiet.returns table state).bind fun _ reached before =>
    (Quiet.returns table reached).mono fun _ _ later => before.trans later

theorem Quiet.andThen [Quiet first] (rest : ∀ value, Quiet (next value)) :
    Quiet (first >>= next) :=
  inferInstance

instance {condition : Prop} [Decidable condition] {left right : Parse α} [Quiet left]
    [Quiet right] : Quiet (if condition then left else right) := by
  split
  · infer_instance
  · infer_instance

theorem Quiet.known [Quiet first] {known : α → Prop}
    (returns : ∀ table state, Returns table first state fun value _ => known value)
    (rest : ∀ value, known value → Quiet (next value)) : Quiet (first >>= next) where
  returns table state := by
    apply ((Quiet.returns table state).and (returns table state)).bind
    intro value reached before
    apply ((rest value before.2).returns table reached).mono
    intro _ _ later
    exact before.1.trans later

end Quiet

/-! ### Closing what is open -/

section Settles

variable {first : Parse α} {next : α → Parse β} {step : Parse α}

instance (priority := low) [Quiet step] : Steady table step where
  returns state := (Quiet.returns table state).mono fun _ _ unmoved => unmoved.passage

theorem Steady.returns [Steady table step] (state : State) :
    Returns table step state fun _ after => Passage {} {} state after :=
  Settles.returns state

instance Settles.bind [Steady table first] [∀ value, Settles table brackets scopes (next value)] :
    Settles table brackets scopes (first >>= next) where
  returns state := (Steady.returns state).bind fun _ reached before =>
    (Settles.returns reached).mono fun _ _ later => (before.under _).trans later

theorem Settles.andThen [Steady table first]
    (rest : ∀ value, Settles table brackets scopes (next value)) :
    Settles table brackets scopes (first >>= next) :=
  inferInstance

/-- What is balanced by itself may come after it. -/
theorem Settles.finish (settles : Settles table brackets scopes first)
    (rest : ∀ value, Steady table (next value)) :
    Settles table brackets scopes (first >>= next) where
  returns state := (settles.returns state).bind fun _ reached before =>
    ((rest _).returns reached).mono fun _ _ later => before.trans later

theorem Settles.known [Steady table first] {known : α → Prop}
    (returns : ∀ state, Returns table first state fun value _ => known value)
    (rest : ∀ value, known value → Settles table brackets scopes (next value)) :
    Settles table brackets scopes (first >>= next) where
  returns state := by
    apply ((Steady.returns state).and (returns state)).bind
    intro value reached first
    apply ((rest value first.2).returns reached).mono
    intro _ _ later
    exact (first.1.under _).trans later

instance {condition : Prop} [Decidable condition] {left right : Parse α}
    [Settles table brackets scopes left] [Settles table brackets scopes right] :
    Settles table brackets scopes (if condition then left else right) := by
  split
  · infer_instance
  · infer_instance

instance {start : σ} {body : σ → Parse (Turn σ α)} [∀ current, Steady table (body current)] :
    Steady table (repeatUntil start body) where
  returns state := by
    apply repeatUntil_returns (fun _ reached => Passage {} {} state reached) (.refl {} state)
    intro current reached before
    apply (Steady.returns reached).mono
    intro result after later
    cases result with
    | again next => exact before.trans later
    | done value => exact before.trans later

theorem Steady.loop {start : σ} {body : σ → Parse (Turn σ α)}
    (each : ∀ current, Steady table (body current)) : Steady table (repeatUntil start body) :=
  inferInstance

end Settles

/-! ### Following the next token -/

section SettlesAt

variable {first : Parse α} {next : α → Parse β} {step : Parse α}

instance (priority := low) [Settles table brackets scopes step] :
    SettlesAt table kind brackets scopes step where
  returns state _ _ _ := Settles.returns state

theorem SettlesAt.ofSettles (settles : Settles table brackets scopes step) :
    SettlesAt table kind brackets scopes step :=
  inferInstance

instance SettlesAt.bind [Quiet first] [∀ value, SettlesAt table kind brackets scopes (next value)] :
    SettlesAt table kind brackets scopes (first >>= next) where
  returns state token ahead same := by
    apply (Quiet.returns table state).bind
    intro value reached before
    have still : reached.lookahead = some token := before.lookahead.trans ahead
    have rest : SettlesAt table kind brackets scopes (next value) := inferInstance
    apply (rest.returns reached token still same).mono
    intro _ _ later
    exact (before.passage.under _).trans later

theorem SettlesAt.andThen [Quiet first]
    (rest : ∀ value, SettlesAt table kind brackets scopes (next value)) :
    SettlesAt table kind brackets scopes (first >>= next) :=
  inferInstance

theorem SettlesAt.finish (settles : SettlesAt table kind brackets scopes first)
    (rest : ∀ value, Steady table (next value)) :
    SettlesAt table kind brackets scopes (first >>= next) where
  returns state token ahead same := (settles.returns state token ahead same).bind
    fun _ reached before =>
      ((rest _).returns reached).mono fun _ _ later => before.trans later

theorem SettlesAt.before (settles : SettlesAt table kind [] 0 first)
    (rest : ∀ value, Settles table brackets scopes (next value)) :
    SettlesAt table kind brackets scopes (first >>= next) where
  returns state token ahead same := (settles.returns state token ahead same).bind
    fun _ reached earlier =>
      ((rest _).returns reached).mono fun _ _ later => (earlier.under _).trans later

theorem SettlesAt.known [Quiet first] {known : α → Prop}
    (returns : ∀ state, Returns table first state fun value _ => known value)
    (rest : ∀ value, known value → SettlesAt table kind brackets scopes (next value)) :
    SettlesAt table kind brackets scopes (first >>= next) where
  returns state token ahead same := by
    apply ((Quiet.returns table state).and (returns state)).bind
    intro value reached first
    have still : reached.lookahead = some token := first.1.lookahead.trans ahead
    apply ((rest value first.2).returns reached token still same).mono
    intro _ _ later
    exact (first.1.passage.under _).trans later

instance {condition : Prop} [Decidable condition] {left right : Parse α}
    [SettlesAt table kind brackets scopes left] [SettlesAt table kind brackets scopes right] :
    SettlesAt table kind brackets scopes (if condition then left else right) := by
  split
  · infer_instance
  · infer_instance

theorem SettlesAt.take {next : Token → Parse β}
    (moves : Bracket.Moves kind.bracketMark? brackets inner)
    (rest : ∀ token, token.kind = kind → Settles table inner scopes (next token)) :
    SettlesAt table kind brackets scopes (take >>= next) where
  returns state token ahead same := by
    apply (take_returns ahead).bind
    intro taken reached took
    obtain ⟨rfl, rfl⟩ := took
    apply ((rest taken same).returns _).mono
    intro _ _ later
    rw [← same] at moves
    exact (State.taking_passage ahead scopes moves).trans later

theorem SettlesAt.skip {next : Unit → Parse β}
    (moves : Bracket.Moves kind.bracketMark? brackets inner)
    (rest : ∀ value, Settles table inner scopes (next value)) :
    SettlesAt table kind brackets scopes (skip >>= next) where
  returns state token ahead same := by
    apply (skip_returns ahead).bind
    intro value reached took
    subst took
    apply ((rest value).returns _).mono
    intro _ _ later
    rw [← same] at moves
    exact (State.taking_passage ahead scopes moves).trans later

instance {next : Token → Parse β} [flat : kind.Flat]
    [∀ span, Settles table brackets scopes (next ⟨kind, span⟩)] :
    SettlesAt table kind brackets scopes (take >>= next) :=
  .take (TokenKind.Flat.moves kind) fun token same => by
    subst same
    infer_instance

instance {next : Unit → Parse β} [flat : kind.Flat]
    [∀ value, Settles table brackets scopes (next value)] :
    SettlesAt table kind brackets scopes (skip >>= next) :=
  .skip (TokenKind.Flat.moves kind) inferInstance

theorem SettlesAt.takeFlat {next : Token → Parse β} [kind.Flat]
    (rest : ∀ token, token.kind = kind → Settles table brackets scopes (next token)) :
    SettlesAt table kind brackets scopes (Parse.take >>= next) :=
  .take (TokenKind.Flat.moves kind) rest

theorem SettlesAt.skipFlat {next : Unit → Parse β} [kind.Flat]
    (rest : ∀ value, Settles table brackets scopes (next value)) :
    SettlesAt table kind brackets scopes (Parse.skip >>= next) :=
  .skip (TokenKind.Flat.moves kind) rest

variable {bracket : Bracket}

theorem SettlesAt.takeOpening {next : Token → Parse β}
    (opens : kind.bracketMark? = some (.opening bracket))
    (rest : ∀ token, token.kind = kind → Settles table (bracket :: brackets) scopes (next token)) :
    SettlesAt table kind brackets scopes (Parse.take >>= next) := by
  apply SettlesAt.take _ rest
  rw [opens]
  exact .opening bracket

theorem SettlesAt.skipOpening {next : Unit → Parse β}
    (opens : kind.bracketMark? = some (.opening bracket))
    (rest : ∀ value, Settles table (bracket :: brackets) scopes (next value)) :
    SettlesAt table kind brackets scopes (Parse.skip >>= next) := by
  apply SettlesAt.skip _ rest
  rw [opens]
  exact .opening bracket

theorem SettlesAt.takeClosing {next : Token → Parse β}
    (closes : kind.bracketMark? = some (.closing bracket))
    (rest : ∀ token, token.kind = kind → Settles table brackets scopes (next token)) :
    SettlesAt table kind (bracket :: brackets) scopes (Parse.take >>= next) := by
  apply SettlesAt.take _ rest
  rw [closes]
  exact .closing bracket

theorem SettlesAt.skipClosing {next : Unit → Parse β}
    (closes : kind.bracketMark? = some (.closing bracket))
    (rest : ∀ value, Settles table brackets scopes (next value)) :
    SettlesAt table kind (bracket :: brackets) scopes (Parse.skip >>= next) := by
  apply SettlesAt.skip _ rest
  rw [closes]
  exact .closing bracket

end SettlesAt

/-! ### After an error -/

section Recovers

variable {first : Parse α} {next : α → Parse β} {step : Parse α}

instance (priority := low) [Steady table step] : Recovers table step where
  returns state _ := (Steady.returns state).mono fun _ _ passage => passage.toAdvances

instance Recovers.bind [Recovers table first] [∀ value, Recovers table (next value)] :
    Recovers table (first >>= next) where
  returns state reported := (Recovers.returns state reported).bind fun _ reached before =>
    (Recovers.returns reached (Nat.lt_of_lt_of_le reported before.errors)).mono
      fun _ _ later => before.trans later

instance {condition : Prop} [Decidable condition] {left right : Parse α}
    [Recovers table left] [Recovers table right] :
    Recovers table (if condition then left else right) := by
  split
  · infer_instance
  · infer_instance

instance {start : σ} {body : σ → Parse (Turn σ α)} [∀ current, Recovers table (body current)] :
    Recovers table (repeatUntil start body) where
  returns state reported := by
    apply repeatUntil_returns (fun _ reached => state.Advances 0 0 reached) (.refl 0 state)
    intro current reached before
    apply (Recovers.returns reached (Nat.lt_of_lt_of_le reported before.errors)).mono
    intro result after later
    cases result with
    | again next => exact before.trans later
    | done value => exact before.trans later

instance : Recovers table take where
  returns state _ := by
    apply Returns.get_bind
    cases ahead : state.lookahead with
    | none => exact returns_throw _
    | some token =>
        apply Returns.modify_bind
        exact returns_pure (state.taking_advances token 0)

instance : Recovers table skip := by
  unfold skip
  infer_instance

instance (shape : Shape NodeId) (span : Span) :
    Recovers table (liftM (Scan.alloc shape span) : Parse NodeId) where
  returns _ reported :=
    (Scan.alloc_returns (fun _ => reported) span).mono fun _ _ unmoved => unmoved.toAdvances

/-- Once an error has been reported, what is open need not be closed. -/
theorem Settles.report {span : Span} {problem : Problem} {next : Unit → Parse β}
    (severity : problem.severity = .error) (rest : ∀ value, Recovers table (next value)) :
    Settles table brackets 0 (liftM (Scan.report span problem) >>= next) where
  returns state := by
    have reports := (Scan.Quiet.returns state).and (Scan.report_returns severity span state)
    apply (returns_lift reports).bind
    intro value reached first
    apply ((rest value).returns reached first.2).mono
    intro _ _ later
    have counted := Nat.lt_of_lt_of_le first.2 later.errors
    exact .ofReported (first.1.toAdvances.trans later) counted

instance {token : Token} {expecting : Option String} {next : Unit → Parse β}
    [∀ value, Recovers table (next value)] :
    Settles table brackets 0 (liftM (Scan.unexpected token expecting) >>= next) :=
  .report rfl inferInstance

/-- A step whose values are of some kind, unless it has reported an error. -/
theorem Settles.unlessReported [Steady table first] {known : α → Prop}
    (returns : ∀ state, Returns table first state fun value after =>
      known value ∨ 0 < after.report.errors)
    (rest : ∀ value, known value → Settles table brackets 0 (next value))
    (recovers : ∀ value, Recovers table (next value)) :
    Settles table brackets 0 (first >>= next) where
  returns state := by
    apply ((Steady.returns state).and (returns state)).bind
    intro value reached first
    obtain ⟨before, which⟩ := first
    cases which with
    | inl holds =>
        apply ((rest value holds).returns reached).mono
        intro _ _ later
        exact (before.under _).trans later
    | inr reported =>
        apply ((recovers value).returns reached reported).mono
        intro _ _ later
        have counted := Nat.lt_of_lt_of_le reported later.errors
        exact .ofReported (before.toAdvances.trans later) counted

end Recovers

end Parse

end RubySyntax
