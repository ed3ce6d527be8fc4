/-
Steps of the grammar in two coupled runs, and the steps that all rules share.

Both runs call the same table of rules. What is known of its rules is that they
keep the runs in step; the bound on nesting is met where a rule goes deeper.
Here tokens are read as a whole, so that a coupling can know something of them.
-/

import RubySyntax.Grammar.Definition
import RubySyntax.Proofs.Coupling.Store
import RubySyntax.Proofs.Lexer.Undisturbed

namespace RubySyntax

variable {α β σ : Type}

namespace Coupling

def Traces (coupling : Coupling) (token : Token) : Prop :=
  token.kind = .keyword .lineWord → ∀ first second, coupling.reports first second →
    second.map.lineOf token.span.start = first.map.lineOf token.span.start

def recorded (state : State) (token : Token) : State :=
  { state with tokens := token :: state.tokens }

/-- What is known of the first run lasts from token to token, and is enough for
the tokens that ask for their line. -/
class Tracks (coupling : Coupling) : Prop where
  read {state after : State} {token : Token} : coupling.Always state → coupling.Between state →
    Scan.nextToken state = .ok token after → coupling.Always after →
    coupling.Always (recorded after token) ∧ coupling.Between (recorded after token)
  traces {state : State} {token : Token} : coupling.Between state →
    state.lookahead = some token → coupling.Traces token

end Coupling

instance {coupling : Coupling} [tracks : coupling.Tracks] :
    Scan.InStep coupling Scan.readToken where
  meets state twin alike between := by
    have loose : coupling.loose.Alike state twin :=
      ⟨alike.reports, alike.arenas, alike.depths, alike.rest, alike.always⟩
    have inside : Scan.InStep coupling.loose Scan.nextToken := inferInstance
    have ends := (inside.meets state twin loose trivial).ends
    unfold Scan.readToken
    change coupling.Meets (EStateM.bind Scan.nextToken _ state)
      (EStateM.bind Scan.nextToken _ twin)
    unfold EStateM.bind
    cases run : Scan.nextToken state with
    | ok token after =>
        rw [run] at ends
        obtain ⟨reached, same, alike'⟩ := ends
        rw [same]
        obtain ⟨always, between⟩ := tracks.read alike.always between run alike'.always
        have rest := alike'.rest
        rw [rest] at alike' ⊢
        have recorded : coupling.Alike (Coupling.recorded after token)
            (Coupling.recorded (after.recast reached.report reached.arena
              reached.limits.maxDepth) token) :=
          ⟨alike'.reports, alike'.arenas, alike'.depths, rfl, always⟩
        exact .ok recorded between
    | error halt after =>
        rw [run] at ends
        cases ends with
        | inl excused => exact .excused excused
        | inr halted =>
            obtain ⟨reached, same, alike⟩ := halted
            rw [same]
            exact .error ⟨alike.reports, alike.arenas, alike.depths, alike.rest, alike.always⟩

class RuleTable.Steady (coupling : Coupling) (table : RuleTable) : Prop where
  rules : ∀ name, Scan.InStep coupling (table name)

namespace Parse

class Agrees (coupling : Coupling) (table : RuleTable) (first second : Parse α) : Prop where
  agrees : Scan.Agrees coupling (first table) (second table)

abbrev InStep (coupling : Coupling) (table : RuleTable) (step : Parse α) : Prop :=
  Agrees coupling table step step

variable {coupling : Coupling} {table : RuleTable}

/-! ### Steps in sequence -/

section

variable {first second : Parse α} {next other : α → Parse β}

instance {first second : Scan α} [agrees : Scan.Agrees coupling first second] :
    Agrees coupling table (liftM first) (liftM second) :=
  ⟨agrees⟩

instance (value : α) : InStep coupling table (pure value) :=
  ⟨inferInstanceAs (Scan.InStep coupling (pure value))⟩

instance (halt : Halt) : InStep coupling table (throw halt : Parse α) :=
  ⟨inferInstanceAs (Scan.InStep coupling (throw halt))⟩

instance Agrees.bind [once : Agrees coupling table first second]
    [follow : ∀ value, Agrees coupling table (next value) (other value)] :
    Agrees coupling table (first >>= next) (second >>= other) where
  agrees := by
    have := once.agrees
    have (value : α) := (follow value).agrees
    exact inferInstanceAs (Scan.Agrees coupling
      (first table >>= fun value => next value table)
      (second table >>= fun value => other value table))

instance {first second : Parse PUnit} {next other : PUnit → Parse β}
    [Agrees coupling table first second] [follow : Agrees coupling table (next ⟨⟩) (other ⟨⟩)] :
    Agrees coupling table (first >>= next) (second >>= other) :=
  have (value : PUnit) : Agrees coupling table (next value) (other value) := follow
  Agrees.bind

theorem InStep.andThen [InStep coupling table first]
    (follow : ∀ value, InStep coupling table (next value)) :
    InStep coupling table (first >>= next) :=
  inferInstance

instance {condition : Prop} [Decidable condition] {left right left' right' : Parse α}
    [Agrees coupling table left left'] [Agrees coupling table right right'] :
    Agrees coupling table (if condition then left else right)
      (if condition then left' else right') := by
  split
  · infer_instance
  · infer_instance

instance {start : σ} {body other : σ → Parse (Turn σ α)}
    [turn : ∀ current, Agrees coupling table (body current) (other current)] :
    Agrees coupling table (repeatUntil start body) (repeatUntil start other) where
  agrees := by
    have (current : σ) := (turn current).agrees
    exact inferInstanceAs (Scan.Agrees coupling
      (Scan.repeatUntil start fun current => body current table)
      (Scan.repeatUntil start fun current => other current table))

theorem InStep.loop {start : σ} {body : σ → Parse (Turn σ α)}
    (turn : ∀ current, InStep coupling table (body current)) :
    InStep coupling table (repeatUntil start body) :=
  inferInstance

end

/-! ### The state -/

section

variable {next other : State → Parse α}

theorem Agrees.looking
    (follow : ∀ state report arena maxDepth,
      coupling.Alike state (state.recast report arena maxDepth) → coupling.Between state →
        Agrees coupling table (next state) (other (state.recast report arena maxDepth))) :
    Agrees coupling table (get >>= next) (get >>= other) where
  agrees := by
    change Scan.Agrees coupling (get >>= fun state => next state table)
      (get >>= fun state => other state table)
    apply Scan.Agrees.looking
    intro state report arena maxDepth alike between
    exact (follow state report arena maxDepth alike between).agrees

instance Agrees.glance
    [follow : ∀ state report arena maxDepth,
      Agrees coupling table (next state) (other (state.recast report arena maxDepth))] :
    Agrees coupling table (get >>= next) (get >>= other) :=
  .looking fun state report arena maxDepth _ _ => follow state report arena maxDepth

theorem InStep.seeing
    (common : ∀ state report arena maxDepth,
      next (state.recast report arena maxDepth) = next state)
    (follow : ∀ state, InStep coupling table (next state)) :
    InStep coupling table (get >>= next) := by
  apply Agrees.looking
  intro state report arena maxDepth _ _
  rw [common state report arena maxDepth]
  exact follow state

end

theorem agrees_modify {f other : State → State}
    (same : ∀ state report arena maxDepth,
      other (state.recast report arena maxDepth) = (f state).recast report arena maxDepth)
    (aside : ∀ state, Coupling.Aside state (f state)) :
    Agrees coupling table (modify f) (modify other) :=
  ⟨Scan.agrees_modify same aside⟩

instance (depth : Nat → Nat) :
    InStep coupling table (modify fun state => { state with depth := depth state.depth }) :=
  agrees_modify (fun _ _ _ _ => rfl) fun _ =>
    ⟨rfl, rfl, rfl, rfl, rfl, rfl, .refl _⟩

instance (quotedKey : Option NodeId) :
    InStep coupling table (modify fun state => { state with quotedKey }) :=
  agrees_modify (fun _ _ _ _ => rfl) fun _ =>
    ⟨rfl, rfl, rfl, rfl, rfl, rfl, .refl _⟩

instance (previousStop : Nat) (quotedKey : Option NodeId) :
    InStep coupling table (modify fun state => { state with previousStop, quotedKey }) :=
  agrees_modify (fun _ _ _ _ => rfl) fun _ =>
    ⟨rfl, rfl, rfl, rfl, rfl, rfl, .refl _⟩

/-! ### The bound on nesting -/

theorem agrees_below {first second depth position : Nat} {next other : Unit → Parse α}
    (depths : coupling.depths first second) (follow : Agrees coupling table (next ()) (other ())) :
    Agrees coupling table
      (if first ≤ depth then liftM (Scan.fail (.nestingTooDeep first position)) >>= next
        else next ())
      (if second ≤ depth then liftM (Scan.fail (.nestingTooDeep second position)) >>= other
        else other ()) := by
  constructor
  rw [apply_ite (fun step : Parse α => step table), apply_ite (fun step : Parse α => step table)]
  let rest (step : Unit → Parse α) (value : Unit) : Scan α := step value table
  have same : Scan.Agrees coupling (rest next ()) (rest other ()) := follow.agrees
  exact Scan.agrees_below depths same

instance (position : Nat) (step : Parse α) [InStep coupling table step] :
    InStep coupling table (deeper position step) := by
  unfold deeper
  apply Agrees.looking
  intro state report arena maxDepth alike _
  apply agrees_below alike.depths
  infer_instance

theorem InStep.deeper {step : Parse α} {position : Nat} (inside : InStep coupling table step) :
    InStep coupling table (deeper position step) :=
  inferInstance

/-! ### Rules that are called through the table -/

variable [steady : table.Steady coupling]

instance : InStep coupling table (descend .heredocBodies) := ⟨steady.rules .heredocBodies⟩
instance : InStep coupling table (descend .statements) := ⟨steady.rules .statements⟩
instance (rule : CommandRule) : InStep coupling table (descend (.negation rule)) :=
  ⟨steady.rules (.negation rule)⟩
instance (rule : CommandRule) : InStep coupling table (descend (.argument rule)) :=
  ⟨steady.rules (.argument rule)⟩
instance (rule : CommandRule) (level : Nat) :
    InStep coupling table (descend (.binary rule level)) :=
  ⟨steady.rules (.binary rule level)⟩
instance (rule : CommandRule) : InStep coupling table (descend (.minus rule)) :=
  ⟨steady.rules (.minus rule)⟩
instance (rule : CommandRule) : InStep coupling table (descend (.unary rule)) :=
  ⟨steady.rules (.unary rule)⟩
instance : InStep coupling table (descend .chain) := ⟨steady.rules .chain⟩
instance (head : Operand) (allowBlock : Bool) :
    InStep coupling table (descend (.command head allowBlock)) :=
  ⟨steady.rules (.command head allowBlock)⟩
instance : InStep coupling table (descend .ifTail) := ⟨steady.rules .ifTail⟩
instance : InStep coupling table (descend .target) := ⟨steady.rules .target⟩
instance : InStep coupling table (descend .pattern) := ⟨steady.rules .pattern⟩

/-! ### Tokens -/

def seekToken : Parse Token :=
  repeatUntil () fun _ => readTurn

omit steady in
theorem seekToken_recorded {state after : State} {token : Token}
    (run : seekToken table state = .ok token after) : after.tokens.head? = some token := by
  have found : Scan.Returns (seekToken table) state fun token after =>
      after.tokens.head? = some token := by
    apply Scan.repeatUntil_returns (fun _ _ => True) trivial
    intro _ current _
    apply (Scan.readToken_returns current).bind
    intro token read recorded
    obtain ⟨reached, -, rfl⟩ := recorded
    dsimp only
    split
    · apply (Scan.returns_any _ _).bind
      intro _ _ _
      exact Scan.returns_pure trivial
    · exact Scan.returns_pure rfl
  exact found.post run

variable [tracks : coupling.Tracks]

instance : InStep coupling table readTurn := by
  unfold readTurn
  infer_instance

instance : InStep coupling table seekToken := by
  unfold seekToken
  infer_instance

instance : InStep coupling table peekToken := by
  unfold peekToken
  apply InStep.seeing fun _ _ _ _ => rfl
  intro state
  split
  · infer_instance
  · constructor
    constructor
    intro state twin alike between
    have sought : InStep coupling table seekToken := inferInstance
    apply Scan.meets_bind (sought.agrees.meets state twin alike between)
    intro token after reached run alike between
    have last := seekToken_recorded run
    have rest := alike.rest
    rw [rest] at alike ⊢
    have looked : coupling.Alike { after with lookahead := some token }
        { after.recast reached.report reached.arena reached.limits.maxDepth with
          lookahead := some token } :=
      ⟨alike.reports, alike.arenas, alike.depths, rfl, alike.always⟩
    exact .ok looked (coupling.watch.look between last)

omit steady tracks in
theorem peekToken_lookahead {state after : State} {token : Token}
    (run : peekToken table state = .ok token after) : after.lookahead = some token := by
  have looked : Returns table peekToken state fun token after =>
      after.lookahead = some token := by
    unfold peekToken
    apply Returns.get_bind
    split
    · next ahead => exact returns_pure ahead
    · apply Returns.after
      intro token reached
      apply Returns.modify_bind
      exact returns_pure rfl
  exact Scan.Returns.post looked run

/-- What follows may rely on both runs answering alike where the next token asks
for its line. -/
theorem InStep.peek {next : Token → Parse α}
    (follow : ∀ token, coupling.Traces token → InStep coupling table (next token)) :
    InStep coupling table (peekToken >>= next) := by
  constructor
  constructor
  intro state twin alike between
  have peeked : InStep coupling table peekToken := inferInstance
  apply Scan.meets_bind (peeked.agrees.meets state twin alike between)
  intro token after reached run alike between
  have traced := tracks.traces between (peekToken_lookahead run)
  exact (follow token traced).agrees.meets after reached alike between

omit steady tracks in
instance : InStep coupling table take := by
  unfold take
  apply InStep.seeing fun _ _ _ _ => rfl
  intro state
  split
  · infer_instance
  · next token _ =>
      have taken : InStep coupling table (modify fun state =>
          { state with lookahead := none, previousStop := token.span.stop }) := by
        constructor
        constructor
        intro state twin alike between
        have rest := alike.rest
        rw [rest] at alike ⊢
        have left : coupling.Alike
            { state with lookahead := none, previousStop := token.span.stop }
            { state.recast twin.report twin.arena twin.limits.maxDepth with
              lookahead := none
              previousStop := token.span.stop } :=
          ⟨alike.reports, alike.arenas, alike.depths, rfl, alike.always⟩
        exact .ok left (coupling.watch.take between)
      infer_instance

omit steady tracks in
instance : InStep coupling table skip := by
  unfold skip
  infer_instance

instance : InStep coupling table peekKind := by
  unfold peekKind
  infer_instance

instance (kind : TokenKind) : InStep coupling table (accept? kind) := by
  unfold accept?
  infer_instance

instance (kind : TokenKind) : InStep coupling table (accept kind) := by
  unfold accept
  infer_instance

instance (start : Nat) : InStep coupling table (spanSince start) := by
  unfold spanSince
  infer_instance

instance (wanted : TokenKind → Bool) (what : String) :
    InStep coupling table (expectWhere wanted what) := by
  unfold expectWhere
  infer_instance

instance (kind : TokenKind) : InStep coupling table (expect kind) := by
  unfold expect
  infer_instance

instance : InStep coupling table expectEnd := by
  unfold expectEnd
  infer_instance

instance (skipped : TokenKind → Bool) : InStep coupling table (skipTurn skipped) := by
  unfold skipTurn
  infer_instance

instance (skipped : TokenKind → Bool) : InStep coupling table (skipWhile skipped) := by
  unfold skipWhile
  infer_instance

instance : InStep coupling table skipNewlines := by
  unfold skipNewlines
  infer_instance

instance : InStep coupling table skipTerminators := by
  unfold skipTerminators
  infer_instance

instance (word : Keyword) (separated : Bool) :
    InStep coupling table (separatorTurn word separated) := by
  unfold separatorTurn
  infer_instance

instance (word : Keyword) : InStep coupling table (skipSeparator word) := by
  unfold skipSeparator
  infer_instance

instance (item : Parse NodeId) (breakable : Bool) [InStep coupling table item]
    (items : Array NodeId) : InStep coupling table (commaTurn item breakable items) := by
  unfold commaTurn
  infer_instance

instance (item : Parse NodeId) (breakable : Bool) [InStep coupling table item] :
    InStep coupling table (commaList item breakable) := by
  unfold commaList
  infer_instance

instance (items : List NodeId) (span : Span) : InStep coupling table (sequence items span) := by
  unfold sequence
  split <;> infer_instance

end Parse

end RubySyntax
