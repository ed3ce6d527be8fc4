/-
The steps that all rules share: looking at the next token, taking it, asking
for one, and calling rules through a table.

What the rules of a table are relied on to do is one statement for each
nonterminal. Two of them start where a token is known: the bodies of heredocs
follow their marker directly, and a parameter that is taken apart starts at its
parenthesis.
-/

import RubySyntax.Grammar.Definition
import RubySyntax.Proofs.Nesting.Settles

namespace RubySyntax

variable {α β σ : Type}

open State (Passage)

/-- No token has been read ahead, unless an error was reported. -/
def State.NothingWaits (state : State) : Prop :=
  state.report.errors = 0 → state.lookahead = none

theorem State.NothingWaits.unmoved {before after : State} (nothing : before.NothingWaits)
    (unmoved : before.Unmoved after) : after.NothingWaits := by
  intro flawless
  rw [unmoved.lookahead]
  exact nothing (Nat.le_zero.mp (flawless ▸ unmoved.errors))

/-! ### Tables of rules -/

def Nonterminal.Keeps : (name : Nonterminal) → Scan name.Result → Prop
  | .heredocBodies, step => ∀ state : State, state.NothingWaits →
      Scan.Returns step state fun _ after => Passage {} {} state after ∧ after.NothingWaits
  | .pattern, step => ∀ (state : State) (token : Token), state.lookahead = some token →
      token.kind.isLeftParen → Scan.Returns step state fun _ after => Passage {} {} state after
  | _, step => ∀ state : State, Scan.Returns step state fun _ after => Passage {} {} state after

class Serves (table : RuleTable) : Prop where
  keeps : ∀ name : Nonterminal, name.Keeps (table name)

namespace Parse

variable {table : RuleTable} [Serves table] {brackets : List Bracket} {scopes : Nat}
  {kind : TokenKind}

instance : Steady table (descend .statements) := ⟨Serves.keeps .statements⟩
instance (rule : CommandRule) : Steady table (descend (.negation rule)) :=
  ⟨Serves.keeps (.negation rule)⟩
instance (rule : CommandRule) : Steady table (descend (.argument rule)) :=
  ⟨Serves.keeps (.argument rule)⟩
instance (rule : CommandRule) (level : Nat) : Steady table (descend (.binary rule level)) :=
  ⟨Serves.keeps (.binary rule level)⟩
instance (rule : CommandRule) : Steady table (descend (.minus rule)) :=
  ⟨Serves.keeps (.minus rule)⟩
instance (rule : CommandRule) : Steady table (descend (.unary rule)) :=
  ⟨Serves.keeps (.unary rule)⟩
instance : Steady table (descend .chain) := ⟨Serves.keeps .chain⟩
instance (head : Operand) (allowBlock : Bool) :
    Steady table (descend (.command head allowBlock)) :=
  ⟨Serves.keeps (.command head allowBlock)⟩
instance : Steady table (descend .ifTail) := ⟨Serves.keeps .ifTail⟩
instance : Steady table (descend .target) := ⟨Serves.keeps .target⟩

theorem pattern_settlesAt (isParen : kind.isLeftParen) :
    SettlesAt table kind [] 0 (descend .pattern) where
  returns state token ahead same := by
    subst same
    exact Serves.keeps .pattern state token ahead isParen

/-- The bodies of heredocs are read where no token waits to be taken, and leave
none behind. -/
theorem heredocBodies_returns {state : State} (nothing : state.NothingWaits) :
    Returns table (descend .heredocBodies) state fun _ after =>
      Passage {} {} state after ∧ after.NothingWaits :=
  Serves.keeps .heredocBodies state nothing

/-! ### The next token -/

def recorded (state : State) (token : Token) (lookahead : Option Token) : State :=
  { state with tokens := token :: state.tokens, lookahead }

/-- A token that waits to be taken opens and closes nothing yet, and one that is
no bracket never does. -/
theorem recorded_passage {before reached : State} {token : Token} {lookahead : Option Token}
    (same : before.Undisturbed reached)
    (nothing : before.NothingWaits)
    (either : lookahead = some token ∨
      lookahead = before.lookahead ∧ token.kind.bracketMark? = none) :
    Passage {} {} before (recorded reached token lookahead) where
  toAdvances := by
    have scopes : ScopeStack.Leads 0 0 before.scopes reached.scopes := by
      rw [same.scopes]
      exact .refl 0 before.scopes
    exact .ofSameArena same.errors same.arena scopes
  brackets flawless outer opened := by
    have earlier : before.report.errors = 0 := Nat.le_zero.mp (flawless ▸ same.errors)
    obtain ⟨taken, tokens, known⟩ := opened
    rw [nothing earlier] at tokens
    unfold recorded
    cases either with
    | inl waits =>
        subst waits
        refine ⟨taken, ?_, known⟩
        change token :: reached.tokens = token :: taken
        rw [same.tokens, tokens]
        rfl
    | inr passed =>
        refine ⟨token :: taken, ?_, ?_⟩
        · change token :: reached.tokens = lookahead.toList ++ token :: taken
          rw [same.tokens, tokens, passed.1, nothing earlier]
          rfl
        · unfold openBrackets?
          rw [known, passed.2]
          rfl

theorem peekToken_returns (state : State) :
    Returns table peekToken state fun token after =>
      Passage {} {} state after ∧ after.lookahead = some token := by
  apply Returns.get_bind
  split
  · next token ahead => exact returns_pure ⟨.refl {} state, ahead⟩
  · next ahead =>
      have loop : Returns table (repeatUntil () fun _ => readTurn) state fun token reached =>
          Passage {} {} state { reached with lookahead := some token } := by
        apply repeatUntil_returns fun _ reached =>
          Passage {} {} state reached ∧ reached.NothingWaits
        · exact ⟨.refl {} state, fun _ => ahead⟩
        · intro _ before kept
          apply (returns_lift (Scan.readToken_returns before)).bind
          intro token after read
          obtain ⟨reached, same, rfl⟩ := read
          rw [← same.tokens]
          split
          · next marker =>
              have passed : Passage {} {} before (recorded reached token reached.lookahead) := by
                apply recorded_passage same kept.2
                exact .inr ⟨same.lookahead, by rw [marker]; rfl⟩
              have nothing : reached.NothingWaits := kept.2.unmoved same.unmoved
              have still : (recorded reached token reached.lookahead).NothingWaits := nothing
              apply (heredocBodies_returns still).bind
              intro _ after bodies
              exact returns_pure ⟨(kept.1.trans passed).trans bodies.1, bodies.2⟩
          · apply returns_pure
            exact kept.1.trans (recorded_passage same kept.2 (.inl rfl))
      apply loop.bind
      intro token reached passage
      apply Returns.modify_bind
      exact returns_pure ⟨passage, rfl⟩

theorem peekKind_returns (state : State) :
    Returns table peekKind state fun kind after =>
      Passage {} {} state after ∧ ∃ token, after.lookahead = some token ∧ token.kind = kind := by
  apply (peekToken_returns state).bind
  intro token reached peeked
  exact returns_pure ⟨peeked.1, token, peeked.2, rfl⟩

instance : Steady table peekToken where
  returns state := (peekToken_returns state).mono fun _ _ peeked => peeked.1

instance : Steady table peekKind where
  returns state := (peekKind_returns state).mono fun _ _ peeked => peeked.1

instance Settles.peekToken {next : Token → Parse β}
    [∀ token, SettlesAt table token.kind brackets scopes (next token)] :
    Settles table brackets scopes (peekToken >>= next) where
  returns state := by
    apply (peekToken_returns state).bind
    intro token reached peeked
    have rest : SettlesAt table token.kind brackets scopes (next token) := inferInstance
    apply (rest.returns reached token peeked.2 rfl).mono
    intro _ _ later
    exact (peeked.1.under _).trans later

theorem Settles.peek {next : Token → Parse β}
    (rest : ∀ kind span, SettlesAt table kind brackets scopes (next ⟨kind, span⟩)) :
    Settles table brackets scopes (Parse.peekToken >>= next) :=
  have (token : Token) : SettlesAt table token.kind brackets scopes (next token) :=
    rest token.kind token.span
  inferInstance

instance Settles.peekKind {next : TokenKind → Parse β}
    [∀ kind, SettlesAt table kind brackets scopes (next kind)] :
    Settles table brackets scopes (peekKind >>= next) where
  returns state := by
    apply (peekKind_returns state).bind
    intro kind reached peeked
    obtain ⟨passage, token, ahead, same⟩ := peeked
    have rest : SettlesAt table kind brackets scopes (next kind) := inferInstance
    apply (rest.returns reached token ahead same).mono
    intro _ _ later
    exact (passage.under _).trans later

theorem Settles.peekingKind {next : TokenKind → Parse β}
    (rest : ∀ kind, SettlesAt table kind brackets scopes (next kind)) :
    Settles table brackets scopes (Parse.peekKind >>= next) :=
  inferInstance

/-! ### Taking tokens of a kind -/

/-- Either the next token is taken, and is of the kind, or it stays. -/
theorem accept?_returns (kind : TokenKind) (state : State) :
    Returns table (accept? kind) state fun found after =>
      (found = none ∧ Passage {} {} state after) ∨
        ∃ token middle, found = some token ∧ token.kind = kind ∧
          Passage {} {} state middle ∧ middle.lookahead = some token ∧
          after = middle.taking token := by
  apply (peekKind_returns state).bind
  intro found reached peeked
  obtain ⟨passage, token, ahead, same⟩ := peeked
  split
  · next wanted =>
      apply (take_returns ahead).bind
      intro taken after took
      obtain ⟨rfl, rfl⟩ := took
      exact returns_pure (.inr ⟨taken, reached, rfl, same.trans wanted, passage, ahead, rfl⟩)
  · exact returns_pure (.inl ⟨rfl, passage⟩)

instance [flat : kind.Flat] : Steady table (accept? kind) where
  returns state := by
    apply (accept?_returns kind state).mono
    intro found after accepted
    cases accepted with
    | inl stayed => exact stayed.2
    | inr took =>
        obtain ⟨token, middle, -, rfl, passage, ahead, rfl⟩ := took
        exact passage.trans (State.taking_passage ahead 0 (TokenKind.Flat.moves token.kind))

instance [kind.Flat] : Steady table (accept kind) := by
  unfold accept
  infer_instance

theorem Settles.accept {next : Bool → Parse β} {bracket : Bracket}
    (opens : kind.bracketMark? = some (.opening bracket))
    (whenTrue : Settles table (bracket :: brackets) scopes (next true))
    (whenFalse : Settles table brackets scopes (next false)) :
    Settles table brackets scopes (accept kind >>= next) where
  returns state := by
    have accepts : Returns table (Parse.accept kind) state fun found after =>
        (found = false ∧ Passage {} {} state after) ∨
          (found = true ∧ Passage { brackets, scopes } { brackets := bracket :: brackets, scopes }
            state after) := by
      apply (accept?_returns kind state).bind
      intro found after accepted
      apply returns_pure
      cases accepted with
      | inl stayed =>
          obtain ⟨rfl, passage⟩ := stayed
          exact .inl ⟨rfl, passage⟩
      | inr took =>
          obtain ⟨token, middle, rfl, rfl, passage, ahead, rfl⟩ := took
          have moves : Bracket.Moves token.kind.bracketMark? brackets (bracket :: brackets) := by
            rw [opens]
            exact .opening bracket
          exact .inr ⟨rfl, (passage.under _).trans (State.taking_passage ahead scopes moves)⟩
    apply accepts.bind
    intro found reached accepted
    cases accepted with
    | inl stayed =>
        obtain ⟨rfl, passage⟩ := stayed
        exact (whenFalse.returns reached).mono fun _ _ later => (passage.under _).trans later
    | inr took =>
        obtain ⟨rfl, passage⟩ := took
        exact (whenTrue.returns reached).mono fun _ _ later => passage.trans later

/-- The token that is wanted is taken, or an error is reported. -/
theorem expectWhere_returns {wanted : TokenKind → Bool} {start goal : List Bracket}
    (moves : ∀ kind, wanted kind → Bracket.Moves kind.bracketMark? start goal) (what : String)
    (state : State) :
    Returns table (expectWhere wanted what) state fun _ after =>
      Passage { brackets := start, scopes } { brackets := goal, scopes } state after ∧
        after.NothingWaits := by
  apply (peekToken_returns state).bind
  intro token reached peeked
  obtain ⟨passage, ahead⟩ := peeked
  split
  · next taken =>
      apply (skip_returns ahead).bind
      intro _ after took
      subst took
      apply returns_pure
      have moved := State.taking_passage ahead scopes (moves token.kind taken)
      exact ⟨(passage.under { brackets := start, scopes }).trans moved, fun _ => rfl⟩
  · have complains : Problem.severity (.unexpected token.kind (some what)) = .error := rfl
    have reports := (Scan.Quiet.returns reached).and
      (Scan.report_returns complains token.span reached)
    apply (returns_lift reports).bind
    intro _ after reported
    apply (Recovers.returns after reported.2).mono
    intro _ last later
    have counted : 0 < last.report.errors := Nat.lt_of_lt_of_le reported.2 later.errors
    have advances := (passage.toAdvances.trans reported.1.toAdvances).trans later
    refine ⟨.ofReported (advances.under scopes) counted, ?_⟩
    intro flawless
    exact absurd flawless (Nat.ne_of_gt counted)

theorem expect_returns {start goal : List Bracket}
    (moves : Bracket.Moves kind.bracketMark? start goal) (state : State) :
    Returns table (expect kind) state fun _ after =>
      Passage { brackets := start, scopes } { brackets := goal, scopes } state after := by
  have only (found : TokenKind) (same : decide (found = kind)) :
      Bracket.Moves found.bracketMark? start goal := by
    rw [of_decide_eq_true same]
    exact moves
  exact (expectWhere_returns only _ state).mono fun _ _ passage => passage.1

instance [flat : kind.Flat] : Steady table (expect kind) where
  returns state := expect_returns (TokenKind.Flat.moves kind) state

instance : Steady table expectEnd := by
  unfold expectEnd
  infer_instance

theorem Settles.expect {next : Span → Parse β} {bracket : Bracket}
    (closes : kind.bracketMark? = some (.closing bracket))
    (rest : ∀ span, Settles table brackets scopes (next span)) :
    Settles table (bracket :: brackets) scopes (expect kind >>= next) where
  returns state := by
    have moves : Bracket.Moves kind.bracketMark? (bracket :: brackets) brackets := by
      rw [closes]
      exact .closing bracket
    apply (expect_returns moves state).bind
    intro span reached before
    exact ((rest span).returns reached).mono fun _ _ later => before.trans later

instance (kind : TokenKind) : Recovers table (expect kind) := by
  unfold expect expectWhere
  infer_instance

theorem skipWhile_steady {skipped : TokenKind → Bool}
    (flat : ∀ kind, skipped kind → kind.bracketMark? = none) :
    Steady table (skipWhile skipped) := by
  have turn (kind : TokenKind) : SettlesAt table kind [] 0 (if skipped kind then do
      skip
      return Turn.again ()
    else return .done ()) := by
    split
    · next passed =>
        have : kind.Flat := ⟨flat kind passed⟩
        infer_instance
    · infer_instance
  unfold skipWhile skipTurn
  infer_instance

instance : Steady table skipNewlines :=
  skipWhile_steady fun kind same => by
    rw [of_decide_eq_true same]
    rfl

instance : Steady table skipTerminators :=
  skipWhile_steady fun _ => TokenKind.bracketMark_of_isTerminator

instance (word : Keyword) : Steady table (skipSeparator word) := by
  unfold skipSeparator separatorTurn
  apply Steady.loop
  intro separated
  apply Settles.peek
  intro kind span
  split
  · next passed =>
      have : kind.Flat := ⟨TokenKind.bracketMark_of_isTerminator passed⟩
      infer_instance
  · split
    · next same =>
        subst same
        infer_instance
    · infer_instance

instance (item : Parse NodeId) (breakable : Bool) [Steady table item] :
    Steady table (commaList item breakable) := by
  unfold commaList commaTurn
  infer_instance

instance (items : List NodeId) (span : Span) : Quiet (sequence items span) := by
  unfold sequence
  split <;> infer_instance

instance (start : Nat) : Quiet (spanSince start) := by
  unfold spanSince
  infer_instance

/-! ### Scopes and depth -/

omit [Serves table]

instance Settles.enterScope {form : ScopeKind} {next : Unit → Parse β}
    [rest : ∀ value, Settles table brackets (scopes + 1) (next value)] :
    Settles table brackets scopes (liftM (Scan.enterScope form) >>= next) where
  returns state := by
    have entered : Scan.Returns (Scan.enterScope form) state fun _ after =>
        Passage { brackets, scopes } { brackets, scopes := scopes + 1 } state after := by
      apply Scan.returns_modify
      refine ⟨.ofSameArena (Nat.le_refl _) rfl ?_, fun _ _ opened => opened⟩
      exact state.scopes.push_leads form scopes
    apply (returns_lift entered).bind
    intro value reached before
    exact ((rest value).returns reached).mono fun _ _ later => before.trans later

theorem Settles.inScope {form : ScopeKind} {next : Unit → Parse β}
    (rest : ∀ value, Settles table brackets (scopes + 1) (next value)) :
    Settles table brackets scopes (liftM (Scan.enterScope form) >>= next) :=
  inferInstance

instance Settles.leaveScope {body : Option NodeId} {span : Span} {next : NodeId → Parse β}
    [rest : ∀ id, Settles table brackets scopes (next id)] :
    Settles table brackets (scopes + 1) (liftM (Scan.leaveScope body span) >>= next) where
  returns state := by
    have left : Scan.Returns (Scan.leaveScope body span) state fun _ after =>
        Passage { brackets, scopes := scopes + 1 } { brackets, scopes } state after := by
      apply Scan.Returns.get_bind
      apply Scan.Returns.modify_bind
      apply (Scan.Quiet.returns _).mono
      intro id after stored
      have popped : Passage { brackets, scopes := scopes + 1 } { brackets, scopes } state
          { state with scopes := state.scopes.pop.2 } := by
        refine ⟨.ofSameArena (Nat.le_refl _) rfl ?_, fun _ _ opened => opened⟩
        exact state.scopes.pop_leads scopes
      exact popped.trans (stored.passage.under _)
    apply (returns_lift left).bind
    intro id reached before
    exact ((rest id).returns reached).mono fun _ _ later => before.trans later

instance (step : Parse α) [Settles table brackets scopes step] :
    Settles table brackets scopes (isolated step) := by
  unfold isolated
  apply Settles.andThen
  intro state
  apply Settles.andThen
  intro _
  apply Settles.finish inferInstance
  intro result
  infer_instance

instance {f : State → Nat} :
    Quiet (modify fun state => { state with depth := f state } : Parse PUnit) where
  returns _ state := by
    apply Scan.returns_modify
    exact .ofFields rfl rfl rfl rfl (Nat.le_refl _)

instance (step : Parse α) (position : Nat) [Settles table brackets scopes step] :
    Settles table brackets scopes (deeper position step) := by
  unfold deeper
  apply Settles.andThen
  intro state
  extract_lets inside
  have inside_settles (checked : Unit) : Settles table brackets scopes (inside checked) := by
    unfold inside
    apply Settles.andThen
    intro _
    apply Settles.finish inferInstance
    intro result
    infer_instance
  clear_value inside
  infer_instance

/-- What is read one level deeper starts at the same token. -/
theorem SettlesAt.deeper {step : Parse α} {position : Nat}
    (settles : SettlesAt table kind brackets scopes step) :
    SettlesAt table kind brackets scopes (deeper position step) := by
  unfold Parse.deeper
  apply SettlesAt.andThen
  intro state
  extract_lets inside
  have inside_settles (checked : Unit) :
      SettlesAt table kind brackets scopes (inside checked) := by
    unfold inside
    apply SettlesAt.andThen
    intro _
    apply SettlesAt.finish settles
    intro result
    infer_instance
  clear_value inside
  infer_instance

end Parse

end RubySyntax
