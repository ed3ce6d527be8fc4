/-
Operands that no operator goes on with.

An expression that ends where its operand ends passes through every level of
operators, through the words that join expressions, and through the modifiers of a
statement, and none of them does anything. So what is read as an operand is read as
an argument, as a value and as a statement.
-/

import RubySyntax.Proofs.Reading.Step

namespace RubySyntax

namespace TokenKind

/-- The tokens that start an operand by themselves: no operator stands before the
operand, and the statement is no construct of its own. -/
def opensOperand : TokenKind → Bool
  | .identifier _ => true
  | .integer _ => true
  | .punct .numberMinus => true
  | .literalBegin _ => true
  | .heredocBegin => true
  | .keyword .defWord => true
  | _ => false

/-- The tokens that go on with nothing that stands before them. -/
def closes : TokenKind → Bool
  | .integer _ => true
  | .newline => true
  | .semicolon => true
  | .interpolationEnd => true
  | .endOfInput => true
  | _ => false

/-- The tokens that go on with no operand: those, the marks after an argument, and the sign of
a number. -/
def endsOperand : TokenKind → Bool
  | .punct .comma => true
  | .punct .rightParen => true
  | .punct .numberMinus => true
  | kind => kind.closes

def links : TokenKind → Bool
  | .punct .callParen => true
  | .punct .leftBracket => true
  | .punct .dot => true
  | .punct .safeDot => true
  | .punct .colonColon => true
  | .punct .leftBrace => true
  | .keyword .doWord => true
  | _ => false

def assigns : TokenKind → Bool
  | .punct .assign => true
  | .operatorAssign _ => true
  | _ => false

theorem endsOperand_of_closes {kind : TokenKind} (closes : kind.closes = true) :
    kind.endsOperand = true := by
  cases kind <;> first | exact closes | cases closes

theorem passes_of_endsOperand {kind : TokenKind} (ends : kind.endsOperand = true) :
    kind.links = false ∧ kind.assigns = false := by
  cases kind with
  | punct mark => cases mark <;> first | exact ⟨rfl, rfl⟩ | cases ends
  | _ => first | exact ⟨rfl, rfl⟩ | cases ends

theorem goesOn_of_opensOperand {kind : TokenKind} (opens : kind.opensOperand = true) :
    kind.isTerminator = false ∧ kind.endsStatements = false := by
  cases kind with
  | identifier name => exact ⟨rfl, rfl⟩
  | integer value => exact ⟨rfl, rfl⟩
  | punct mark => cases mark <;> first | exact ⟨rfl, rfl⟩ | cases opens
  | literalBegin kind => exact ⟨rfl, rfl⟩
  | heredocBegin => exact ⟨rfl, rfl⟩
  | keyword word => cases word <;> first | exact ⟨rfl, rfl⟩ | cases opens
  | _ => cases opens

end TokenKind

structure Stopped (read : Operand → State → Prop) (operand : Operand) (after : State) : Prop where
  read : read operand after
  ahead : ∃ token, after.lookahead = some token ∧ token.kind.endsOperand = true

/-- A node has been read, no label is left over, and the token that comes next goes
on with nothing. -/
structure Closed (read : NodeId → State → Prop) (id : NodeId) (after : State) : Prop where
  read : read id after
  unlabelled : after.quotedKey = none
  ahead : ∃ token, after.lookahead = some token ∧ token.kind.closes = true

def ClosedOperand (read : NodeId → State → Prop) (operand : Operand) (after : State) : Prop :=
  ∃ id, operand = .node id ∧ Closed read id after

theorem ClosedOperand.mono {read other : NodeId → State → Prop} {operand : Operand} {after : State}
    (closed : ClosedOperand read operand after) (implies : ∀ id, read id after → other id after) :
    ClosedOperand other operand after := by
  obtain ⟨id, same, read, unlabelled, ahead⟩ := closed
  exact ⟨id, same, implies id read, unlabelled, ahead⟩

theorem ClosedOperand.stopped {read : NodeId → State → Prop} {operand : Operand} {after : State}
    (closed : ClosedOperand read operand after) : Stopped (ClosedOperand read) operand after := by
  obtain ⟨id, same, whole⟩ := closed
  obtain ⟨token, ahead, closes⟩ := whole.ahead
  exact ⟨⟨id, same, whole⟩, token, ahead, TokenKind.endsOperand_of_closes closes⟩

namespace Parse

variable {table : RuleTable} {depth least : Nat} {state : State} {first : Token}
  {rule : CommandRule} {started ended : Operand → State → Prop} {read : NodeId → State → Prop}
  {excused : Fatal → State → Prop}

theorem chain_of_primary (yields : Yields table primary state started excused)
    (ends : ∀ operand current, started operand current →
      Yields table (link? operand) current (fun link after =>
        link = none ∧ ended operand after) excused) :
    Yields table chain state ended excused := by
  refine yields.bind ?_
  intro operand reached begun
  apply repeatUntil_yields (fun (current : Operand) => started current)
  · exact begun
  intro operand current begun
  refine (ends operand current begun).bind ?_
  rintro _ after ⟨rfl, whole⟩
  exact yields_pure whole

theorem link?_none {operand : Operand} {reached : State → Prop}
    (peeks : Yields table peekKind state (fun kind after => kind.links = false ∧ reached after)
      excused) :
    Yields table (link? operand) state (fun link after => link = none ∧ reached after)
      excused := by
  refine peeks.bind ?_
  rintro kind after ⟨alone, whole⟩
  cases kind with
  | punct mark => cases mark <;> first | exact yields_pure ⟨rfl, whole⟩ | cases alone
  | keyword word => cases word <;> first | exact yields_pure ⟨rfl, whole⟩ | cases alone
  | _ => exact yields_pure ⟨rfl, whole⟩

theorem chain_stops (yields : Yields table primary state started excused)
    (peeks : ∀ operand current, started operand current →
      Yields table peekKind current (fun kind after => ∃ token, kind = token.kind ∧
        after.lookahead = some token ∧ token.kind.endsOperand = true ∧ ended operand after)
        excused) :
    Yields table chain state (Stopped ended) excused := by
  apply chain_of_primary yields
  intro operand current begun
  apply link?_none
  refine (peeks operand current begun).mono ?_
  rintro _ after ⟨token, rfl, ahead, ends, whole⟩
  exact ⟨(TokenKind.passes_of_endsOperand ends).1, whole, token, ahead, ends⟩

theorem isAssignable_yields (operand : Operand) :
    Scan.Yields (Scan.isAssignable operand) state (fun _ after => after = state) excused := by
  cases operand with
  | node id => exact (Scan.shapeOf_yields id).bind fun _ _ found => Scan.yields_pure found.1
  | identifier span known name => exact Scan.yields_pure rfl
  | constant span owner name => exact Scan.yields_pure rfl
  | bareCall span callee => cases callee <;> exact Scan.yields_pure rfl
  | fullCall span callee arguments => exact Scan.yields_pure rfl

/-- An operand is read as it is before a token that assigns nothing, unless arguments follow it
where they are reported. -/
theorem operand_of_chain
    (yields : ∀ depth, Yields (Parse.table depth) chain state ended excused)
    (passes : ∀ operand after, ended operand after → ∃ token, after.lookahead = some token ∧
      token.kind.assigns = false ∧ (rule = .reported → operand.takesArguments = false)) :
    Yields (Parse.table depth) (operand rule) state ended excused := by
  refine (descend_yields .chain yields depth).bind ?_
  intro operand reached whole
  obtain ⟨⟨kind, span⟩, ahead, noTarget, alone⟩ := passes operand reached whole
  refine Yields.peek_bind ahead (Yields.lift_bind (isAssignable_yields operand) ?_)
  rintro assigns after rfl
  have noArguments : (decide (rule = .reported) && operand.takesArguments &&
      kind.beginsArgument) = false := by
    cases rule with
    | accepted => rfl
    | reported => rw [alone rfl, Bool.and_false, Bool.false_and]
  have others : Yields (Parse.table depth) (do
      if decide (rule = .reported) && operand.takesArguments && kind.beginsArgument then
        Scan.report span .misplacedCommand
        return .node (← descend (.command operand false))
      else return operand) after ended excused := by
    rw [noArguments]
    exact yields_pure whole
  cases kind with
  | punct mark => cases mark <;> first | exact others | cases noTarget
  | _ => first | exact others | cases noTarget

theorem operand_stops (alone : ∀ operand after, ended operand after →
      operand.takesArguments = false)
    (yields : ∀ depth, Yields (Parse.table depth) chain state (Stopped ended) excused) :
    Yields (Parse.table depth) (operand rule) state (Stopped ended) excused := by
  apply operand_of_chain yields
  intro operand after stopped
  obtain ⟨token, ahead, ends⟩ := stopped.ahead
  exact ⟨token, ahead, (TokenKind.passes_of_endsOperand ends).2,
    fun _ => alone operand after stopped.read⟩

theorem unary_of_operand (ahead : state.lookahead = some first)
    (opens : first.kind.opensOperand = true)
    (yields : Yields table (operand rule) state ended excused) :
    Yields table (unary rule) state ended excused := by
  obtain ⟨kind, span⟩ := first
  refine Yields.peek_bind ahead ?_
  cases kind with
  | punct mark => cases mark <;> first | exact yields | cases opens
  | _ => exact yields

theorem minus_of_operand (ahead : state.lookahead = some first)
    (opens : first.kind.opensOperand = true)
    (yields : Yields table (operand rule) state ended excused)
    (passes : ∀ operand after, ended operand after → ∃ token, after.lookahead = some token ∧
      token.kind ≠ .punct .power) :
    Yields table (minus rule) state ended excused := by
  have unsigned : first.kind ≠ .punct .unaryMinus := by
    intro same
    rw [same] at opens
    cases opens
  refine Yields.peek_bind ahead ?_
  rw [if_neg unsigned]
  refine Yields.peek_bind ahead ((unary_of_operand ahead opens yields).bind ?_)
  intro operand after whole
  obtain ⟨token, next, other⟩ := passes operand after whole
  refine Yields.peek_bind next ?_
  rw [if_pos (bne_iff_ne.mpr other)]
  exact yields_pure whole

theorem minus_stops (ahead : state.lookahead = some first)
    (opens : first.kind.opensOperand = true)
    (yields : Yields table (operand rule) state (Stopped ended) excused) :
    Yields table (minus rule) state (Stopped ended) excused := by
  apply minus_of_operand ahead opens yields
  intro operand after stopped
  obtain ⟨token, next, ends⟩ := stopped.ahead
  refine ⟨token, next, fun same => ?_⟩
  rw [same] at ends
  cases ends

theorem operatorAt?_of_endsOperand {kind : TokenKind} (ends : kind.endsOperand = true) :
    operatorAt? kind = none := by
  cases kind with
  | punct mark => cases mark <;> first | rfl | cases ends
  | _ => rfl

theorem binary_of_minus (yields : Yields table (minus rule) state (Stopped ended) excused) :
    Yields table (binary rule least) state (Stopped ended) excused := by
  refine yields.bind ?_
  intro operand after begun
  apply repeatUntil_yields (fun (current : Operand × Option Nat) => Stopped ended current.1)
  · exact begun
  rintro ⟨operand, previous⟩ current stopped
  obtain ⟨token, next, ends⟩ := stopped.ahead
  refine Yields.peek_bind next ?_
  rw [operatorAt?_of_endsOperand ends]
  exact yields_pure stopped

theorem range_of_binary (yields : Yields table (binary rule 1) state (Stopped ended) excused) :
    Yields table (range rule) state (Stopped ended) excused := by
  refine yields.bind ?_
  intro operand after stopped
  obtain ⟨⟨kind, span⟩, next, ends⟩ := stopped.ahead
  refine Yields.peekKind_bind next ?_
  cases kind with
  | punct mark => cases mark <;> first | exact yields_pure stopped | cases ends
  | _ => exact yields_pure stopped

theorem argumentOperand_of_binary (ahead : state.lookahead = some first)
    (shallow : state.depth < state.limits.maxDepth)
    (yields : Yields table (binary rule 1) { state with depth := state.depth + 1 }
      (Stopped fun operand after => ended operand { after with depth := after.depth - 1 })
      excused) :
    Yields table (argumentOperand rule) state (Stopped ended) excused := by
  refine Yields.peek_bind ahead (deeper_yields_within (fun full => ?_) ?_)
  · exact absurd shallow (Nat.not_lt.mpr full)
  refine (range_of_binary yields).bind ?_
  intro operand after stopped
  obtain ⟨token, next, ends⟩ := stopped.ahead
  have other : token.kind ≠ .punct .question := by
    intro same
    rw [same] at ends
    cases ends
  refine Yields.accept_bind next other ?_
  exact yields_pure ⟨stopped.read, token, next, ends⟩

theorem argumentOperand_full (ahead : state.lookahead = some first)
    (full : state.limits.maxDepth ≤ state.depth)
    (excuse : excused (.nestingTooDeep state.limits.maxDepth first.span.start) state) :
    Yields table (argumentOperand rule) state ended excused := by
  refine Yields.peek_bind ahead (Yields.get_bind ?_)
  rw [if_pos full]
  exact excuse

theorem argumentOperand_stops (ahead : state.lookahead = some first)
    (opens : first.kind.opensOperand = true) (shallow : state.depth < state.limits.maxDepth)
    (yields : Yields table (operand rule) { state with depth := state.depth + 1 }
      (Stopped fun operand after => ended operand { after with depth := after.depth - 1 })
      excused) :
    Yields table (argumentOperand rule) state (Stopped ended) excused := by
  have deeper : ({ state with depth := state.depth + 1 } : State).lookahead = some first := ahead
  exact argumentOperand_of_binary ahead shallow (binary_of_minus (minus_stops deeper opens yields))

/-! ### Nodes that nothing goes on with -/

theorem chain_closed {begun : NodeId → State → Prop}
    (yields : Yields table primary state (fun operand after =>
      ∃ id, operand = .node id ∧ begun id after) excused)
    (peeks : ∀ id current, begun id current →
      Yields table peekKind current (fun kind after => ∃ token, kind = token.kind ∧
        after.lookahead = some token ∧ token.kind.closes = true ∧ after.quotedKey = none ∧
        read id after) excused) :
    Yields table chain state (ClosedOperand read) excused := by
  have ends : Yields table chain state (Stopped (ClosedOperand read)) excused := by
    apply chain_stops yields
    rintro _ current ⟨id, rfl, begun⟩
    refine (peeks id current begun).mono ?_
    rintro _ after ⟨token, rfl, ahead, closes, unlabelled, whole⟩
    exact ⟨token, rfl, ahead, TokenKind.endsOperand_of_closes closes,
      id, rfl, whole, unlabelled, token, ahead, closes⟩
  exact ends.mono fun operand after stopped => stopped.read

theorem operand_closed
    (yields : ∀ depth, Yields (Parse.table depth) chain state (ClosedOperand read) excused) :
    Yields (Parse.table depth) (operand rule) state (ClosedOperand read) excused := by
  have alone : ∀ operand after, ClosedOperand read operand after →
      operand.takesArguments = false := by
    rintro _ after ⟨id, rfl, -⟩
    rfl
  refine (operand_stops alone fun depth => ?_).mono fun operand after stopped => stopped.read
  exact (yields depth).mono fun operand after closed => closed.stopped

theorem argumentOperand_closed (ahead : state.lookahead = some first)
    (opens : first.kind.opensOperand = true) (shallow : state.depth < state.limits.maxDepth)
    (yields : Yields table (operand rule) { state with depth := state.depth + 1 }
      (ClosedOperand fun id after => read id { after with depth := after.depth - 1 }) excused) :
    Yields table (argumentOperand rule) state (ClosedOperand read) excused := by
  refine (argumentOperand_stops ahead opens shallow (yields.mono ?_)).mono
    fun operand after stopped => stopped.read
  rintro _ after ⟨id, rfl, whole⟩
  obtain ⟨token, next, closes⟩ := whole.ahead
  exact ⟨⟨id, rfl, whole.read, whole.unlabelled, whole.ahead⟩, token, next,
    TokenKind.endsOperand_of_closes closes⟩

theorem finishCommand_of_alone {operand : Operand} {allowBlock : Bool}
    {post : NodeId → State → Prop} (alone : operand.takesArguments = false)
    (ahead : state.lookahead = some first)
    (yields : Scan.Yields (Scan.nodeOf operand) state post excused) :
    Yields table (finishCommand operand rule allowBlock) state post excused := by
  refine Yields.peek_bind ahead ?_
  rw [alone]
  exact yields

theorem finishCommand_closed {id : NodeId} {allowBlock : Bool} (closed : Closed read id state) :
    Yields table (finishCommand (.node id) rule allowBlock) state (Closed read) excused := by
  obtain ⟨token, next, -⟩ := closed.ahead
  exact finishCommand_of_alone rfl next (Scan.yields_pure closed)

theorem argumentItem_stops {list : ArgumentList} (ahead : state.lookahead = some first)
    (opens : first.kind.opensOperand = true) (noBlock : list.block = none)
    (noPairs : list.pairs = #[])
    (valued : ∀ id after, read id after → after.quotedKey = none ∧
      ∃ shape, after.arena.Shaped id shape ∧ shape.isVoid = false)
    (yields : ∀ depth, Yields (Parse.table depth) (argumentOperand .accepted) state
      (Stopped fun operand after => ∃ id, operand = .node id ∧ read id after) excused) :
    Yields (Parse.table depth) (argumentItem list) state (fun longer after =>
      ∃ id span, longer = list.push id span ∧ read id after) excused := by
  have plain : Yields (Parse.table depth) (plainArgument list) state (fun longer after =>
      ∃ id span, longer = list.push id span ∧ read id after) excused := by
    refine (descend_yields (.argument .accepted) yields depth).bind ?_
    rintro _ after ⟨⟨id, rfl, whole⟩, token, next, ends⟩
    obtain ⟨unlabelled, shape, stored, notVoid⟩ := valued id after whole
    have noKey : Scan.Yields Scan.takeQuotedKey? after (fun key cleared =>
        key = none ∧ cleared = after) excused := by
      refine ⟨unlabelled, ?_⟩
      rw [← unlabelled]
    refine Yields.lift_bind noKey ?_
    rintro _ keyless ⟨rfl, rfl⟩
    have finished : Yields (Parse.table depth) (finishCommand (.node id) .accepted false) keyless
        (fun node settled => node = id ∧ settled = keyless) excused :=
      finishCommand_of_alone rfl next (Scan.yields_pure ⟨rfl, rfl⟩)
    refine finished.bind ?_
    rintro _ _ ⟨rfl, rfl⟩
    refine Yields.lift_bind (Scan.requireValue_of_shaped stored notVoid) ?_
    rintro _ _ rfl
    have noArrow : token.kind ≠ .punct .fatArrow := by
      intro same
      rw [same] at ends
      cases ends
    refine Yields.accept_bind next noArrow ?_
    refine Yields.lift_bind (Scan.spanOf_yields _) ?_
    rintro place _ rfl
    simp only [noPairs, Array.isEmpty_empty, Bool.not_true, Bool.false_eq_true, if_false]
    exact yields_pure ⟨_, place, rfl, whole⟩
  obtain ⟨kind, span⟩ := first
  refine Yields.peek_bind ahead ?_
  simp only [noBlock, Option.isSome_none, Bool.false_eq_true, if_false]
  cases kind with
  | punct mark => cases mark <;> first | exact plain | cases opens
  | _ => first | exact plain | cases opens

theorem assignedValue_closed (begun : State → Prop)
    (peeks : Yields (Parse.table depth) peekKind state (fun kind after => ∃ token,
      kind = token.kind ∧ kind.opensOperand = true ∧ after.lookahead = some token ∧ begun after)
      excused)
    (valued : ∀ id after, read id after →
      ∃ shape, after.arena.Shaped id shape ∧ shape.isVoid = false)
    (yields : ∀ depth token current, current.lookahead = some token →
      token.kind.opensOperand = true → begun current →
      Yields (Parse.table depth) (argumentOperand rule) current (ClosedOperand read) excused) :
    Yields (Parse.table depth) (assignedValue rule) state (Closed read) excused := by
  refine peeks.bind ?_
  rintro _ peeked ⟨token, rfl, opens, seen, begun⟩
  have notSplat : token.kind ≠ .punct .splatStar := by
    intro same
    rw [same] at opens
    cases opens
  rw [if_neg notSplat]
  refine (descend_yields (.argument rule)
    (fun depth => yields depth token peeked seen opens begun) depth).bind ?_
  rintro _ after ⟨id, rfl, closed⟩
  have noCommand : Yields (Parse.table depth)
      (if Operand.takesArguments (.node id) = true then
        do return (← peekKind).beginsArgument else pure false) after
      (fun isCommand reached => isCommand = false ∧ reached = after) excused :=
    yields_pure ⟨rfl, rfl⟩
  refine noCommand.bind ?_
  rintro isCommand reached ⟨rfl, rfl⟩
  refine Yields.ite (fun _ => Yields.lift_bind (Scan.yields_pure closed) ?_) fun _ =>
    (finishCommand_closed closed).bind ?_
  all_goals
    intro id after closed
    obtain ⟨shape, stored, notVoid⟩ := valued id after closed.read
    obtain ⟨token, next, closes⟩ := closed.ahead
    refine Yields.lift_bind (Scan.requireValue_of_shaped stored notVoid) ?_
    rintro _ _ rfl
    refine Yields.peekKind_bind next ?_
    have other : token.kind ≠ .keyword .rescueModifier := by
      intro same
      rw [same] at closes
      cases closes
    rw [decide_eq_false other]
    exact yields_pure closed

theorem chain_name {symbol : Symbol} {span : Span} {named : State → Prop}
    (ahead : state.lookahead = some ⟨.identifier symbol, span⟩)
    (peeks : Yields table peekKind { state with lookahead := none, previousStop := span.stop }
      (fun kind after => kind.links = false ∧ named after) excused) :
    Yields table chain state (fun operand after =>
      operand = .identifier span (state.scopes.isLocal symbol) symbol ∧ named after) excused := by
  let taken : State := { state with lookahead := none, previousStop := span.stop }
  have first : Yields table primary state (fun operand after =>
      operand = .identifier span (state.scopes.isLocal symbol) symbol ∧ after = taken) excused :=
    Yields.peek_bind ahead (Yields.skip_bind ahead (Yields.get_bind (yields_pure ⟨rfl, rfl⟩)))
  apply chain_of_primary first
  rintro _ _ ⟨rfl, rfl⟩
  refine (link?_none peeks).mono ?_
  rintro _ after ⟨rfl, whole⟩
  exact ⟨rfl, rfl, whole⟩

/-- A name becomes the target of an assignment, and what follows the sign is its value. -/
theorem operand_assigns {symbol : Symbol} {span : Span} (named : State → Prop)
    (valued : NodeId → NodeId → State → Prop)
    (ahead : state.lookahead = some ⟨.identifier symbol, span⟩)
    (peeks : ∀ table, Succeeds table peekKind
      { state with lookahead := none, previousStop := span.stop } fun kind after =>
        kind = .punct .assign ∧ (∃ mark, after.lookahead = some ⟨.punct .assign, mark⟩) ∧
          after.arena.FreeSound ∧ after.Room 1 ∧ named after)
    (values : ∀ current stop scopes target after, named current →
      State.Stores { current with lookahead := none, previousStop := stop, scopes }
        (.named .localVariable symbol) target after →
      Succeeds (Parse.table depth) (assignedValue rule) after (Closed fun value current =>
        current.arena.FreeSound ∧ current.Room 1 ∧ valued target value current))
    (joins : ∀ target value current id after, valued target value current →
      current.Stores (.binary .assign target value) id after → read id after) :
    Succeeds (Parse.table depth) (operand rule) state (ClosedOperand read) := by
  have names : ∀ depth, Succeeds (Parse.table depth) chain state _ :=
    fun depth => chain_name ahead ((peeks (Parse.table depth)).mono
      fun kind after seen => ⟨seen.1 ▸ rfl, seen.2⟩)
  refine (descend_yields .chain names depth).bind ?_
  rintro _ current ⟨rfl, ⟨mark, seen⟩, free, room, begun⟩
  have assignable : Scan.Succeeds
      (Scan.isAssignable (.identifier span (state.scopes.isLocal symbol) symbol)) current
      fun assigns after => assigns = true ∧ after = current := Scan.yields_pure ⟨rfl, rfl⟩
  refine Yields.peek_bind seen (Yields.lift_bind assignable ?_)
  rintro _ signed ⟨rfl, rfl⟩
  refine Yields.skip_bind seen ?_
  let declared : State := { signed with
    lookahead := none
    previousStop := mark.stop
    scopes := signed.scopes.declare symbol }
  have target : Scan.Succeeds
      (Scan.targetOf (.identifier span (state.scopes.isLocal symbol) symbol))
      { signed with lookahead := none, previousStop := mark.stop }
      (declared.Stores (.named .localVariable symbol)) :=
    Scan.alloc_succeeds (show declared.arena.FreeSound from free) room _ span
  refine Yields.lift_bind target ?_
  intro target stored stores
  refine (values signed _ _ target stored begun stores).bind ?_
  rintro value reached ⟨⟨free, room, whole⟩, unlabelled, following⟩
  refine Yields.lift_bind (Scan.spanOfBoth_yields target value) ?_
  rintro both _ rfl
  refine Yields.lift_bind (Scan.alloc_succeeds free room _ both) ?_
  intro id after stores
  have read := joins target value _ id after whole stores
  obtain ⟨⟨arena, rfl⟩, -⟩ := stores
  exact yields_pure ⟨id, rfl, read, unlabelled, following⟩

/-! ### Statements -/

/-- What an operand becomes is an expression without `not`. -/
theorem negation_of_argument {post : NodeId → State → Prop} (ahead : state.lookahead = some first)
    (opens : first.kind.opensOperand = true)
    (yields : ∀ depth, Yields (Parse.table depth) (argumentOperand rule) state ended excused)
    (finishes : ∀ operand current, ended operand current →
      Yields (Parse.table depth) (finishCommand operand rule true) current post excused) :
    Yields (Parse.table depth) (negation rule) state post excused := by
  refine Yields.peek_bind ahead ?_
  have other : first.kind ≠ .keyword .notWord := by
    intro same
    rw [same] at opens
    cases opens
  rw [if_neg other]
  exact (descend_yields (.argument rule) yields depth).bind finishes

theorem negation_closed (ahead : state.lookahead = some first)
    (opens : first.kind.opensOperand = true)
    (yields : ∀ depth, Yields (Parse.table depth) (argumentOperand rule) state
      (ClosedOperand read) excused) :
    Yields (Parse.table depth) (negation rule) state (Closed read) excused := by
  refine negation_of_argument ahead opens yields ?_
  rintro _ after ⟨id, rfl, closed⟩
  exact finishCommand_closed closed

theorem expression_of_negation {post : NodeId → State → Prop}
    (yields : ∀ depth, Yields (Parse.table depth) (negation rule) state post excused)
    (passes : ∀ id after, post id after → ∃ token, after.lookahead = some token ∧
      token.kind.endsOperand = true) :
    Yields (Parse.table depth) (expression rule) state post excused := by
  refine (descend_yields (.negation rule) yields depth).bind ?_
  intro id after started
  apply repeatUntil_yields post
  · exact started
  intro id current whole
  obtain ⟨⟨kind, span⟩, next, ends⟩ := passes id current whole
  refine Yields.peekKind_bind next ?_
  cases kind <;> first | exact yields_pure whole | cases ends

theorem expression_closed
    (yields : ∀ depth, Yields (Parse.table depth) (negation rule) state (Closed read) excused) :
    Yields (Parse.table depth) (expression rule) state (Closed read) excused := by
  apply expression_of_negation yields
  intro id after closed
  obtain ⟨token, next, closes⟩ := closed.ahead
  exact ⟨token, next, TokenKind.endsOperand_of_closes closes⟩

theorem expressionStatement_closed (ahead : state.lookahead = some first)
    (yields : ∀ depth, Yields (Parse.table depth) (negation .accepted) state (Closed read)
      excused) :
    Yields (Parse.table depth) expressionStatement state (Closed read) excused := by
  refine Yields.peek_bind ahead ((expression_closed yields).bind ?_)
  intro id after closed
  obtain ⟨⟨kind, span⟩, next, closes⟩ := closed.ahead
  refine Yields.peekKind_bind next (Yields.lift_bind (Scan.shapeOf_yields id) ?_)
  rintro shape _ ⟨rfl, -⟩
  have noComma : kind ≠ .punct .comma := by
    rintro rfl
    cases closes
  have noAssign : kind ≠ .punct .assign := by
    rintro rfl
    cases closes
  dsimp only
  split
  · rw [if_neg noComma]
    exact yields_pure closed
  · rw [if_neg noComma, if_neg noAssign]
    exact yields_pure closed
  · rw [if_neg noComma]
    exact yields_pure closed

theorem plainStatement_closed (ahead : state.lookahead = some first)
    (opens : first.kind.opensOperand = true)
    (yields : ∀ depth, Yields (Parse.table depth) (negation .accepted) state (Closed read)
      excused) :
    Yields (Parse.table depth) (plainStatement first) state (Closed read) excused := by
  have whole : Yields (Parse.table depth) expressionStatement state (Closed read) excused :=
    expressionStatement_closed ahead yields
  obtain ⟨kind, span⟩ := first
  cases kind with
  | punct mark => cases mark <;> first | exact whole | cases opens
  | keyword word => cases word <;> first | exact whole | cases opens
  | _ => exact whole

theorem statement_of_plain (ahead : state.lookahead = some first)
    (yields : Yields (Parse.table depth) (plainStatement first) state (Closed read) excused) :
    Yields (Parse.table depth) statement state (Closed read) excused := by
  refine Yields.peek_bind ahead (yields.bind ?_)
  intro id after closed
  have noKey : Scan.Yields Scan.takeQuotedKey? after (fun key cleared =>
      key = none ∧ cleared = after) excused := by
    refine ⟨closed.unlabelled, ?_⟩
    rw [← closed.unlabelled]
  refine Yields.lift_bind noKey ?_
  rintro _ _ ⟨rfl, rfl⟩
  apply repeatUntil_yields (Closed read)
  · exact closed
  intro id current closed
  obtain ⟨⟨kind, span⟩, next, closes⟩ := closed.ahead
  have unmodified : Yields (Parse.table depth) (modifier? first id) current (fun shape? after =>
      shape? = none ∧ after = current) excused := by
    refine Yields.peekKind_bind next ?_
    cases kind <;> first | exact yields_pure ⟨rfl, rfl⟩ | cases closes
  refine Yields.peek_bind next (unmodified.bind ?_)
  rintro _ _ ⟨rfl, rfl⟩
  exact yields_pure closed

theorem statement_closed (ahead : state.lookahead = some first)
    (opens : first.kind.opensOperand = true)
    (yields : ∀ depth, Yields (Parse.table depth) (negation .accepted) state (Closed read)
      excused) :
    Yields (Parse.table depth) statement state (Closed read) excused :=
  statement_of_plain ahead (plainStatement_closed ahead opens yields)

theorem statement_full (ahead : state.lookahead = some first)
    (opens : first.kind.opensOperand = true) (full : state.limits.maxDepth ≤ state.depth)
    (excuse : excused (.nestingTooDeep state.limits.maxDepth first.span.start) state) :
    Yields (Parse.table depth) statement state (Closed read) excused :=
  statement_closed ahead opens fun _ => negation_closed ahead opens fun _ =>
    argumentOperand_full ahead full excuse

end Parse

end RubySyntax
