/-
A minus sign between a blank and a number, after a name.

What the name is decides what the sign does. The number is subtracted from a variable that
is known. After any other name the sign belongs to the number, which is the argument of a
call, and a warning is given because the blanks alone tell the two apart.
-/

import RubySyntax.Proofs.Reading.Number

namespace RubySyntax

def State.warned (state : State) : State :=
  { state with
    report := state.report.add ⟨state.input.position + 1, state.input.position + 2⟩
      .ambiguousArgument }

namespace Parse

variable {table : RuleTable} {depth : Nat} {state : State} {text more : Bytes} {value : Nat}
  {rule : CommandRule} {symbol : Symbol} {span : Span}

theorem primary_sign (left : state.Left (decimal value))
    (ahead : state.lookahead = some ⟨.punct .numberMinus, span⟩) (room : state.Room 1) :
    Succeeds table primary state fun operand after =>
      ∃ id, operand = .node id ∧ NumberStored state (-value) id after := by
  let signed : State := { state with lookahead := none, previousStop := span.stop }
  have rest : signed.Left (decimal value) := left.alike left.idle rfl rfl rfl
  have number : Succeeds table negativeNumber state (NumberStored state (-value)) := by
    refine Yields.take_bind ahead ((peekToken_integer rest rfl (spellsInteger_decimal value)).bind ?_)
    rintro ⟨_, digits⟩ peeked ⟨seen, rfl, last, mode, looked⟩
    let taken : State := { peeked with lookahead := none, previousStop := digits.stop }
    have ended : taken.Left [] := last.alike last.idle rfl rfl rfl
    have passed : state.Builds 0 signed := .of_same rfl rfl rfl rfl rfl
    have read : state.Builds 0 taken := (passed.trans looked).alike rfl rfl rfl rfl rfl
    exact Yields.skip_bind seen (yields_lift (alloc_number ended mode rfl room read _))
  refine Yields.peek_bind ahead (number.bind ?_)
  intro id after stored
  exact yields_pure ⟨id, rfl, stored⟩

/-! ### The sign -/

structure SignAhead (mark : Punct) (value : Nat) (state : State) : Prop where
  seen : ∃ span, state.lookahead = some ⟨.punct mark, span⟩
  left : state.Left (decimal value)

/-- After a variable the mark stands between two operands. -/
theorem peekKind_minus (left : state.Left ([0x20, 0x2D] ++ decimal value))
    (unseen : state.lookahead = none) (mode : state.lexer.mode = .operandEnd) :
    Succeeds table peekKind state fun kind after =>
      kind = .punct .minus ∧ SignAhead .minus value after ∧ state.Builds 0 after := by
  have reads : Scan.Succeeds Scan.nextToken state fun token after =>
      token.kind = .punct .minus ∧ after.report = state.report ∧
        state.TextRead [0x20, 0x2D] after ∧ after.lexer.mode = .begin := by
    have text : state.input.rest = 0x20 :: 0x2D :: (decimal value ++ []) := by
      rw [List.append_nil]
      exact left.text
    refine (Scan.minusToken_yields left.idle mode text).mono ?_
    rintro token _ ⟨kind, ⟨⟨input, lexer, rfl⟩, moved, idle⟩, mode⟩
    exact ⟨kind, rfl, ⟨⟨input, lexer, rfl⟩, moved, idle⟩, mode⟩
  refine (peekToken_left left unseen reads nofun).bind ?_
  rintro ⟨_, span⟩ after ⟨seen, rfl, left, -, looked, -⟩
  exact yields_pure ⟨rfl, ⟨⟨span, seen⟩, left⟩, looked⟩

/-- After the name of a call it is the sign of an argument, and a warning is given. -/
theorem peekKind_sign (left : state.Left ([0x20, 0x2D] ++ decimal value))
    (unseen : state.lookahead = none) (mode : state.lexer.mode.isArgument = true) :
    Succeeds table peekKind state fun kind after => kind = .punct .numberMinus ∧
      SignAhead .numberMinus value after ∧ state.warned.Builds 0 after := by
  have text : state.input.rest = 0x20 :: 0x2D :: (decimal value ++ []) := by
    rw [List.append_nil]
    exact left.text
  have reads : Scan.Succeeds Scan.nextToken state fun token after =>
      token.kind = .punct .numberMinus ∧ after.report = state.warned.report ∧
        state.warned.TextRead [0x20, 0x2D] after ∧ after.lexer.mode = .begin := by
    refine (Scan.argumentSignToken_yields left.idle mode text).mono ?_
    rintro token after ⟨kind, reported, read, mode⟩
    rw [reported] at read
    exact ⟨kind, reported, read, mode⟩
  refine (peekToken_left left unseen reads nofun).bind ?_
  rintro ⟨_, span⟩ after ⟨seen, rfl, left, -, looked, -⟩
  exact yields_pure ⟨rfl, ⟨⟨span, seen⟩, left⟩, looked⟩

theorem operand_before_sign {begun : State} {mark : Punct}
    (ahead : state.lookahead = some ⟨.identifier symbol, span⟩)
    (apart : (TokenKind.punct mark).links = false ∧ (TokenKind.punct mark).assigns = false)
    (peeks : ∀ table, Succeeds table peekKind
      { state with lookahead := none, previousStop := span.stop } fun kind after =>
        kind = .punct mark ∧ SignAhead mark value after ∧ begun.Builds 0 after) :
    Succeeds (Parse.table depth) (operand .accepted) state fun operand after =>
      operand = .identifier span (state.scopes.isLocal symbol) symbol ∧
        SignAhead mark value after ∧ begun.Builds 0 after := by
  apply operand_of_chain
  · intro depth
    exact chain_name ahead ((peeks _).mono fun kind after seen => ⟨seen.1 ▸ apart.1, seen.2⟩)
  · rintro _ after ⟨rfl, sign, -⟩
    obtain ⟨place, seen⟩ := sign.seen
    exact ⟨_, seen, apart.2, nofun⟩

/-! ### A subtraction -/

/-- A number is subtracted from a variable. -/
def Subtracts (state : State) (symbol : Symbol) (value : Nat) (id : NodeId) : Prop :=
  ∃ left right minus, state.arena.Shaped id (.call false left minus [right] none) ∧
    state.arena.Shaped left (.named .localVariable symbol) ∧
    state.arena.Shaped right (.integer value) ∧ state.symbols.Spells minus (ascii "-")

theorem binary_subtrahend {least : Nat} (left : state.Left (decimal value))
    (unseen : state.lookahead = none) (room : state.Room 1) :
    Succeeds (Parse.table depth) (binary rule least) state
      (Stopped (ClosedOperand (LastNumber state value))) := by
  apply binary_of_minus
  have peeks : Succeeds (Parse.table depth) peekToken state fun token after =>
      after.lookahead = some token ∧ token.kind = .integer value ∧ after.Left [] ∧
        after.lexer.mode = .operandEnd ∧ state.Builds 0 after := peekToken_integer left unseen (spellsInteger_decimal value)
  refine Yields.ahead_bind peeks ?_
  rintro ⟨_, span⟩ after seen ⟨rfl, last, mode, looked⟩
  refine minus_stops seen rfl ((operand_last fun _ =>
    primary_lastNumber last mode seen (room.after looked.toGains)).mono ?_)
  intro operand reached closed
  exact (closed.mono fun id number => ⟨number.1, number.2.since looked⟩).stopped

theorem binaryNode_subtracts {begun : State} {left right : NodeId}
    (named : state.arena.Shaped left (.named .localVariable symbol))
    (given : state.arena.Shaped right (.integer value)) (ended : begun.EndSeen 2 state)
    (room : state.Room 1) :
    Succeeds table (binaryNode .minus left right) state fun id after =>
      Subtracts after symbol value id ∧ begun.EndSeen 3 after := by
  refine Yields.lift_bind (Scan.spanOfBoth_yields left right) ?_
  rintro both _ rfl
  refine Yields.lift_bind (Scan.requireValue_of_shaped named rfl) ?_
  rintro _ _ rfl
  refine Yields.lift_bind (Scan.requireValue_of_shaped given rfl) ?_
  rintro _ settled rfl
  refine Yields.lift_bind (Scan.intern_yields _) ?_
  rintro minus _ ⟨-, symbols, rfl, known, spelled, grows⟩
  have interned : settled.Builds 0 { settled with symbols } := ⟨⟨grows, rfl, rfl, rfl, rfl⟩, rfl⟩
  have seen : begun.EndSeen 2 { settled with symbols } :=
    ⟨ended.ended, ended.free, ended.unlabelled, ended.builds.trans interned⟩
  refine yields_lift ((Scan.alloc_succeeds seen.free (room.after interned.toGains) _ both).mono ?_)
  intro id after stores
  have minus : after.symbols.Spells minus (ascii "-") :=
    stores.builds.spells ⟨known, spelled⟩
  exact ⟨⟨left, right, _, stores.stored, stores.builds.shaped named, stores.builds.shaped given,
    minus⟩, seen.stored stores⟩

theorem subtraction_bind {α : Type} {begun : State} {next : NodeId → Parse α}
    {post : α → State → Prop} (sign : SignAhead .minus value state) (started : begun.Builds 0 state)
    (room : begun.Room 3)
    (yields : ∀ id after, Subtracts after symbol value id → begun.EndSeen 3 after →
      Succeeds (Parse.table depth) (next id) after post) :
    Succeeds (Parse.table depth) (do
      skip
      let left ← Scan.nodeOf (.identifier span true symbol)
      let right ← Scan.nodeOf (← descend (.binary .reported 9))
      next (← binaryNode .minus left right)) state post := by
  obtain ⟨⟨place, seen⟩, digits⟩ := sign
  refine Yields.skip_bind seen ?_
  let signed : State := { state with lookahead := none, previousStop := place.stop }
  have started : begun.Builds 0 signed := started.alike rfl rfl rfl rfl rfl
  have roomy : signed.Room 3 := room.after started.toGains
  have free : signed.arena.FreeSound := digits.free
  refine Yields.lift_bind (Scan.alloc_succeeds free (roomy.of_le (by decide))
    (.named .localVariable symbol) span) ?_
  intro variableId named stores
  have rest : named.Left (decimal value) ∧ named.lookahead = none := by
    obtain ⟨⟨arena, rfl⟩, -, -, -, free⟩ := stores
    exact ⟨⟨digits.idle, digits.sound, digits.text, free, digits.unlabelled⟩, rfl⟩
  have stored := started.trans stores.builds
  have left : named.Room 2 := room.after stored.toGains
  have operand : ∀ depth, Succeeds (Parse.table depth) (binary .reported 9) named
      (Stopped (ClosedOperand (LastNumber named value))) :=
    fun depth => binary_subtrahend rest.1 rest.2 (left.of_le (by decide))
  refine (descend_yields (.binary .reported 9) operand depth).bind ?_
  rintro _ reached ⟨⟨numberId, rfl, ⟨given, ended⟩, -, -⟩, -⟩
  have both : begun.EndSeen 2 reached := ended.since stored
  have variableNode := ended.builds.shaped stores.stored
  refine Yields.nodeOf_bind
    ((binaryNode_subtracts variableNode given both (room.after both.builds.toGains)).bind ?_)
  exact fun id after ⟨subtracts, seen⟩ => yields id after subtracts seen

theorem binary_subtracts (ahead : state.lookahead = some ⟨.identifier symbol, span⟩)
    (known : state.scopes.isLocal symbol = true)
    (left : state.Left ([0x20, 0x2D] ++ decimal value))
    (mode : state.lexer.mode = .operandEnd) (room : state.Room 3) :
    Succeeds (Parse.table depth) (binary .accepted 1) state (Stopped (ClosedOperand fun id after =>
      Subtracts after symbol value id ∧ state.EndSeen 3 after)) := by
  let taken : State := { state with lookahead := none, previousStop := span.stop }
  have rest : taken.Left ([0x20, 0x2D] ++ decimal value) := left.alike left.idle rfl rfl rfl
  have passed : state.Builds 0 taken := .of_same rfl rfl rfl rfl rfl
  have name : Succeeds (Parse.table depth) (minus .accepted) state fun operand after =>
      operand = .identifier span true symbol ∧ SignAhead .minus value after ∧
        taken.Builds 0 after := by
    rw [← known]
    refine minus_of_operand ahead rfl
      (operand_before_sign ahead ⟨rfl, rfl⟩ fun table => peekKind_minus rest rfl mode) ?_
    rintro _ after ⟨rfl, sign, -⟩
    obtain ⟨place, seen⟩ := sign.seen
    exact ⟨_, seen, nofun⟩
  refine name.bind ?_
  rintro _ after ⟨rfl, sign, looked⟩
  apply repeatUntil_yields (fun (read : Operand × Option Nat) current =>
    (read = (.identifier span true symbol, none) ∧ SignAhead .minus value current ∧
      taken.Builds 0 current) ∨
      ClosedOperand (fun id after => Subtracts after symbol value id ∧ state.EndSeen 3 after)
        read.1 current)
  · exact .inl ⟨rfl, sign, looked⟩
  rintro ⟨operand, previous⟩ current (⟨same, sign, looked⟩ | closed)
  · cases same
    obtain ⟨place, seen⟩ := sign.seen
    refine Yields.peek_bind seen (subtraction_bind sign (passed.trans looked) room ?_)
    intro id after subtracts ended
    exact yields_pure (.inr ⟨id, rfl, ⟨subtracts, ended⟩, ended.unlabelled, ended.closes⟩)
  · have stopped := closed.stopped
    obtain ⟨token, next, ends⟩ := stopped.ahead
    refine Yields.peek_bind next ?_
    rw [operatorAt?_of_endsOperand ends]
    exact yields_pure stopped

theorem argument_subtracts (ahead : state.lookahead = some ⟨.identifier symbol, span⟩)
    (known : state.scopes.isLocal symbol = true)
    (left : state.Left ([0x20, 0x2D] ++ decimal value))
    (mode : state.lexer.mode = .operandEnd) (room : state.Room 3)
    (shallow : state.depth < state.limits.maxDepth) :
    Succeeds (Parse.table depth) (argumentOperand .accepted) state (ClosedOperand fun id after =>
      Subtracts after symbol value id ∧ state.EndSeen 3 after) := by
  let deeper : State := { state with depth := state.depth + 1 }
  have rest : deeper.Left ([0x20, 0x2D] ++ decimal value) := left.alike left.idle rfl rfl rfl
  have whole : Succeeds (Parse.table depth) (argumentOperand .accepted) state
      (Stopped (ClosedOperand fun id after =>
        Subtracts after symbol value id ∧ state.EndSeen 3 after)) := by
    apply argumentOperand_of_binary ahead shallow
    have levels : Succeeds (Parse.table depth) (binary .accepted 1) deeper
        (Stopped (ClosedOperand fun id after =>
          Subtracts after symbol value id ∧ deeper.EndSeen 3 after)) :=
      binary_subtracts ahead known rest mode room
    refine levels.mono ?_
    rintro _ after ⟨⟨id, rfl, ⟨subtracts, seen⟩, unlabelled, following⟩, stopped⟩
    exact ⟨⟨id, rfl, ⟨subtracts, seen.shallower⟩, unlabelled, following⟩, stopped⟩
  exact whole.mono fun operand after stopped => stopped.read

/-! ### A call -/

theorem argument_sign (sign : SignAhead .numberMinus value state)
    (room : state.Room 1) (shallow : state.depth < state.limits.maxDepth) :
    Succeeds (Parse.table depth) (argumentOperand rule) state
      (ClosedOperand (LastNumber state (-value))) := by
  obtain ⟨place, seen⟩ := sign.seen
  let deeper : State := { state with depth := state.depth + 1 }
  have rest : deeper.Left (decimal value) := sign.left.alike sign.left.idle rfl rfl rfl
  have number : Succeeds (Parse.table depth) (operand rule) deeper
      (ClosedOperand (LastNumber deeper (-value))) :=
    operand_last fun _ => primary_sign rest seen room
  refine argumentOperand_closed seen rfl shallow (number.mono ?_)
  intro operand after closed
  exact closed.mono fun id number => ⟨number.1, number.2.shallower⟩

theorem arguments_sign (sign : SignAhead .numberMinus value state)
    (room : state.Room 1) (shallow : state.depth < state.limits.maxDepth) :
    Succeeds (Parse.table depth) (arguments none) state fun list after =>
      ∃ id, list.items = [id] ∧ list.block = none ∧ LastNumber state (-value) id after := by
  obtain ⟨place, seen⟩ := sign.seen
  have item : Succeeds (Parse.table depth) (argumentItem {}) state fun list after =>
      ∃ id span, list = ArgumentList.push {} id span ∧ LastNumber state (-value) id after := by
    refine argumentItem_stops seen rfl rfl rfl ?_ fun depth => ?_
    · rintro id after ⟨stored, ended⟩
      exact ⟨ended.unlabelled, _, stored, rfl⟩
    · refine (argument_sign sign room shallow).mono ?_
      rintro _ after ⟨id, rfl, closed⟩
      obtain ⟨token, next, closes⟩ := closed.ahead
      exact ⟨⟨id, rfl, closed.read⟩, token, next, TokenKind.endsOperand_of_closes closes⟩
  have single : Succeeds (Parse.table depth) (repeatUntil {} (argumentTurn none)) state
      fun list after => ∃ id span, list = ArgumentList.push {} id span ∧
        LastNumber state (-value) id after := by
    apply repeatUntil_yields (fun list current => list = {} ∧ current = state)
    · exact ⟨rfl, rfl⟩
    rintro _ _ ⟨rfl, rfl⟩
    refine item.bind ?_
    rintro _ after ⟨id, span, rfl, number⟩
    obtain ⟨last, ended⟩ := number.2.ended
    exact Yields.accept_bind ended nofun (yields_pure ⟨id, span, rfl, number⟩)
  refine single.bind ?_
  rintro _ after ⟨id, span, rfl, number⟩
  exact yields_pure ⟨id, rfl, rfl, number⟩

def CallsWith (state : State) (symbol : Symbol) (value : Nat) (id : NodeId) : Prop :=
  ∃ argument, state.arena.Shaped id (.functionCall symbol [argument] none) ∧
    state.arena.Shaped argument (.integer (-value))

theorem commandArguments_sign (sign : SignAhead .numberMinus value state)
    (room : state.Room 1) (shallow : state.depth < state.limits.maxDepth) :
    Succeeds (Parse.table depth) commandArguments state fun list after =>
      ∃ id, list.items = [id] ∧ list.block = none ∧ LastNumber state (-value) id after := by
  let marked : State := { state with
    lexer := { state.lexer with commandFlags := state.lexer.commandFlags.push true } }
  have ahead : SignAhead .numberMinus value marked :=
    ⟨sign.seen, sign.left.alike sign.left.idle.change rfl rfl rfl⟩
  refine Yields.get_bind (Yields.modify_bind ?_)
  have list : Succeeds (Parse.table depth) (arguments none) marked fun list after =>
      ∃ id, list.items = [id] ∧ list.block = none ∧ LastNumber marked (-value) id after :=
    arguments_sign ahead room shallow
  refine list.bind ?_
  rintro given after ⟨id, items, block, stored, ended⟩
  refine Yields.modify_bind (yields_pure ⟨id, items, block, stored, ?_⟩)
  have passed : state.Builds 0 marked := .of_same rfl rfl rfl rfl rfl
  have builds := passed.trans ended.builds
  exact ⟨ended.ended, ended.free, ended.unlabelled, builds.alike rfl rfl rfl rfl rfl⟩

theorem command_sign {known allowBlock : Bool} (sign : SignAhead .numberMinus value state)
    (room : state.Room 2) (shallow : state.depth + 2 ≤ state.limits.maxDepth) :
    Succeeds (Parse.table depth) (command (.identifier span known symbol) allowBlock) state
      (Closed fun id after => CallsWith after symbol value id ∧ state.EndSeen 2 after) := by
  let deeper : State := { state with depth := state.depth + 1 }
  have ahead : SignAhead .numberMinus value deeper :=
    ⟨sign.seen, sign.left.alike sign.left.idle rfl rfl rfl⟩
  have roomy : deeper.Room 2 := room
  have list : Succeeds (Parse.table depth) commandArguments deeper fun list after =>
      ∃ id, list.items = [id] ∧ list.block = none ∧ LastNumber deeper (-value) id after :=
    commandArguments_sign ahead (roomy.of_le (by decide)) shallow
  refine deeper_yields_within (fun full => ?_) (list.bind ?_)
  · exact absurd full (by omega)
  rintro ⟨_, _, place⟩ reached ⟨argument, rfl, rfl, stored, ended⟩
  refine Yields.lift_bind (Scan.alloc_succeeds ended.free (roomy.after ended.builds.toGains)
    (.functionCall symbol [argument] none) (span.hull place)) ?_
  intro id after stores
  have seen : deeper.EndSeen 2 after := ended.stored stores
  have closed : Closed (fun id after => CallsWith after symbol value id ∧ state.EndSeen 2 after) id
      { after with depth := after.depth - 1 } :=
    ⟨⟨⟨argument, stores.stored, stores.builds.shaped stored⟩, seen.shallower⟩, seen.unlabelled,
      seen.closes⟩
  obtain ⟨last, ahead⟩ := seen.ended
  refine Yields.ite (fun _ => yields_pure closed) fun _ => ?_
  exact Yields.peekKind_bind ahead (yields_pure closed)

theorem argument_name (ahead : state.lookahead = some ⟨.identifier symbol, span⟩)
    (left : state.Left ([0x20, 0x2D] ++ decimal value))
    (mode : state.lexer.mode.isArgument = true) (shallow : state.depth < state.limits.maxDepth) :
    Succeeds (Parse.table depth) (argumentOperand .accepted) state (Stopped fun operand after =>
      operand = .identifier span (state.scopes.isLocal symbol) symbol ∧
        SignAhead .numberMinus value after ∧ state.warned.Builds 0 after) := by
  let taken : State := { state with
    depth := state.depth + 1
    lookahead := none
    previousStop := span.stop }
  have rest : taken.Left ([0x20, 0x2D] ++ decimal value) := left.alike left.idle rfl rfl rfl
  let deeper : State := { state with depth := state.depth + 1 }
  have name : Succeeds (Parse.table depth) (operand .accepted) deeper _ :=
    operand_before_sign ahead ⟨rfl, rfl⟩ fun table => peekKind_sign rest rfl mode
  refine argumentOperand_stops ahead rfl shallow (name.mono ?_)
  rintro _ after ⟨rfl, sign, looked⟩
  obtain ⟨place, seen⟩ := sign.seen
  have passed : State.Builds { state.warned with depth := state.depth + 1 } 0 taken.warned :=
    .of_same rfl rfl rfl rfl rfl
  have builds := passed.trans looked
  exact ⟨⟨rfl, ⟨sign.seen, sign.left.alike sign.left.idle rfl rfl rfl⟩, builds.shallower⟩, _, seen,
    rfl⟩

/-! ### The statement -/

theorem statement_subtracts (ahead : state.lookahead = some ⟨.identifier symbol, span⟩)
    (known : state.scopes.isLocal symbol = true)
    (left : state.Left ([0x20, 0x2D] ++ decimal value)) (mode : state.lexer.mode = .operandEnd)
    (room : state.Room 3) (shallow : state.depth < state.limits.maxDepth) :
    Succeeds (Parse.table depth) statement state (Closed fun id after =>
      Subtracts after symbol value id ∧ state.EndSeen 3 after) :=
  statement_closed ahead rfl fun _ => negation_closed ahead rfl fun _ =>
    argument_subtracts ahead known left mode room shallow

/-- Where arguments may follow the name, it is called with the number and its sign. -/
theorem statement_calls (ahead : state.lookahead = some ⟨.identifier symbol, span⟩)
    (left : state.Left ([0x20, 0x2D] ++ decimal value))
    (mode : state.lexer.mode.isArgument = true) (room : state.Room 2)
    (shallow : state.depth + 2 ≤ state.limits.maxDepth) :
    Succeeds (Parse.table depth) statement state (Closed fun id after =>
      CallsWith after symbol value id ∧ state.warned.EndSeen 2 after) := by
  refine statement_closed ahead rfl fun _ => negation_of_argument ahead rfl
    (fun _ => argument_name ahead left mode (Nat.lt_of_succ_lt shallow)) ?_
  rintro _ current ⟨⟨rfl, sign, looked⟩, -⟩
  have roomy : current.Room 2 := room.after looked.toGains
  have deep : current.depth + 2 ≤ current.limits.maxDepth := by
    rw [looked.depth, looked.limits]
    exact shallow
  obtain ⟨place, seen⟩ := sign.seen
  refine Yields.peek_bind seen ?_
  refine (descend_yields (.command (.identifier span (state.scopes.isLocal symbol) symbol) true)
    (fun _ => command_sign sign roomy deep) _).mono ?_
  rintro id after ⟨⟨calls, ended⟩, unlabelled, following⟩
  exact ⟨⟨calls, ended.since looked⟩, unlabelled, following⟩

/-! ### The name -/

abbrev NameBeforeSign (before : State) (name : VariableName) (value : Nat) : State → Prop :=
  NameAhead before name ([0x20, 0x2D] ++ decimal value) []

end Parse

/-! ### The program -/

def minusAfterBlank (name : VariableName) (value : Nat) : Bytes :=
  name.text ++ ascii " -" ++ decimal value

section

variable (name : VariableName) (value : Nat) (options : ParseOptions) (symbols : SymbolTable)

/-- Such a program is read as its statement, of which the name is the first token. -/
theorem parse_minusAfterBlank {nodes : Nat} {read : NodeId → State → Prop} (report : Report)
    (short : name.text.length ≤ options.tokenMax) (room : nodes + 1 ≤ options.maxNodes)
    (reads : ∀ depth current,
      let begun := State.start (minusAfterBlank name value) options symbols
      Parse.NameBeforeSign begun name value current →
      Parse.Succeeds (Parse.table depth) Parse.statement current (Closed fun id after =>
        read id after ∧ State.EndSeen { current with report } nodes after))
    (single : ∀ id after, read id after → ∃ shape, after.arena.Shaped id shape ∧
      ∀ others, shape ≠ .list .statements others) :
    let parsed := parse (minusAfterBlank name value) options symbols
    parsed.fatal = none ∧ parsed.report = report ∧ ∃ id state after,
      read id state ∧ state.symbols.Spells (symbols.intern name.text).1 name.text ∧
      state.Builds 1 after ∧ parsed.statements? = some [id] ∧
      parsed.arena = after.arena ∧ parsed.symbols = after.symbols := by
  let begun := State.start (minusAfterBlank name value) options symbols
  have left : begun.Left (minusAfterBlank name value) := State.start_left ..
  have sign : ascii " -" = [0x20, 0x2D] := by decide
  rw [minusAfterBlank, sign, List.append_assoc] at left
  have space : State.Room { begun with report } (nodes + 1) := by
    change 0 + (nodes + 1) ≤ options.maxNodes
    rwa [Nat.zero_add]
  have yields : ∀ depth token current, current.lookahead = some token →
      token.kind.opensOperand = true → Parse.NameBeforeSign begun name value current →
      Parse.Succeeds (Parse.table depth) Parse.statement current (Closed fun id after =>
        (read id after ∧ after.symbols.Spells (symbols.intern name.text).1 name.text) ∧
          State.EndSeen { begun with report } nodes after) := by
    intro depth _ current _ _ name
    refine (reads depth current name).mono ?_
    rintro id after ⟨⟨whole, ended⟩, unlabelled, following⟩
    have seen := ended.since (name.builds.reporting report)
    rw [Nat.zero_add] at seen
    exact ⟨⟨⟨whole, ended.builds.spells name.spelled⟩, seen⟩, unlabelled, following⟩
  obtain ⟨fatal, reported, id, middle, after, ⟨whole, spelled⟩, parts⟩ :=
    parse_statement (fun _ => Parse.peekKind_name left rfl rfl rfl short) yields space
      fun id after whole => single id after whole.1
  exact ⟨fatal, reported, id, middle, after, whole, spelled, parts⟩

/-- After a variable that is known the number is subtracted from it. -/
theorem parse_subtraction (known : (symbols.intern name.text).1 ∈ options.locals)
    (short : name.text.length ≤ options.tokenMax) (shallow : 0 < options.maxDepth)
    (room : 4 ≤ options.maxNodes) :
    let parsed := parse (minusAfterBlank name value) options symbols
    parsed.Clean ∧ ∃ id symbol left right minus, parsed.statements? = some [id] ∧
      parsed.arena.Shaped id (.call false left minus [right] none) ∧
      parsed.arena.Shaped left (.named .localVariable symbol) ∧
      parsed.arena.Shaped right (.integer value) ∧
      parsed.symbols.Spells symbol name.text ∧ parsed.symbols.Spells minus (ascii "-") := by
  let begun := State.start (minusAfterBlank name value) options symbols
  let symbol := (symbols.intern name.text).1
  have isLocal : begun.scopes.isLocal symbol = true := by
    rw [State.start_isLocal]
    exact decide_eq_true known
  have space : begun.Room 3 := State.start_room (by omega)
  have reads : ∀ depth current, Parse.NameBeforeSign begun name value current →
      Parse.Succeeds (Parse.table depth) Parse.statement current (Closed fun id after =>
        Parse.Subtracts after symbol value id ∧
          State.EndSeen { current with report := begun.report } 3 after) := by
    rintro depth current ⟨⟨span, seen⟩, -, left, -, scopes, mode, looked⟩
    have same : (begun.symbols.intern name.text).1 = symbol := rfl
    rw [same, if_pos isLocal] at mode
    have known : current.scopes.isLocal symbol = true := by
      rw [scopes]
      exact isLocal
    have deep : current.depth < current.limits.maxDepth := by
      rw [looked.depth, looked.limits]
      exact shallow
    rw [← looked.quiet]
    exact Parse.statement_subtracts seen known left mode (space.after looked.toGains) deep
  intro parsed
  obtain ⟨fatal, report, id, middle, after, ⟨left, right, minus, call, operand, number,
    subtracted⟩, spelled, builds, statements, arena, names⟩ :=
    parse_minusAfterBlank name value options symbols _ short room reads
      fun id after ⟨_, _, _, call, _⟩ => ⟨_, call, nofun⟩
  rw [arena, names]
  exact ⟨.of_quiet fatal report, id, symbol, left, right, minus, statements, builds.shaped call,
    builds.shaped operand, builds.shaped number, builds.spells spelled, builds.spells subtracted⟩

/-- Any other name is called with the number and its sign, and the sign is warned about. -/
theorem parse_signed_argument (unknown : (symbols.intern name.text).1 ∉ options.locals)
    (short : name.text.length ≤ options.tokenMax) (shallow : 2 ≤ options.maxDepth)
    (room : 3 ≤ options.maxNodes) :
    let begun := State.start (minusAfterBlank name value) options symbols
    let parsed := parse (minusAfterBlank name value) options symbols
    parsed.fatal = none ∧
      parsed.report = begun.report.add ⟨name.text.length + 1, name.text.length + 2⟩
        .ambiguousArgument ∧
      ∃ id symbol argument, parsed.statements? = some [id] ∧
        parsed.arena.Shaped id (.functionCall symbol [argument] none) ∧
        parsed.arena.Shaped argument (.integer (-value)) ∧
        parsed.symbols.Spells symbol name.text := by
  intro begun
  let symbol := (symbols.intern name.text).1
  have notLocal : begun.scopes.isLocal symbol = false := by
    rw [State.start_isLocal]
    exact decide_eq_false unknown
  have space : begun.Room 2 := State.start_room (by omega)
  have reads : ∀ depth current, Parse.NameBeforeSign begun name value current →
      Parse.Succeeds (Parse.table depth) Parse.statement current (Closed fun id after =>
        Parse.CallsWith after symbol value id ∧
          State.EndSeen { current with
            report := begun.report.add ⟨name.text.length + 1, name.text.length + 2⟩
              .ambiguousArgument } 2 after) := by
    rintro depth current ⟨⟨span, seen⟩, -, left, position, -, mode, looked⟩
    have same : (begun.symbols.intern name.text).1 = symbol := rfl
    have start : begun.input.position = 0 := rfl
    rw [start, Nat.zero_add] at position
    have argument : current.lexer.mode.isArgument = true := by
      rw [mode, same, notLocal]
      rfl
    have deep : current.depth + 2 ≤ current.limits.maxDepth := by
      rw [looked.depth, looked.limits]
      exact shallow
    rw [← looked.quiet, ← position]
    exact Parse.statement_calls seen left argument (space.after looked.toGains) deep
  intro parsed
  obtain ⟨fatal, report, id, middle, after, ⟨argument, call, number⟩, spelled, builds, statements,
    arena, names⟩ :=
    parse_minusAfterBlank name value options symbols _ short room reads
      fun id after ⟨_, call, _⟩ => ⟨_, call, nofun⟩
  rw [arena, names]
  exact ⟨fatal, report, id, symbol, argument, statements, builds.shaped call,
    builds.shaped number, builds.spells spelled⟩

end

end RubySyntax
