/-
Numbers at the end of a program.

A number without a fault is read up to the end of the program, and it is an operand that
nothing goes on with.
-/

import RubySyntax.Proofs.Reading.Statement

namespace RubySyntax

def LastNumber (before : State) (value : Int) (id : NodeId) (after : State) : Prop :=
  after.arena.Shaped id (.integer value) ∧ before.EndSeen 1 after

structure Bytes.SpellsInteger (text : Bytes) (value : Int) : Prop where
  startsDigit : ∃ digit others, text = digit :: others ∧ digit.isDigit = true
  reading : NumberReading.ofDigits text =
    { length := text.length, value := .integer value, remarks := [] }

theorem spellsInteger_decimal (value : Nat) : (decimal value).SpellsInteger value where
  startsDigit := by
    obtain ⟨digit, more, written, small, -⟩ := decimal_cons value
    have isDigit : ∀ digit < 10, (digitByte digit).isDigit = true := by decide
    exact ⟨_, more, written, isDigit digit small⟩
  reading := by
    have whole := NumberReading.ofDigits_decimal (.inl rfl) value
    rwa [List.append_nil] at whole

namespace Parse

variable {table : RuleTable} {depth : Nat} {state : State} {text : Bytes} {value : Int}
  {rule : CommandRule} {span : Span}

theorem peekToken_integer (left : state.Left text) (unseen : state.lookahead = none)
    (spells : text.SpellsInteger value) :
    Succeeds table peekToken state fun token after => after.lookahead = some token ∧
      token.kind = .integer value ∧ after.Left [] ∧ after.lexer.mode = .operandEnd ∧
        state.Builds 0 after := by
  obtain ⟨⟨digit, others, written, isDigit⟩, reading⟩ := spells
  have whole : state.Left (text ++ []) := (List.append_nil text).symm ▸ left
  have reading : NumberReading.ofDigits (text ++ []) =
      { length := text.length, value := .integer value, remarks := [] } :=
    (List.append_nil text).symm ▸ reading
  have reads : Scan.Succeeds Scan.nextToken state fun token after =>
      token.kind = .integer value ∧ after.report = state.report ∧
        state.TextRead text after ∧ after.lexer.mode = .operandEnd := by
    refine (Scan.readingToken_yields left.idle (.inl rfl) written isDigit reading whole.text).mono ?_
    rintro token _ ⟨kind, lexer, rfl, idle, mode⟩
    exact ⟨kind, rfl, .of_advance rfl idle, mode⟩
  refine (peekToken_left whole unseen reads nofun).mono ?_
  rintro token after ⟨seen, kind, last, mode, looked, -⟩
  exact ⟨seen, kind, last, mode, looked⟩

structure IntegerAhead (before : State) (value : Int) (after : State) : Prop where
  seen : ∃ span, after.lookahead = some ⟨.integer value, span⟩
  left : after.Left []
  mode : after.lexer.mode = .operandEnd
  builds : before.Builds 0 after

theorem peekKind_integer (left : state.Left text) (unseen : state.lookahead = none)
    (spells : text.SpellsInteger value) :
    Succeeds table peekKind state fun kind after => ∃ token, kind = token.kind ∧
      kind.opensOperand = true ∧ after.lookahead = some token ∧
        IntegerAhead state value after := by
  refine (peekToken_integer left unseen spells).bind ?_
  rintro ⟨_, span⟩ after ⟨seen, rfl, left, mode, looked⟩
  exact yields_pure ⟨_, rfl, rfl, seen, ⟨span, seen⟩, left, mode, looked⟩

abbrev NumberStored (before : State) (value : Int) : NodeId → State → Prop :=
  OperandStored before 1 (.integer value) [] []

theorem alloc_number {begun : State} (left : state.Left [])
    (mode : state.lexer.mode = .operandEnd) (unseen : state.lookahead = none)
    (room : begun.Room 1) (passed : begun.Builds 0 state) (span : Span) :
    Scan.Succeeds (Scan.alloc (.integer value) span) state (NumberStored begun value) :=
  (alloc_operand left mode unseen room passed _ span).mono fun _ _ stored => stored.1

theorem primary_lastNumber (left : state.Left []) (mode : state.lexer.mode = .operandEnd)
    (ahead : state.lookahead = some ⟨.integer value, span⟩) (room : state.Room 1) :
    Succeeds table primary state fun operand after =>
      ∃ id, operand = .node id ∧ NumberStored state value id after := by
  let taken : State := { state with lookahead := none, previousStop := span.stop }
  have rest : taken.Left [] := left.alike left.idle rfl rfl rfl
  have passed : state.Builds 0 taken := .of_same rfl rfl rfl rfl rfl
  refine Yields.peek_bind ahead (Yields.skip_bind ahead ?_)
  refine Yields.lift_bind (alloc_number rest mode rfl room passed span) ?_
  intro id after stored
  exact yields_pure ⟨id, rfl, stored⟩

theorem operand_last
    (yields : ∀ table, Succeeds table primary state fun operand after =>
      ∃ id, operand = .node id ∧ NumberStored state value id after) :
    Succeeds (Parse.table depth) (operand rule) state (ClosedOperand (LastNumber state value)) := by
  apply operand_closed
  intro depth
  apply chain_closed (yields _)
  intro id current number
  refine (peekKind_end number.left number.unseen number.mode).mono ?_
  rintro _ after ⟨span, rfl, seen, same, ended⟩
  exact ⟨_, rfl, seen, rfl, ended.unlabelled, same ▸ number.stored, ended.since number.builds⟩

theorem statement_lastNumber (left : state.Left []) (mode : state.lexer.mode = .operandEnd)
    (ahead : state.lookahead = some ⟨.integer value, span⟩) (room : state.Room 1)
    (shallow : state.depth < state.limits.maxDepth) :
    Succeeds (Parse.table depth) statement state (Closed (LastNumber state value)) := by
  let deeper : State := { state with depth := state.depth + 1 }
  have inner : deeper.Left [] := left.alike left.idle rfl rfl rfl
  have operand : ∀ depth, Succeeds (Parse.table depth) (operand .accepted) deeper
      (ClosedOperand (LastNumber deeper value)) :=
    fun _ => operand_last fun _ => primary_lastNumber inner mode ahead room
  refine statement_closed ahead rfl fun _ => negation_closed ahead rfl fun depth =>
    argumentOperand_closed ahead rfl shallow ((operand depth).mono ?_)
  intro operand after closed
  exact closed.mono fun id number => ⟨number.1, number.2.shallower⟩

end Parse

end RubySyntax
