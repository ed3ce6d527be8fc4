/-
The tokens of numbers joined by operators.

After a number an operator is read as one between two operands, and after an
operator comes a number, whatever the mode. Nothing else of the state changes
while such a text is read.
-/

import RubySyntax.Lexer.Token
import RubySyntax.Proofs.Precedence.Digits
import RubySyntax.Proofs.Yields

namespace RubySyntax

def Operator.kind : Operator → TokenKind
  | .power => .punct .power
  | .times => .punct .star
  | .divide => .punct .slash
  | .modulo => .punct .percent
  | .plus => .punct .plus
  | .minus => .punct .minus
  | .shiftLeft => .punct .shiftLeft
  | .shiftRight => .punct .shiftRight
  | .bitAnd => .punct .ampersand
  | .bitOr => .punct .bar
  | .bitXor => .punct .caret
  | .greater => .punct .greater
  | .greaterEqual => .punct .greaterEqual
  | .less => .punct .less
  | .lessEqual => .punct .lessEqual
  | .compare => .punct .compare
  | .equal => .punct .equal
  | .caseEqual => .punct .caseEqual
  | .notEqual => .punct .notEqual
  | .matches => .punct .matchOp
  | .notMatches => .punct .notMatch
  | .logicalAnd => .punct .logicalAnd
  | .logicalOr => .punct .logicalOr
  | .andWord => .keyword .andWord
  | .orWord => .keyword .orWord

inductive Remainder where
  | operand (value : Nat) (rest : List (Operator × Nat))
  | operator (rest : List (Operator × Nat))

namespace Remainder

def kind : Remainder → TokenKind
  | .operand value _ => .integer value
  | .operator [] => .endOfInput
  | .operator ((first, _) :: _) => first.kind

def next? : Remainder → Option Remainder
  | .operand _ rest => some (.operator rest)
  | .operator [] => none
  | .operator ((_, value) :: rest) => some (.operand value rest)

end Remainder

/-- The lexer is between two tokens and in no literal. Some brackets are open, some
heredocs wait for their bodies, some interpolations have been entered, and some constructs
lack their end. -/
structure LexerState.Between (lexer : LexerState) (nesting : Nat)
    (waiting : List PendingHeredoc) (entered : List LexerContext := [])
    (constructs : Nat := 0) : Prop where
  literal : lexer.literal = none
  heredocs : lexer.heredocs = waiting
  due : lexer.heredocsDue = false
  contexts : lexer.contexts = entered
  brackets : lexer.brackets = nesting
  constructs : lexer.openConstructs = constructs
  running : lexer.ended = false
  unmarked : lexer.variablePending = false

abbrev LexerState.Idle (lexer : LexerState) : Prop :=
  lexer.Between 0 []

theorem LexerState.Between.change {lexer : LexerState} {nesting : Nat}
    {waiting : List PendingHeredoc} {entered : List LexerContext} {constructs : Nat}
    (between : lexer.Between nesting waiting entered constructs) {mode : Mode}
    {statementStart afterArrow : Bool} {commandFlags : BitStack} :
    LexerState.Between { lexer with mode, statementStart, afterArrow, commandFlags } nesting
      waiting entered constructs :=
  ⟨between.literal, between.heredocs, between.due, between.contexts, between.brackets,
    between.constructs, between.running, between.unmarked⟩

def State.Unread (state : State) (left : Remainder) : Prop :=
  state.lexer.Idle ∧
    match left with
    | .operand value rest =>
        state.input.rest = decimal value ++ operatorText rest ∨
          state.input.rest = 0x20 :: decimal value ++ operatorText rest
    | .operator rest =>
        state.lexer.mode = .operandEnd ∧ state.input.rest = operatorText rest

def State.Reading (before after : State) : Prop :=
  ∃ input lexer, after = { before with input, lexer }

def Byte.startsToken (byte : Byte) : Bool :=
  !byte.isBlank && byte.char != '#' && byte.char != '\\' && !Scan.isEndMark byte &&
    byte.char != '\n'

theorem Byte.forall_of_lt {holds : Byte → Prop}
    (each : ∀ value < 256, holds (UInt8.ofNat value)) (byte : Byte) : holds byte := by
  have here := each byte.toNat byte.toNat_lt
  rwa [UInt8.ofNat_toNat] at here

theorem Byte.startsToken_of_isDigit (byte : Byte) :
    byte.isDigit = true → byte.startsToken = true ∧ (byte.char == '=') = false ∧
      byte.isNameStart = false := by
  revert byte
  exact Byte.forall_of_lt (by decide +kernel)

theorem Space.length_solid {byte : Byte} (solid : byte.startsToken = true) (more : Bytes) :
    Space.length (byte :: more) = 0 := by
  simp only [Byte.startsToken, Bool.and_eq_true, Bool.not_eq_true', bne_iff_ne] at solid
  obtain ⟨⟨⟨⟨blank, hash⟩, escape⟩, -⟩, -⟩ := solid
  unfold length lengthFrom
  simp only [Bool.false_eq_true, if_false, blank]

theorem Byte.char_of_isBlank (byte : Byte) :
    byte.isBlank = true → byte.char ≠ '#' ∧ byte.char ≠ '\\' := by
  revert byte
  exact Byte.forall_of_lt (by decide +kernel)

theorem Space.length_cons_blank {byte : Byte} (blank : byte.isBlank = true) (more : Bytes) :
    Space.length (byte :: more) = 1 + Space.length more := by
  obtain ⟨noComment, noEscape⟩ := Byte.char_of_isBlank byte blank
  change lengthFrom false (byte :: more) = 1 + length more
  unfold lengthFrom
  simp only [Bool.false_eq_true, if_false, blank, if_true]
  rfl

theorem Space.length_blanks {blanks : Bytes} {byte : Byte}
    (blank : ∀ each ∈ blanks, each.isBlank = true) (solid : byte.startsToken = true)
    (more : Bytes) : Space.length (blanks ++ byte :: more) = blanks.length := by
  induction blanks with
  | nil => exact length_solid solid more
  | cons first others ih =>
      obtain ⟨isBlank, blank⟩ := List.forall_mem_cons.mp blank
      rw [List.cons_append, length_cons_blank isBlank, ih blank, List.length_cons, Nat.add_comm]

theorem Space.length_blank {byte : Byte} (solid : byte.startsToken = true) (more : Bytes) :
    Space.length (0x20 :: byte :: more) = 1 := by
  change 1 + Space.length (byte :: more) = 1
  rw [length_solid solid]

namespace Scan

variable {state : State} {nesting : Nat} {waiting : List PendingHeredoc}
  {entered : List LexerContext} {constructs : Nat} {post : Token → State → Prop}
  {excused : Fatal → State → Prop}

theorem tokenTurn_spaced {before : Surroundings} {space : Bytes} {byte : Byte} {more : Bytes}
    {post : Turn Bool Token → State → Prop}
    (between : state.lexer.Between nesting waiting entered constructs)
    (spaced : Space.length (space ++ byte :: more) = space.length)
    (solid : byte.startsToken = true) (rest : state.input.rest = space ++ byte :: more)
    (yields : Yields
      (tokenHere { before with blank := before.blank || decide (space.length > 0) })
      { state with input := state.input.advance space.length } post excused) :
    Yields (tokenTurn before) state post excused := by
  refine Yields.get_bind ?_
  rw [rest, spaced]
  refine Yields.advance_bind (Yields.get_bind ?_)
  have after : (state.input.advance space.length).rest = byte :: more := by
    rw [Input.advance, rest, List.drop_left]
  simp only [Byte.startsToken, Bool.and_eq_true, Bool.not_eq_true', bne_iff_ne] at solid
  obtain ⟨⟨-, goes⟩, line⟩ := solid
  have notEnd : isEndMark (state.input.advance space.length).peekByte = false := by
    rw [Input.peekByte, after]
    exact goes
  have notLine : ((state.input.advance space.length).peek == '\n') = false := by
    rw [Input.peek, after]
    exact beq_false_of_ne line
  simp only [between.running, notEnd, notLine, Bool.false_eq_true, if_false]
  exact yields

theorem tokenTurn_yields {before : Surroundings} {blank : Bytes} {byte : Byte} {more : Bytes}
    {post : Turn Bool Token → State → Prop}
    (between : state.lexer.Between nesting waiting entered constructs)
    (blanks : blank = [] ∨ blank = [0x20]) (solid : byte.startsToken = true)
    (rest : state.input.rest = blank ++ byte :: more)
    (yields : Yields
      (tokenHere { before with blank := before.blank || decide (blank.length > 0) })
      { state with input := state.input.advance blank.length } post excused) :
    Yields (tokenTurn before) state post excused := by
  refine tokenTurn_spaced between ?_ solid rest yields
  rcases blanks with rfl | rfl
  · exact Space.length_solid solid more
  · exact Space.length_blank solid more

/-- Reading a token outside of literals takes turns until one is found; here it is found
at once. -/
theorem nextToken_yields (between : state.lexer.Between nesting waiting entered constructs)
    (yields : Yields (tokenTurn
        { mode := state.lexer.mode
          statementStart := state.lexer.statementStart
          afterArrow := state.lexer.afterArrow
          blank := false })
      { state with lexer := { state.lexer with statementStart := false, afterArrow := false } }
      (fun result after => ∃ token, result = .done token ∧ post token after) excused) :
    Yields nextToken state post excused := by
  refine Yields.get_bind ?_
  simp only [between.literal, between.due, Bool.false_eq_true, if_false]
  refine Yields.setLexer_bind (repeatUntil_yields
    (fun blank current => blank = false ∧ current = { state with lexer :=
      { state.lexer with statementStart := false, afterArrow := false } }) _ ⟨rfl, rfl⟩ ?_)
  rintro blank current ⟨rfl, rfl⟩
  refine yields.mono ?_
  rintro result after ⟨token, rfl, holds⟩
  exact holds

theorem number_yields {start : Nat} {length : Nat} {value : TokenKind}
    (holds : post ⟨value, ⟨start, state.input.position + length⟩⟩
      { state with
        input := state.input.advance length
        lexer := { state.lexer with mode := .operandEnd } }) :
    Yields (number start { length, value, remarks := [] }) state post excused := by
  refine Yields.position_bind (Yields.checkRange_bind (Yields.advance_bind ?_))
  exact Yields.position_bind (Yields.checkRange_bind holds)

theorem digitToken_yields {blank text : Bytes} {digit : Byte} {others : Bytes}
    (between : state.lexer.Between nesting waiting entered constructs)
    (blanks : blank = [] ∨ blank = [0x20]) (written : text = digit :: others)
    (isDigit : digit.isDigit = true) (here : state.input.rest = blank ++ text)
    (yields : Yields
      (number (state.input.position + blank.length) (NumberReading.ofDigits text))
      { state with
        input := state.input.advance blank.length
        lexer := { state.lexer with statementStart := false, afterArrow := false } }
      post excused) :
    Yields nextToken state post excused := by
  obtain ⟨solid, notEquals, notName⟩ := Byte.startsToken_of_isDigit digit isDigit
  subst written
  have left : (state.input.advance blank.length).rest = digit :: others := by
    rw [Input.advance, here, List.drop_left]
  refine nextToken_yields between (tokenTurn_yields between.change blanks
    solid here (Yields.get_bind (Yields.checkRange_bind ?_)))
  have first : (state.input.advance blank.length).peekByte = digit := by
    rw [Input.peekByte, left]
    rfl
  have notMark : ((state.input.advance blank.length).peek == '=') = false := by
    rw [Input.peek, left]
    exact notEquals
  simp only [first, notMark, notName, isDigit, left, Bool.false_and, Bool.false_eq_true,
    if_false, if_true]
  exact Yields.bind yields fun token after holds => yields_pure ⟨token, rfl, holds⟩

theorem letterToken_yields {blank : Bytes} {first : Byte} {more : Bytes}
    (between : state.lexer.Between nesting waiting entered constructs)
    (blanks : blank = [] ∨ blank = [0x20]) (solid : first.startsToken = true)
    (notEquals : (first.char == '=') = false) (starts : first.isNameStart = true)
    (low : first < 0x80) (here : state.input.rest = blank ++ first :: more)
    (yields : Yields (name state.lexer.statementStart)
      { state with
        input := state.input.advance blank.length
        lexer := { state.lexer with statementStart := false, afterArrow := false } }
      post excused) :
    Yields nextToken state post excused := by
  have left : (state.input.advance blank.length).rest = first :: more := by
    rw [Input.advance, here, List.drop_left]
  refine nextToken_yields between (tokenTurn_yields between.change blanks
    solid here (Yields.get_bind (Yields.checkRange_bind ?_)))
  have byte : (state.input.advance blank.length).peekByte = first := by
    rw [Input.peekByte, left]
    rfl
  have notMark : ((state.input.advance blank.length).peek == '=') = false := by
    rw [Input.peek, left]
    exact notEquals
  simp only [byte, notMark, starts, Bool.false_and, Bool.false_eq_true, if_false, if_true,
    ge_iff_le, decide_eq_false (UInt8.not_le.mpr low)]
  exact Yields.bind yields fun token after holds => yields_pure ⟨token, rfl, holds⟩

theorem readingToken_yields {kind : TokenKind} {blank text tail : Bytes} {digit : Byte}
    {others : Bytes} (between : state.lexer.Between nesting waiting entered constructs)
    (blanks : blank = [] ∨ blank = [0x20]) (written : text = digit :: others)
    (isDigit : digit.isDigit = true)
    (reading : NumberReading.ofDigits (text ++ tail) =
      { length := text.length, value := kind, remarks := [] })
    (here : state.input.rest = blank ++ (text ++ tail)) :
    Yields nextToken state (fun token after => token.kind = kind ∧
      ∃ lexer, after = { state with
          input := (state.input.advance blank.length).advance text.length
          lexer } ∧ lexer.Between nesting waiting entered constructs ∧
        lexer.mode = .operandEnd) excused := by
  have whole : text ++ tail = digit :: (others ++ tail) := by
    rw [written, List.cons_append]
  refine digitToken_yields between blanks whole isDigit here ?_
  rw [reading]
  exact number_yields ⟨rfl, _, rfl, between.change, rfl⟩

theorem integerToken_yields {value : Nat} {blank tail : Bytes}
    (between : state.lexer.Between nesting waiting entered constructs)
    (blanks : blank = [] ∨ blank = [0x20]) (ended : Ended tail)
    (text : state.input.rest = blank ++ (decimal value ++ tail)) :
    Yields nextToken state (fun token after => token.kind = .integer value ∧
      ∃ lexer, after = { state with
          input := (state.input.advance blank.length).advance (decimal value).length
          lexer } ∧ lexer.Between nesting waiting entered constructs ∧
        lexer.mode = .operandEnd) excused := by
  obtain ⟨digit, more, written, small, -⟩ := decimal_cons value
  have isDigit : ∀ digit < 10, (digitByte digit).isDigit = true := by decide
  exact readingToken_yields between blanks written (isDigit digit small)
    (NumberReading.ofDigits_decimal ended value) text

theorem numberToken_yields {value : Nat} {rest : List (Operator × Nat)}
    (unread : state.Unread (.operand value rest)) :
    Yields nextToken state fun token after =>
      token.kind = .integer value ∧ state.Reading after ∧ after.Unread (.operator rest) := by
  obtain ⟨idle, text⟩ := unread
  obtain ⟨blank, blanks, text⟩ : ∃ blank, (blank = [] ∨ blank = [0x20]) ∧
      state.input.rest = blank ++ (decimal value ++ operatorText rest) := by
    rcases text with text | text
    · exact ⟨[], .inl rfl, text⟩
    · exact ⟨[0x20], .inr rfl, text⟩
  refine (integerToken_yields idle blanks (operatorText_ended rest) text).mono ?_
  rintro token _ ⟨kind, lexer, rfl, idle, mode⟩
  refine ⟨kind, ⟨_, _, rfl⟩, idle, mode, ?_⟩
  change (state.input.rest.drop blank.length).drop (decimal value).length = _
  rw [text, List.drop_left, List.drop_left]

/-! ### Operators -/

/-- After an operand a mark is what the operator is read as, and opens nothing. -/
theorem operatorMark_yields {before : Surroundings} {first : Char} {reading : OperatorReading}
    (mode : before.mode = .operandEnd) (notSign : (reading.kind == .mark .unaryPlus) = false)
    (notArrow : (reading.kind == .mark .arrow) = false)
    (alone : first ≠ '.' ∧ first ≠ ':' ∧ first ≠ '?')
    (yields : Yields (operator reading) state post) :
    Yields (operatorMark before first reading) state post := by
  have literalMark_yields (literal : Nat → Scan Token) :
      Yields (literalMark before reading literal) state post := by
    refine Yields.get_bind ?_
    simp only [mode, Mode.isBegin, Mode.prefersUnary, Mode.isArgument, Bool.false_and,
      Bool.or_false, Bool.and_false, Bool.false_eq_true, if_false]
    exact yields
  unfold operatorMark
  split
  · refine Yields.get_bind ?_
    simp only [notSign, Bool.false_and, Bool.false_eq_true, if_false]
    exact yields
  · unfold minusMark
    simp only [notArrow, Bool.false_eq_true, if_false]
    exact yields
  · exact absurd rfl alone.1
  · refine Yields.get_bind ?_
    have noHeredoc : before.mode.allowsHeredoc before.blank = false := by
      rw [mode]
      rfl
    have noClass : (before.mode == .className) = false := by
      rw [mode]
      rfl
    simp only [noHeredoc, noClass, Bool.and_false, Bool.false_eq_true, if_false]
    exact yields
  · exact literalMark_yields _
  · exact literalMark_yields _
  · exact absurd rfl alone.2.1
  · exact absurd rfl alone.2.2
  · exact yields

theorem reading_of_operator {operator : Operator} {mark : Punct}
    (isMark : operator.kind = .punct mark) (before : Surroundings)
    (mode : before.mode = .operandEnd) (more : Bytes) :
    ∃ byte tail, operator.written = byte :: tail ∧ byte.startsToken = true ∧
      byte.isNameStart = false ∧ byte.isDigit = false ∧
      (byte.char ≠ '.' ∧ byte.char ≠ ':' ∧ byte.char ≠ '?') ∧
      (mark ≠ .unaryPlus ∧ mark ≠ .arrow) ∧
      Space.startsWithWord (ascii "=begin") (byte :: (tail ++ 0x20 :: more)) = false ∧
      OperatorReading.of? before byte.char (tail ++ 0x20 :: more) =
        some (OperatorReading.plain mark operator.written.length .begin) := by
  obtain ⟨_, statementStart, afterArrow, blank⟩ := before
  subst mode
  cases operator <;> cases isMark <;>
    exact ⟨_, _, rfl, rfl, rfl, rfl, by decide, by decide, rfl, rfl⟩

theorem operatorToken_yields {operator : Operator} {value : Nat} {rest : List (Operator × Nat)}
    {byte : Byte} {tail : Bytes} (unread : state.Unread (.operator ((operator, value) :: rest)))
    (written : operator.written = byte :: tail) (solid : byte.startsToken = true)
    (yields : (state.input.advance 1).rest =
        byte :: (tail ++ 0x20 :: (decimal value ++ operatorText rest)) →
      Yields
        (tokenHere ⟨state.lexer.mode, state.lexer.statementStart, state.lexer.afterArrow, true⟩)
        { state with
          input := state.input.advance 1
          lexer := { state.lexer with statementStart := false, afterArrow := false } }
        fun result after => ∃ token, result = .done token ∧ post token after) :
    Yields nextToken state post := by
  obtain ⟨idle, mode, text⟩ := unread
  have start : state.input.rest =
      [0x20] ++ byte :: (tail ++ 0x20 :: (decimal value ++ operatorText rest)) := by
    rw [text]
    change 0x20 :: operator.written ++ 0x20 :: decimal value ++ operatorText rest = _
    rw [written]
    simp
  refine nextToken_yields idle (tokenTurn_yields idle.change (.inr rfl) solid start (yields ?_))
  rw [Input.advance, start]
  rfl

theorem mark_yields {mark : Punct} {length : Nat}
    (holds : post ⟨.punct mark, ⟨state.input.position, state.input.position + length⟩⟩
      { state with
        input := state.input.advance length
        lexer := { state.lexer with mode := .begin } }) :
    Yields (operator (OperatorReading.plain mark length .begin)) state post excused :=
  Yields.position_bind (Yields.advance_bind holds)

/-- A byte that starts no name and no number starts a mark. -/
theorem tokenHere_yields {before : Surroundings} {byte : Byte} {more : Bytes}
    (here : state.input.rest = byte :: more) (notName : byte.isNameStart = false)
    (notDigit : byte.isDigit = false)
    (notDocument : Space.startsWithWord (ascii "=begin") (byte :: more) = false)
    (yields : Yields (mark? before) state (fun token? after =>
      ∃ token, token? = some token ∧ post token after) excused) :
    Yields (tokenHere before) state
      (fun result after => ∃ token, result = .done token ∧ post token after) excused := by
  have first : state.input.peekByte = byte := by
    rw [Input.peekByte, here]
    rfl
  refine Yields.get_bind (Yields.checkRange_bind ?_)
  simp only [first, notName, notDigit, here, notDocument, Bool.and_false, Bool.false_eq_true,
    if_false]
  refine yields.bind ?_
  rintro _ after ⟨token, rfl, holds⟩
  exact yields_pure ⟨token, rfl, holds⟩

theorem tokenHere_mark_yields {before : Surroundings} {byte : Byte} {more : Bytes}
    {reading : OperatorReading} (here : state.input.rest = byte :: more)
    (notName : byte.isNameStart = false) (notDigit : byte.isDigit = false)
    (notDocument : Space.startsWithWord (ascii "=begin") (byte :: more) = false)
    (read : OperatorReading.of? before byte.char more = some reading)
    (yields : Yields (operatorMark before byte.char reading) state post excused) :
    Yields (tokenHere before) state
      (fun result after => ∃ token, result = .done token ∧ post token after) excused := by
  have peek : state.input.peek = byte.char := by
    rw [Input.peek, here]
    rfl
  refine tokenHere_yields here notName notDigit notDocument (Yields.get_bind ?_)
  simp only [peek, here, List.drop_succ_cons, List.drop_zero, read]
  exact yields.bind fun token after holds => yields_pure ⟨token, rfl, holds⟩

theorem markToken_yields {operator : Operator} {mark : Punct} {value : Nat}
    {rest : List (Operator × Nat)} (isMark : operator.kind = .punct mark)
    (unread : state.Unread (.operator ((operator, value) :: rest))) :
    Yields nextToken state fun token after =>
      token.kind = operator.kind ∧ state.Reading after ∧
        after.Unread (.operand value rest) := by
  have ⟨idle, mode, _⟩ := unread
  let before : Surroundings :=
    ⟨state.lexer.mode, state.lexer.statementStart, state.lexer.afterArrow, true⟩
  obtain ⟨byte, tail, written, solid, notName, notDigit, alone, plain, notDocument, reading⟩ :=
    reading_of_operator isMark before mode (decimal value ++ operatorText rest)
  refine operatorToken_yields unread written solid fun here =>
    tokenHere_mark_yields here notName notDigit notDocument reading ?_
  refine operatorMark_yields mode (beq_false_of_ne fun same => plain.1 ?_)
    (beq_false_of_ne fun same => plain.2 ?_) alone (mark_yields ?_)
  · exact OperatorKind.mark.inj same
  · exact OperatorKind.mark.inj same
  · refine ⟨isMark.symm, ⟨_, _, rfl⟩, idle.change, .inr ?_⟩
    change (state.input.advance 1).rest.drop operator.written.length = _
    rw [here, written]
    simp

theorem word_of_operator {operator : Operator} {word : Keyword}
    (isWord : operator.kind = .keyword word) (more : Bytes) :
    ∃ byte tail, operator.written = byte :: tail ∧ byte.startsToken = true ∧
      byte.isNameStart = true ∧ decide (byte ≥ 0x80) = false ∧ (byte.char == '=') = false ∧
      Utf8.nameLength (operator.written ++ 0x20 :: more) = operator.written.length ∧
      (operator.written == Keyword.endMarker) = false ∧
      Keyword.ofName? operator.written = some word ∧ word.modeAfter = .value ∧
      word.modifier = word ∧ (word == .doWord) = false := by
  cases operator <;> cases isWord <;>
    exact ⟨_, _, rfl, rfl, rfl, by decide, rfl, rfl, by decide, by decide, rfl, rfl, by decide⟩

theorem keyword_yields {word : Keyword} {start : Nat} (mode : word.modeAfter = .value)
    (unmodified : word.modifier = word) (notDo : (word == .doWord) = false)
    (holds : post ⟨.keyword word, ⟨start, state.input.position⟩⟩
      { state with lexer := { state.lexer with mode := .value } }) :
    Yields (keyword word .operandEnd start) state post := by
  unfold keyword
  simp only [mode, notDo, unmodified, bne_self_eq_false, Mode.prefersModifier,
    show (Mode.operandEnd == .methodName) = false from rfl,
    show (Mode.value == .begin) = false from rfl, Bool.false_eq_true, if_false, if_true]
  exact holds

theorem name_yields {statementStart : Bool} {word : Keyword} {written more : Bytes}
    (mode : state.lexer.mode = .operandEnd) (rest : state.input.rest = written ++ 0x20 :: more)
    (length : Utf8.nameLength (written ++ 0x20 :: more) = written.length)
    (notEnd : (written == Keyword.endMarker) = false)
    (found : Keyword.ofName? written = some word)
    (yields : Yields (keyword word .operandEnd state.input.position)
      { state with input := state.input.advance written.length } post) :
    Yields (name statementStart) state post := by
  have noSuffix : suffixLength .operandEnd (0x20 :: more) = 0 := rfl
  have noLabel : Mode.allowsLabel .operandEnd statementStart = false := rfl
  refine Yields.get_bind ?_
  simp only [mode, rest, length, List.drop_left, noSuffix, Nat.add_zero, List.take_left]
  refine Yields.set_bind (Yields.checkRange_bind (Yields.checkRange_bind ?_))
  simp only [noLabel, isEndLine, notEnd, found, show (Mode.operandEnd == .dot) = false from rfl,
    Bool.false_and, Bool.and_false, Bool.false_eq_true, if_false]
  exact yields

theorem wordToken_yields {operator : Operator} {word : Keyword} {value : Nat}
    {rest : List (Operator × Nat)} (isWord : operator.kind = .keyword word)
    (unread : state.Unread (.operator ((operator, value) :: rest))) :
    Yields nextToken state fun token after =>
      token.kind = operator.kind ∧ state.Reading after ∧
        after.Unread (.operand value rest) := by
  have ⟨idle, mode, _⟩ := unread
  obtain ⟨byte, tail, written, solid, isName, isAscii, notEquals, length, notEnd, found,
    modeAfter, unmodified, notDo⟩ := word_of_operator isWord (decimal value ++ operatorText rest)
  refine operatorToken_yields unread written solid fun here =>
    Yields.get_bind (Yields.checkRange_bind ?_)
  have first : (state.input.advance 1).peekByte = byte := by
    rw [Input.peekByte, here]
    rfl
  have notMark : ((state.input.advance 1).peek == '=') = false := by
    rw [Input.peek, here]
    exact notEquals
  rw [← List.cons_append, ← written] at here
  simp only [first, notMark, isName, isAscii, Bool.false_and, Bool.false_eq_true, if_false,
    if_true]
  refine Yields.bind ?_ fun token after holds => yields_pure ⟨token, rfl, holds⟩
  refine name_yields mode here length notEnd found
    (keyword_yields modeAfter unmodified notDo ?_)
  refine ⟨isWord.symm, ⟨_, _, rfl⟩, idle.change, .inr ?_⟩
  change (state.input.advance 1).rest.drop operator.written.length = _
  rw [here, List.drop_left]
  rfl

/-- Where no operand is missing the input may end, and no more is asked for. -/
theorem endTurn_yields {before : Surroundings} (idle : state.lexer.Idle)
    (satisfied : state.lexer.mode.isBegin = false ∧ state.lexer.mode.namesMethod = false ∨
      before.statementStart = true)
    (none : state.input.rest = []) :
    Yields (tokenTurn before) state (fun result after =>
      ∃ token, result = .done token ∧ token.kind = .endOfInput ∧
        ∃ lexer, after = { state with lexer }) excused := by
  have noSpace : Space.length state.input.rest = 0 := by
    rw [none]
    rfl
  have ended : isEndMark (state.input.advance 0).peekByte = true := by
    rw [Input.peekByte, Input.advance, none]
    rfl
  have atEnd : (state.input.advance 0).atEnd = true := by
    rw [Input.atEnd, Input.advance, none]
    rfl
  have satisfied : state.lexer.wantsMore before.statementStart = false := by
    simp only [LexerState.wantsMore, idle.literal, idle.contexts, idle.brackets,
      idle.constructs, idle.heredocs]
    rcases satisfied with ⟨begins, names⟩ | starts
    · simp [begins, names]
    · simp [starts]
  refine Yields.get_bind ?_
  rw [noSpace]
  refine Yields.advance_bind (Yields.get_bind ?_)
  simp only [idle.running, ended, atEnd, satisfied, Bool.false_eq_true, if_false, if_true]
  refine Yields.bind (Yields.get_bind ?_) fun token after holds => yields_pure ⟨token, rfl, holds⟩
  simp only [idle.contexts, idle.heredocs, List.isEmpty_nil, Bool.not_true, Bool.false_eq_true,
    if_false]
  exact ⟨rfl, _, rfl⟩

theorem endToken_yields (idle : state.lexer.Idle)
    (satisfied : state.lexer.mode.isBegin = false ∧ state.lexer.mode.namesMethod = false ∨
      state.lexer.statementStart = true)
    (none : state.input.rest = []) :
    Yields nextToken state (fun token after =>
      token.kind = .endOfInput ∧ ∃ lexer, after = { state with lexer }) excused := by
  refine nextToken_yields idle (Yields.mono (endTurn_yields ?_ ?_ ?_) ?_)
  · exact idle.change
  · exact satisfied
  · exact none
  · rintro _ _ ⟨token, rfl, kind, _, rfl⟩
    exact ⟨token, rfl, kind, _, rfl⟩

theorem expressionToken_yields {left : Remainder} (unread : state.Unread left) :
    Yields nextToken state fun token after =>
      token.kind = left.kind ∧ state.Reading after ∧ ∀ later ∈ left.next?, after.Unread later := by
  cases left with
  | operand value rest =>
      refine (numberToken_yields unread).mono fun token after holds => ?_
      exact ⟨holds.1, holds.2.1, fun later same => Option.mem_some.mp same ▸ holds.2.2⟩
  | operator rest =>
      cases rest with
      | nil =>
          obtain ⟨idle, mode, none⟩ := unread
          refine (endToken_yields idle (.inl (mode ▸ ⟨rfl, rfl⟩)) none).mono fun token after holds => ?_
          exact ⟨holds.1, ⟨_, holds.2⟩, nofun⟩
      | cons first rest =>
          obtain ⟨first, value⟩ := first
          have read : Yields nextToken state fun token after =>
              token.kind = first.kind ∧ state.Reading after ∧
                after.Unread (.operand value rest) := by
            cases kind : first.kind with
            | punct mark => exact kind ▸ markToken_yields kind unread
            | keyword word => exact kind ▸ wordToken_yields kind unread
            | _ => cases first <;> cases kind
          refine read.mono fun token after holds => ?_
          exact ⟨holds.1, holds.2.1, fun later same => Option.mem_some.mp same ▸ holds.2.2⟩

end Scan

end RubySyntax
