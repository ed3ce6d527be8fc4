/-
Tokens read off a text in the middle of nothing.

Each kind of token has a lemma that says what is left of the text and which mode
the lexer is in. Names are kept up to the limit on their length, and one that is
longer is reported with a warning.
-/

import RubySyntax.Proofs.Lexer.Basic
import RubySyntax.Proofs.Precedence.Step

namespace RubySyntax

/-! ### Names as they are written -/

/-- Whether a text spells a variable: a word of ASCII letters, digits and
underscores that starts with a small letter or an underscore and is not
reserved. -/
def spellsVariable (text : Bytes) : Bool :=
  text.all (fun byte => byte.isNamePart && decide (byte < 0x80)) &&
    (text.head?.any fun first => first.isNameStart && !first.isUpper) &&
    (Keyword.ofName? text).isNone

structure VariableName where
  text : Bytes
  spells : spellsVariable text = true
deriving DecidableEq

namespace VariableName

theorem first (name : VariableName) :
    ∃ first rest, name.text = first :: rest ∧ first.isNameStart = true ∧
      first.isUpper = false := by
  obtain ⟨text, spells⟩ := name
  cases text with
  | nil => simp [spellsVariable] at spells
  | cons first rest =>
      simp only [spellsVariable, List.head?_cons, Option.any_some, Bool.and_eq_true,
        Bool.not_eq_true'] at spells
      exact ⟨first, rest, rfl, spells.1.2⟩

theorem ascii (name : VariableName) :
    ∀ byte ∈ name.text, byte.isNamePart = true ∧ byte < 0x80 := by
  have spells := name.spells
  simp only [spellsVariable, Bool.and_eq_true, List.all_eq_true, decide_eq_true_eq] at spells
  exact spells.1.1

theorem not_reserved (name : VariableName) : Keyword.ofName? name.text = none := by
  have spells := name.spells
  simp only [spellsVariable, Bool.and_eq_true, Option.isNone_iff_eq_none] at spells
  exact spells.2

end VariableName

theorem intercalate_cons_eq_flatMap {α : Type} (separator first : List α) (more : List (List α)) :
    separator.intercalate (first :: more) = first ++ more.flatMap fun part => separator ++ part := by
  induction more generalizing first with
  | nil => simp
  | cons second more ih =>
      rw [List.intercalate_cons_cons, ih, List.flatMap_cons]
      simp

theorem Byte.char_injective : Function.Injective Byte.char := by
  intro first second same
  have codes : first.toUInt32 = second.toUInt32 := congrArg Char.val same
  simpa using congrArg UInt32.toUInt8 codes

theorem Byte.startsToken_of_isNameStart (byte : Byte) :
    byte.isNameStart = true → byte < 0x80 →
      byte.startsToken = true ∧ (byte.char == '=') = false ∧
        (byte.char == '.') = false ∧ (byte.char == '&') = false := by
  revert byte
  exact Byte.forall_of_lt (by decide +kernel)

/-- A line does not go on with the one before it unless it starts with a dot. -/
theorem Space.continuation?_eq_none {byte : Byte} (solid : byte.startsToken = true)
    (noDot : (byte.char == '.') = false) (noSafeDot : (byte.char == '&') = false)
    (more : Bytes) : continuation? (byte :: more) = none := by
  simp only [Byte.startsToken, Bool.and_eq_true, Bool.not_eq_true', bne_iff_ne] at solid
  obtain ⟨⟨⟨⟨blank, hash⟩, -⟩, -⟩, -⟩ := solid
  have skipped : commentLinesFrom false (byte :: more) = 0 := by
    rw [commentLinesFrom, beq_false_of_ne hash, blank]
    rfl
  have dotless : startsWithDot (byte :: more) = false := by
    cases more with
    | nil => exact noDot
    | cons second more => simp only [startsWithDot, noDot, noSafeDot, Bool.false_and, Bool.or_self]
  unfold continuation?
  rw [skipped]
  dsimp only
  rw [List.drop_zero, dotless]
  rfl

def Byte.endsName (byte : Byte) : Bool :=
  byte == 0x20 || byte == 0x28 || byte == 0x29 || byte == 0x2C || byte == 0x7D

theorem Byte.endsName_cases {byte : Byte} (ends : byte.endsName = true) :
    byte = 0x20 ∨ byte = 0x28 ∨ byte = 0x29 ∨ byte = 0x2C ∨ byte = 0x7D := by
  simpa only [endsName, Bool.or_eq_true, beq_iff_eq, or_assoc] using ends

/-- A row of ASCII name bytes is a name as long as the row. -/
theorem Utf8.nameLength_before {text rest : Bytes} (stops : Utf8.nameLength rest = 0)
    (ascii : ∀ byte ∈ text, byte.isNamePart = true ∧ byte < 0x80) :
    Utf8.nameLength (text ++ rest) = text.length := by
  unfold Utf8.nameLength at stops ⊢
  induction text with
  | nil => exact stops
  | cons byte text ih =>
      obtain ⟨part, low⟩ := ascii byte List.mem_cons_self
      rw [List.cons_append, Utf8.nameLengthFrom, if_pos low, if_pos part,
        ih fun other member => ascii other (List.mem_cons_of_mem _ member), List.length_cons,
        Nat.add_comm]

/-- What may come after a name: a byte that ends it, or the end of the input, unless it is
the name that ends a program. -/
def VariableName.EndsAt (name : VariableName) : Bytes → Prop
  | [] => name.text ≠ Keyword.endMarker
  | stop :: _ => stop.endsName = true

/-- There the name is as long as it is written, and is neither a label nor the end of the
program. -/
theorem VariableName.EndsAt.stops {name : VariableName} {rest : Bytes} (ends : name.EndsAt rest) :
    Utf8.nameLength (name.text ++ rest) = name.text.length ∧
      ((rest.headD 0).char == ':') = false ∧ (∀ mode, Scan.suffixLength mode rest = 0) ∧
      ∀ before after, after.rest = rest → Scan.isEndLine before after name.text = false := by
  cases rest with
  | nil =>
      refine ⟨Utf8.nameLength_before rfl name.ascii, rfl, fun _ => rfl, ?_⟩
      intro before after _
      rw [Scan.isEndLine, beq_false_of_ne ends, Bool.false_and, Bool.false_and]
  | cons stop more =>
      have line : ∀ before after : Input, after.rest = stop :: more →
          Scan.isEndLine before after name.text = false := by
        intro before after rest
        rw [Scan.isEndLine, Input.atLineEnd, rest]
        rcases Byte.endsName_cases ends with rfl | rfl | rfl | rfl | rfl <;>
          exact Bool.and_false _
      rcases Byte.endsName_cases ends with rfl | rfl | rfl | rfl | rfl <;>
        exact ⟨Utf8.nameLength_before rfl name.ascii, rfl, fun _ => rfl, line⟩

theorem Input.Sound.slice_text {input : Input} (sound : input.Sound) {text more : Bytes}
    (rest : input.rest = text ++ more) :
    (input.advance text.length).slice ⟨input.position, input.position + text.length⟩ = text := by
  have length := congrArg List.length rest
  rw [sound.size, List.length_append] at length
  have extracted : (input.bytes.extract input.position (input.position + text.length)).toList =
      text := by
    rw [Array.toList_extract, List.extract_eq_take_drop, ← sound.rest, rest,
      Nat.add_sub_cancel_left, List.take_left]
  unfold Input.slice
  split
  · exact extracted
  · next outside =>
      by_cases empty : text = []
      · exact empty.symm
      · have positive := List.length_pos_iff.mpr empty
        refine absurd ?_ outside
        change decide (input.position ≤ input.position + text.length) &&
          decide (input.position + text.length ≤ input.bytes.size)
        simp only [Bool.and_eq_true, decide_eq_true_eq]
        omega

theorem Input.advance_advance (input : Input) (first second : Nat) :
    (input.advance first).advance second = input.advance (first + second) := by
  simp [Input.advance, Nat.add_assoc]

structure SymbolTable.Spells (table : SymbolTable) (symbol : Symbol) (name : Bytes) : Prop where
  known : symbol.index < table.size
  name : table.name symbol = name

structure State.TokenRead (before : State) (text : Bytes) (after : State) (nesting : Nat := 0)
    (waiting : List PendingHeredoc := []) (entered : List LexerContext := [])
    (constructs : Nat := 0) : Prop where
  others : ∃ input lexer report symbols, after = { before with input, lexer, report, symbols }
  input : after.input = before.input.advance text.length
  between : after.lexer.Between nesting waiting entered constructs
  grows : before.Grows 0 after
  quiet : text.length ≤ before.limits.tokenMax → after.report = before.report

structure State.TextRead (before : State) (text : Bytes) (after : State) (nesting : Nat := 0)
    (waiting : List PendingHeredoc := []) (constructs : Nat := 0) : Prop where
  others : ∃ input lexer, after = { before with input, lexer }
  input : after.input = before.input.advance text.length
  between : after.lexer.Between nesting waiting [] constructs

theorem State.TextRead.of_advance {before : State} {text : Bytes} {input : Input}
    {lexer : LexerState} {nesting constructs : Nat} {waiting : List PendingHeredoc}
    (moved : input = before.input.advance text.length)
    (between : lexer.Between nesting waiting [] constructs) :
    before.TextRead text { before with input, lexer } nesting waiting constructs :=
  ⟨⟨input, lexer, rfl⟩, moved, between⟩

theorem State.TextRead.tokenRead {before after : State} {text : Bytes} {nesting constructs : Nat}
    {waiting : List PendingHeredoc} (read : before.TextRead text after nesting waiting constructs) :
    before.TokenRead text after nesting waiting [] constructs := by
  obtain ⟨⟨input, lexer, rfl⟩, moved, between⟩ := read
  exact ⟨⟨input, lexer, _, _, rfl⟩, moved, between,
    ⟨fun _ _ found => found, fun _ known => ⟨known, rfl⟩, rfl⟩, fun _ => rfl⟩

namespace Scan

variable {state : State} {nesting constructs : Nat} {waiting : List PendingHeredoc}
  {entered : List LexerContext} {excused : Fatal → State → Prop}

theorem internFrom_yields {start : Nat} {what : Truncated} {text : Bytes}
    (slice : state.input.slice ⟨start, state.input.position⟩ = text) :
    Yields (internFrom start what) state (fun symbol after =>
      symbol = (state.symbols.intern (text.take state.limits.tokenMax)).1 ∧
      (∃ report symbols, after = { state with report, symbols }) ∧ state.Grows 0 after ∧
        after.symbols.Spells symbol (text.take state.limits.tokenMax) ∧
        (text.length ≤ state.limits.tokenMax → after.report = state.report)) excused := by
  refine Yields.get_bind (Yields.checkRange_bind ?_)
  rw [slice]
  dsimp only
  split
  · next short =>
      refine (intern_yields text).mono ?_
      rintro symbol _ ⟨issued, symbols, rfl, known, named, grows⟩
      rw [List.take_of_length_le short]
      exact ⟨issued, ⟨_, _, rfl⟩, grows, ⟨known, named⟩, fun _ => rfl⟩
  · next long =>
    refine (report_yields _ rfl).bind ?_
    rintro _ _ ⟨report, rfl, errors⟩
    refine (intern_yields _).mono ?_
    rintro symbol _ ⟨issued, symbols, rfl, known, named, grows⟩
    exact ⟨issued, ⟨_, _, rfl⟩, ⟨grows.nodes, grows.names, errors⟩, ⟨known, named⟩,
      fun short => absurd short long⟩

/-- Where a call can have a name, a word that is not reserved is the name of a variable or of a
call. What may come next depends on whether it is known as a variable. -/
theorem plainName_yields {mode : Mode} {statementStart : Bool} {first : Byte} {start : Nat}
    {text : Bytes} (plain : mode ≠ .dot) (small : first.isUpper = false) (low : first < 0x80)
    (slice : state.input.slice ⟨start, state.input.position⟩ = text) :
    Yields (plainName mode statementStart false first start) state (fun token after =>
      ∃ symbol, token.kind = .identifier symbol ∧ token.span = ⟨start, state.input.position⟩ ∧
        symbol = (state.symbols.intern (text.take state.limits.tokenMax)).1 ∧
        after.symbols.Spells symbol (text.take state.limits.tokenMax) ∧ state.Grows 0 after ∧
        (text.length ≤ state.limits.tokenMax → after.report = state.report) ∧
        ∃ report symbols, after = { state with
          report, symbols
          lexer := { state.lexer with
            mode := if state.scopes.isLocal symbol then .operandEnd
              else modeAfterName mode statementStart } }) excused := by
  refine (internFrom_yields slice).bind ?_
  rintro symbol _ ⟨issued, ⟨report, symbols, rfl⟩, grows, spelled, quiet⟩
  have kind : (if !false && !first.isUpper then TokenKind.identifier symbol
      else .constant symbol) = .identifier symbol := by
    rw [small]
    rfl
  have looked : (mode != .dot && (!false && !first.isUpper) && decide (first < 0x80) &&
      state.scopes.isLocal symbol) = state.scopes.isLocal symbol := by
    rw [small, decide_eq_true low, bne_iff_ne.mpr plain]
    rfl
  refine Yields.get_bind ?_
  dsimp only
  rw [looked]
  refine Yields.setLexer_bind (Yields.position_bind (yields_pure ?_))
  exact ⟨symbol, kind, rfl, issued, spelled, ⟨grows.nodes, grows.names, grows.errors⟩, quiet, _, _,
    rfl⟩

theorem name_of_variable_yields {statementStart : Bool} {word : VariableName} {first : Byte}
    {rest more : Bytes} {post : Token → State → Prop} (written : word.text = first :: rest)
    (plain : state.lexer.mode ≠ .dot) (text : state.input.rest = word.text ++ more)
    (ends : word.EndsAt more)
    (yields : Yields (plainName state.lexer.mode statementStart false first state.input.position)
      { state with input := state.input.advance word.text.length } post excused) :
    Yields (name statementStart) state post excused := by
  have after : (state.input.advance word.text.length).rest = more := by
    rw [Input.advance, text, List.drop_left]
  obtain ⟨length, noColon, noSuffix, noEnd⟩ := ends.stops
  have noLabel : ((state.input.advance word.text.length).peek == ':') = false := by
    rw [Input.peek, after]
    exact noColon
  have head : (word.text ++ more).headD 0 = first := by
    rw [written]
    rfl
  refine Yields.get_bind ?_
  simp only [text, length, List.drop_left, noSuffix, Nat.add_zero, List.take_left]
  refine Yields.set_bind (Yields.checkRange_bind (Yields.checkRange_bind ?_))
  simp only [noLabel, noEnd _ _ after, word.not_reserved, head, Bool.and_false, Bool.false_and,
    beq_false_of_ne plain, bne_self_eq_false, Bool.false_eq_true, if_false]
  exact yields

/-- A word is read as a name, with the blank before it. After the name of a variable that is
known an operand has ended, and after any other arguments may follow. -/
theorem nameToken_yields {word : VariableName} {more : Bytes} (blank : Bytes)
    (between : state.lexer.Between nesting waiting entered constructs) (sound : state.input.Sound)
    (blanks : blank = [] ∨ blank = [0x20]) (plain : state.lexer.mode ≠ .dot)
    (text : state.input.rest = blank ++ (word.text ++ more)) (ends : word.EndsAt more) :
    Yields nextToken state (fun token after =>
      ∃ symbol, token.kind = .identifier symbol ∧
        token.span.start = state.input.position + blank.length ∧
        after.input.slice token.span = word.text ∧
        symbol = (state.symbols.intern (word.text.take state.limits.tokenMax)).1 ∧
        after.symbols.Spells symbol (word.text.take state.limits.tokenMax) ∧
        state.TokenRead (blank ++ word.text) after nesting waiting entered constructs ∧
        (word.text.length ≤ state.limits.tokenMax → after.report = state.report) ∧
        after.lexer.statementStart = false ∧
        after.lexer.mode = if state.scopes.isLocal symbol then .operandEnd
          else modeAfterName state.lexer.mode state.lexer.statementStart) excused := by
  obtain ⟨first, rest, written, starts, small⟩ := word.first
  have low : first < 0x80 := (word.ascii first (written ▸ List.mem_cons_self)).2
  obtain ⟨solid, notEquals, -⟩ := Byte.startsToken_of_isNameStart first starts low
  have here : state.input.rest = blank ++ first :: (rest ++ more) := by
    rw [text, written]
    rfl
  have left : (state.input.advance blank.length).rest = word.text ++ more := by
    rw [Input.advance, text, List.drop_left]
  have passed : (state.input.advance blank.length).Sound := by
    refine sound.advance ?_
    rw [text, List.length_append]
    exact Nat.le_add_right ..
  have slice := passed.slice_text left
  have moved : (state.input.advance blank.length).advance word.text.length =
      state.input.advance (blank ++ word.text).length := by
    rw [Input.advance_advance, List.length_append]
  refine letterToken_yields between blanks solid notEquals starts low here ?_
  refine name_of_variable_yields written plain left ends ((plainName_yields plain small low
    slice).mono ?_)
  rintro ⟨_, _⟩ _ ⟨symbol, rfl, rfl, issued, spelled, grows, quiet, report, symbols, rfl⟩
  refine ⟨symbol, rfl, rfl, slice, issued, spelled, ?_, quiet, rfl, rfl⟩
  refine ⟨⟨_, _, _, _, rfl⟩, moved, between.change, ⟨grows.nodes, grows.names, grows.errors⟩,
    fun short => quiet (Nat.le_trans ?_ short)⟩
  rw [List.length_append]
  exact Nat.le_add_left ..

theorem variableToken_yields {word : VariableName} {more : Bytes}
    (between : state.lexer.Between nesting waiting) (sound : state.input.Sound)
    (mode : state.lexer.mode = .begin) (text : state.input.rest = word.text ++ more)
    (ends : word.EndsAt more) :
    Yields nextToken state (fun token after =>
      (∃ symbol, token.kind = .identifier symbol ∧
        after.symbols.Spells symbol (word.text.take state.limits.tokenMax)) ∧
      state.TokenRead word.text after nesting waiting ∧ after.lexer.mode.isBegin = false ∧
        after.lexer.mode.namesMethod = false) excused := by
  refine (nameToken_yields [] between sound (.inl rfl) (mode ▸ nofun) text ends).mono ?_
  rintro token after ⟨symbol, kind, -, -, -, spelled, read, -, -, next⟩
  have operand (known : Bool) :
      let mode := if known then Mode.operandEnd else .afterCallName state.lexer.statementStart
      mode.isBegin = false ∧ mode.namesMethod = false := by
    cases known <;> cases state.lexer.statementStart <;> exact ⟨rfl, rfl⟩
  rw [mode] at next
  rw [next]
  exact ⟨⟨symbol, kind, spelled⟩, read, operand _⟩

/-! ### Marks and numbers -/

theorem plainMark_yields {byte : Byte} {more : Bytes} {mark : Punct} (blank tail : Bytes)
    (between : state.lexer.Between nesting waiting [] constructs)
    (blanks : blank = [] ∨ blank = [0x20])
    (solid : byte.startsToken = true) (notName : byte.isNameStart = false)
    (notDigit : byte.isDigit = false)
    (notDocument : Space.startsWithWord (ascii "=begin") (byte :: (tail ++ more)) = false)
    (read : ∀ before : Surroundings, before.mode = state.lexer.mode →
      OperatorReading.of? before byte.char (tail ++ more) =
        some (OperatorReading.plain mark (tail.length + 1) .begin))
    (plain : ∀ before,
      operatorMark before byte.char (OperatorReading.plain mark (tail.length + 1) .begin) =
        operator (OperatorReading.plain mark (tail.length + 1) .begin))
    (text : state.input.rest = blank ++ byte :: (tail ++ more)) :
    Yields nextToken state (fun token after => token.kind = .punct mark ∧
      state.TextRead (blank ++ byte :: tail) after nesting waiting constructs ∧
        after.lexer.statementStart = false ∧ after.lexer.mode = .begin) excused := by
  refine nextToken_yields between (tokenTurn_yields between.change blanks solid text ?_)
  have here : (state.input.advance blank.length).rest = byte :: (tail ++ more) := by
    rw [Input.advance, text, List.drop_left]
  refine tokenHere_mark_yields here notName notDigit notDocument (read _ rfl) ?_
  rw [plain]
  refine mark_yields ⟨rfl, .of_advance ?_ between.change, rfl, rfl⟩
  rw [Input.advance_advance, List.length_append, List.length_cons]

theorem assignToken_yields {more : Bytes}
    (between : state.lexer.Between nesting waiting [] constructs)
    (operand : state.lexer.mode.namesMethod = false)
    (text : state.input.rest = 0x20 :: 0x3D :: 0x20 :: more) :
    Yields nextToken state (fun token after => token.kind = .punct .assign ∧
      state.TextRead [0x20, 0x3D] after nesting waiting constructs ∧
        after.lexer.statementStart = false ∧ after.lexer.mode = .begin) excused := by
  refine plainMark_yields [0x20] [] between (.inr rfl) rfl rfl rfl rfl
    (fun before mode => ?_) (fun _ => rfl) text
  change some (OperatorReading.plain .assign 1 before.mode.afterOperator) = _
  rw [Mode.afterOperator, mode, operand]
  rfl

theorem callParenToken_yields {more : Bytes}
    (between : state.lexer.Between nesting waiting [] constructs)
    (operand : state.lexer.mode.isBegin = false) (text : state.input.rest = 0x28 :: more) :
    Yields nextToken state (fun token after => token.kind = .punct .callParen ∧
      state.TextRead [0x28] after (nesting + 1) waiting constructs ∧
        after.lexer.statementStart = false ∧ after.lexer.mode = .begin) excused := by
  have here : (state.input.advance 0).rest = 0x28 :: more := text
  have peek : (state.input.advance 0).peek = '(' := by
    rw [Input.peek, here]
    rfl
  have noOperator : ∀ before rest, OperatorReading.of? before '(' rest = none := fun _ _ => rfl
  refine nextToken_yields between (tokenTurn_yields between.change (.inl rfl) rfl text
    (tokenHere_yields here rfl rfl rfl (Yields.get_bind ?_)))
  simp only [List.length_nil, peek, noOperator]
  refine Yields.bind (Yields.position_bind ?_) fun token after holds =>
    yields_pure ⟨token, rfl, holds⟩
  simp only [operand, Bool.false_or, decide_false, Bool.not_false, Bool.false_eq_true, if_false,
    if_true, Nat.lt_irrefl, gt_iff_lt]
  refine Yields.position_bind (Yields.advance_bind (Yields.setLexer_bind
    (Yields.position_bind (yields_pure ?_))))
  refine ⟨rfl, .of_advance (Input.advance_advance ..) ?_, rfl, rfl⟩
  exact ⟨between.literal, between.heredocs, between.due, between.contexts,
    congrArg (· + 1) between.brackets, between.constructs, between.running, between.unmarked⟩

theorem closeParenToken_yields {more : Bytes}
    (between : state.lexer.Between nesting waiting [] constructs)
    (text : state.input.rest = 0x29 :: more) :
    Yields nextToken state (fun token after => token.kind = .punct .rightParen ∧
      state.TextRead [0x29] after (nesting - 1) waiting constructs ∧
        after.lexer.mode = .nameEnd) excused := by
  have here : (state.input.advance 0).rest = 0x29 :: more := text
  have peek : (state.input.advance 0).peek = ')' := by
    rw [Input.peek, here]
    rfl
  have noOperator : ∀ before rest, OperatorReading.of? before ')' rest = none := fun _ _ => rfl
  refine nextToken_yields between (tokenTurn_yields between.change (.inl rfl) rfl text
    (tokenHere_yields here rfl rfl rfl (Yields.get_bind ?_)))
  simp only [List.length_nil, peek, noOperator]
  refine Yields.bind (Yields.position_bind (Yields.advance_bind (Yields.setLexer_bind
    (Yields.position_bind (yields_pure ?_))))) fun token after holds =>
    yields_pure ⟨token, rfl, holds⟩
  refine ⟨rfl, .of_advance (Input.advance_advance ..) ?_, rfl⟩
  exact ⟨between.literal, between.heredocs, between.due, between.contexts,
    congrArg (· - 1) between.brackets, between.constructs, between.running, between.unmarked⟩

theorem commaToken_yields {more : Bytes}
    (between : state.lexer.Between nesting waiting [] constructs)
    (text : state.input.rest = 0x2C :: more) :
    Yields nextToken state (fun token after => token.kind = .punct .comma ∧
      state.TextRead [0x2C] after nesting waiting constructs ∧
        after.lexer.statementStart = false ∧ after.lexer.mode = .begin) excused :=
  plainMark_yields [] [] between (.inl rfl) rfl rfl rfl rfl (fun _ _ => rfl) (fun _ => rfl) text

/-- The reading of a minus sign right before a number: it is the sign of the number where an
operand can start, and stands between two operands anywhere else. -/
theorem minus_decimal (mode : Mode) (blank : Bool) (value : Nat) (more : Bytes)
    (operand : mode.namesMethod = false) :
    OperatorReading.minus mode blank (decimal value ++ more) =
      if mode.prefersUnary blank false then
        { kind := .mark .numberMinus
          length := 1
          mode := .begin
          warning :=
            if mode.isAmbiguous blank false then some (.ambiguousArgument, 1) else none }
      else OperatorReading.plain .minus 1 .begin := by
  obtain ⟨digit, others, written, small, -⟩ := decimal_cons value
  have digits : ∀ digit < 10, ((digitByte digit).char == '>') = false ∧
      ((digitByte digit).char == '=') = false ∧ (digitByte digit).isDigit = true ∧
      (digitByte digit).isSpace = false := by decide
  obtain ⟨noArrow, noAssign, isDigit, noSpace⟩ := digits digit small
  simp only [written, OperatorReading.minus, OperatorReading.sign, OperatorReading.head, operand,
    List.cons_append, List.headD_cons, noArrow, noAssign, isDigit, noSpace, Bool.and_false,
    Bool.false_eq_true, if_false, if_true]

theorem signToken_yields {value : Nat} {more : Bytes}
    (between : state.lexer.Between nesting waiting)
    (mode : state.lexer.mode = .begin)
    (text : state.input.rest = 0x20 :: 0x2D :: (decimal value ++ more)) :
    Yields nextToken state (fun token after => token.kind = .punct .numberMinus ∧
      state.TextRead [0x20, 0x2D] after nesting waiting ∧ after.lexer.mode = .begin) excused := by
  refine (plainMark_yields [0x20] [] between (.inr rfl) rfl rfl rfl rfl
    (fun before same => ?_) (fun _ => rfl) text).mono fun _ _ read => ⟨read.1, read.2.1, read.2.2.2⟩
  change some (OperatorReading.minus before.mode before.blank (decimal value ++ more)) = _
  rw [same, mode, minus_decimal .begin _ _ _ rfl]
  rfl

theorem minusToken_yields {value : Nat} {more : Bytes}
    (between : state.lexer.Between nesting waiting)
    (mode : state.lexer.mode = .operandEnd)
    (text : state.input.rest = 0x20 :: 0x2D :: (decimal value ++ more)) :
    Yields nextToken state (fun token after => token.kind = .punct .minus ∧
      state.TextRead [0x20, 0x2D] after nesting waiting ∧ after.lexer.mode = .begin) excused := by
  refine (plainMark_yields [0x20] [] between (.inr rfl) rfl rfl rfl rfl
    (fun before same => ?_) (fun _ => rfl) text).mono fun _ _ read => ⟨read.1, read.2.1, read.2.2.2⟩
  change some (OperatorReading.minus before.mode before.blank (decimal value ++ more)) = _
  rw [same, mode, minus_decimal .operandEnd _ _ _ rfl]
  rfl

/-- Where arguments may follow a name, a minus sign between a blank and a digit is the sign
of the first argument, with a warning. -/
theorem argumentSignToken_yields {value : Nat} {more : Bytes}
    (between : state.lexer.Between nesting waiting) (mode : state.lexer.mode.isArgument = true)
    (text : state.input.rest = 0x20 :: 0x2D :: (decimal value ++ more)) :
    Yields nextToken state (fun token after => token.kind = .punct .numberMinus ∧
      after.report = state.report.add ⟨state.input.position + 1, state.input.position + 2⟩
        .ambiguousArgument ∧
      State.TextRead { state with report := after.report } [0x20, 0x2D] after nesting waiting ∧
        after.lexer.mode = .begin) excused := by
  have start : state.input.rest = [0x20] ++ 0x2D :: (decimal value ++ more) := text
  refine nextToken_yields between (tokenTurn_yields between.change (.inr rfl) rfl start ?_)
  have here : (state.input.advance 1).rest = 0x2D :: (decimal value ++ more) := by
    rw [Input.advance, text]
    rfl
  have names : state.lexer.mode.namesMethod = false ∧ state.lexer.mode.isBegin = false := by
    cases same : state.lexer.mode <;> rw [same] at mode <;> first | exact ⟨rfl, rfl⟩ | cases mode
  have read := minus_decimal state.lexer.mode true value more names.1
  rw [Mode.isAmbiguous, Mode.prefersUnary, names.2, mode] at read
  refine tokenHere_mark_yields here rfl rfl rfl (congrArg some read) ?_
  refine Yields.position_bind (Yields.advance_bind ?_)
  have reports : ∀ current : State, Yields (report ⟨state.input.position + 1,
      state.input.position + 1 + 1⟩ .ambiguousArgument) current (fun _ after => after = { current with
        report := current.report.add ⟨state.input.position + 1, state.input.position + 2⟩
          .ambiguousArgument }) excused :=
    fun current => Yields.get_bind (Yields.relyOn_bind (yields_modify rfl))
  refine (reports _).bind ?_
  rintro _ _ rfl
  refine Yields.setLexer_bind (Yields.position_bind (yields_pure ⟨rfl, rfl, ?_, rfl⟩))
  exact .of_advance (Input.advance_advance ..) between.change

theorem digitsToken_yields {value : Nat} {blank more : Bytes}
    (between : state.lexer.Between nesting waiting [] constructs)
    (blanks : blank = [] ∨ blank = [0x20]) (ended : Ended more)
    (text : state.input.rest = blank ++ (decimal value ++ more)) :
    Yields nextToken state (fun token after => token.kind = .integer value ∧
      state.TextRead (blank ++ decimal value) after nesting waiting constructs ∧
        after.lexer.mode = .operandEnd) excused := by
  refine (integerToken_yields between blanks ended text).mono ?_
  rintro token _ ⟨kind, lexer, rfl, idle, mode⟩
  refine ⟨kind, .of_advance ?_ idle, mode⟩
  rw [Input.advance_advance, List.length_append]

/-! ### Ends -/

/-- The end of a line where a statement can end, unless the next line goes on with a dot. A
statement starts after it. -/
theorem lineFeedToken_yields {more : Bytes}
    (between : state.lexer.Between nesting [] [] constructs)
    (mode : state.lexer.mode.foldsNewline = false) (alone : Space.continuation? more = none)
    (text : state.input.rest = 0x0A :: more) :
    Yields nextToken state (fun token after => token.kind = .newline ∧
      state.TextRead [0x0A] after nesting [] constructs ∧ after.lexer.mode = .begin ∧
        after.lexer.statementStart = true) excused := by
  refine nextToken_yields between (Yields.get_bind ?_)
  have space : Space.length state.input.rest = 0 := by
    rw [text]
    rfl
  have here : (state.input.advance 0).rest = 0x0A :: more := by
    rw [Input.advance, text]
    rfl
  have byte : isEndMark (state.input.advance 0).peekByte = false := by
    rw [Input.peekByte, here]
    rfl
  have peek : ((state.input.advance 0).peek == '\n') = true := by
    rw [Input.peek, here]
    rfl
  dsimp only
  rw [space]
  refine Yields.advance_bind (Yields.get_bind ?_)
  simp only [between.running, byte, peek, Bool.false_eq_true, if_false, if_true]
  refine Yields.get_bind (Yields.advance_bind ?_)
  simp only [between.heredocs, mode, here, List.drop_succ_cons, List.drop_zero,
    alone, List.isEmpty_nil, Bool.not_true, Bool.false_eq_true, if_false]
  refine Yields.bind (Yields.setLexer_bind (Yields.position_bind (yields_pure ?_)))
    fun token after holds => yields_pure ⟨token, rfl, holds⟩
  exact ⟨rfl, .of_advance (Input.advance_advance ..) ⟨between.literal, rfl, between.due,
    between.contexts, between.brackets, between.constructs, rfl, between.unmarked⟩, rfl, rfl⟩

/-- The same after an operand. -/
theorem newlineToken_yields {more : Bytes} (idle : state.lexer.Idle)
    (mode : state.lexer.mode = .operandEnd) (alone : Space.continuation? more = none)
    (text : state.input.rest = 0x0A :: more) :
    Yields nextToken state (fun token after => token.kind = .newline ∧
      state.TextRead [0x0A] after ∧ after.lexer.mode = .begin) excused := by
  refine (lineFeedToken_yields idle (mode ▸ rfl) alone text).mono ?_
  rintro token after ⟨kind, read, begins, -⟩
  exact ⟨kind, read, begins⟩

end Scan

end RubySyntax
