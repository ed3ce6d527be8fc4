/-
Strings in the code of strings.

Where the code in a string starts the lexer puts its state aside, and takes it up again at the
closing brace that closes no bracket of the code. In between it is outside of the string.

Each string is read one level deeper than the code that it stands in, and the lexer puts its
state aside once for each. So the code is reached if there is room for as many levels as there
are strings, and otherwise the parse ends at the first string, or at the call in the innermost
one, for which there is none.
-/

import RubySyntax.Proofs.Literal.Statement

namespace RubySyntax

/-! ### The tokens around the code in a string -/

def LexerState.aside (lexer : LexerState) (literal : Quotation) : LexerContext :=
  { literal := some (.quotation literal)
    mode := lexer.mode
    statementStart := lexer.statementStart
    loopFlags := lexer.loopFlags
    commandFlags := lexer.commandFlags
    brackets := lexer.brackets }

def State.entered (state : State) (literal : Quotation) : State :=
  { state with
    input := state.input.advance 2
    lexer := { state.lexer with
      contexts := state.lexer.aside literal :: state.lexer.contexts
      literal := none
      mode := .begin
      statementStart := true
      loopFlags := {}
      commandFlags := {}
      brackets := 0 } }

namespace Scan

variable {state : State} {literal : Quotation} {rest : Bytes} {context : LexerContext}
  {entered : List LexerContext} {excused : Fatal → State → Prop}

theorem interpolationBegin_yields (within : state.lexer.Within literal entered)
    (noList : literal.kind.isList = false) (interpolates : literal.interpolates = true)
    (other : literal.closing ≠ 0x23) (shallow : entered.length < state.limits.maxDepth)
    (here : state.input.rest = 0x23 :: 0x7B :: rest) :
    Yields nextToken state (fun token after =>
      token = ⟨.interpolationBegin, ⟨state.input.position, state.input.position + 2⟩⟩ ∧
        after = state.entered { literal with wordStarted := true }) excused := by
  have goesOn : literal.closesAt 0x23 = false := by
    rw [Quotation.closesAt, beq_false_of_ne other.symm]
    rfl
  have code : (if literal.interpolates then Interpolation.at? (0x23 :: 0x7B :: rest) else none) =
      some .code := by
    rw [if_pos interpolates]
    rfl
  have room : ¬state.limits.maxDepth ≤ state.lexer.contexts.length := by
    have contexts : state.lexer.contexts = entered := within.between.contexts
    rw [contexts]
    exact Nat.not_le.mpr shallow
  refine nextToken_within within (quotation_yields noList here ?_)
  simp only [goesOn, code, Bool.false_eq_true, if_false]
  refine Yields.setLexer_bind (Yields.position_bind (Yields.advance_bind ?_))
  refine Yields.bind (Yields.get_bind ?_ : Yields (enterInterpolation state.input.position) _
    (fun _ after => after = state.entered { literal with wordStarted := true }) excused) ?_
  · rw [if_neg room]
    exact yields_modify rfl
  · rintro _ _ rfl
    exact Yields.position_bind (yields_pure ⟨rfl, rfl⟩)

theorem interpolationEnd_yields (between : state.lexer.Between 0 [] (context :: entered))
    (inside : context.literal = some (.quotation literal)) (settled : context.brackets = 0)
    (here : state.input.rest = 0x7D :: rest) :
    Yields nextToken state (fun token after => token.kind = .interpolationEnd ∧
      ∃ lexer, after = { state with input := state.input.advance 1, lexer } ∧
        lexer.Within literal entered) excused := by
  have first : (state.input.advance 0).peek = '\x7d' := by
    rw [Input.peek, Input.advance, here]
    rfl
  have ends : (decide (state.lexer.brackets = 0) && !state.lexer.contexts.isEmpty) = true := by
    rw [between.brackets, between.contexts]
    rfl
  refine nextToken_yields between (tokenTurn_yields between.change (.inl rfl) rfl here ?_)
  refine tokenHere_yields here rfl rfl rfl (Yields.get_bind ?_)
  simp only [List.length_nil, first, OperatorReading.of?]
  refine Yields.bind (Yields.get_bind ?_) fun token after holds => yields_pure ⟨token, rfl, holds⟩
  simp only [ends, if_true]
  refine Yields.advance_bind (Yields.setLexer_bind (Yields.position_bind (yields_pure ?_)))
  refine ⟨rfl, _, rfl, ?_⟩
  simp only [between.contexts]
  exact ⟨inside, rfl, between.heredocs, between.due, rfl, settled, between.constructs,
    between.running, between.unmarked⟩

end Scan

/-! ### Strings in strings -/

def nestedText : Nat → Bytes
  | 0 => ascii "x"
  | count + 1 => [0x22, 0x23, 0x7B] ++ (nestedText count ++ [0x7D, 0x22])

theorem nestedText_around (count : Nat) (rest : Bytes) :
    nestedText (count + 1) ++ rest =
      0x22 :: 0x23 :: 0x7B :: (nestedText count ++ 0x7D :: 0x22 :: rest) := by
  simp only [nestedText, List.cons_append, List.nil_append, List.append_assoc]

def NestedNode (arena : Arena) (symbols : SymbolTable) : Nat → NodeId → Prop
  | 0, id => ∃ symbol, arena.Shaped id (.functionCall symbol [] none) ∧
      symbols.Spells symbol (ascii "x")
  | count + 1, id => ∃ group inner, arena.Shaped id (.list .string [group]) ∧
      arena.Shaped group (.optional .group (some inner)) ∧ NestedNode arena symbols count inner

theorem NestedNode.kept {before after : State} {nodes errors count : Nat} {id : NodeId}
    (nested : NestedNode before.arena before.symbols count id)
    (gains : before.Gains nodes errors after) : NestedNode after.arena after.symbols count id := by
  induction count generalizing id with
  | zero =>
      obtain ⟨symbol, call, spelled⟩ := nested
      exact ⟨symbol, gains.shaped call, gains.spells spelled⟩
  | succ count ih =>
      obtain ⟨group, inner, string, code, nested⟩ := nested
      exact ⟨group, inner, gains.shaped string, gains.shaped code, ih nested⟩

theorem NestedNode.noList {arena : Arena} {symbols : SymbolTable} {count : Nat} {id : NodeId}
    (nested : NestedNode arena symbols count id) :
    ∃ shape, arena.Shaped id shape ∧ ∀ others, shape ≠ .list .statements others := by
  cases count with
  | zero =>
      obtain ⟨symbol, call, -⟩ := nested
      exact ⟨_, call, nofun⟩
  | succ count =>
      obtain ⟨group, inner, string, -⟩ := nested
      exact ⟨_, string, nofun⟩

/-! ### What comes after a statement -/

structure EndsWith (rest : Bytes) (entered : List LexerContext) (kind : TokenKind)
    (ended : LexerState → Input → Prop) : Prop where
  known : kind = .endOfInput ∨ kind = .interpolationEnd
  name : rest = [] ∨ ∃ more, rest = 0x7D :: more
  reads : ∀ state : State, state.Left rest entered → state.lexer.mode.isBegin = false →
    state.lexer.mode.namesMethod = false → Scan.Succeeds Scan.nextToken state fun token after =>
      token.kind = kind ∧ state.Reading after ∧ ended after.lexer after.input

theorem endsWith_end : EndsWith [] [] .endOfInput fun _ _ => True where
  known := .inl rfl
  name := .inl rfl
  reads state left mode plain := by
    refine (Scan.endToken_yields left.idle (.inl ⟨mode, plain⟩) left.text).mono ?_
    rintro token after ⟨kind, reading⟩
    exact ⟨kind, ⟨_, reading⟩, trivial⟩

def Quotation.Resumed (literal : Quotation) (entered : List LexerContext) (more : Bytes)
    (lexer : LexerState) (input : Input) : Prop :=
  lexer.Within literal entered ∧ input.Sound ∧ input.rest = more

theorem endsWith_code {literal : Quotation} {context : LexerContext}
    {entered : List LexerContext} {more : Bytes}
    (inside : context.literal = some (.quotation literal)) (settled : context.brackets = 0) :
    EndsWith (0x7D :: more) (context :: entered) .interpolationEnd
      (literal.Resumed entered more) where
  known := .inr rfl
  name := .inr ⟨more, rfl⟩
  reads state left _ _ := by
    refine (Scan.interpolationEnd_yields left.idle inside settled left.text).mono ?_
    rintro token _ ⟨kind, lexer, rfl, within⟩
    refine ⟨kind, ⟨_, _, rfl⟩, within, left.sound.advance ?_, ?_⟩
    · rw [left.text]
      exact Nat.le_add_left ..
    · exact congrArg (List.drop 1) left.text

namespace EndsWith

variable {rest : Bytes} {entered : List LexerContext} {kind : TokenKind}
  {ended : LexerState → Input → Prop}

theorem closes (ends : EndsWith rest entered kind ended) : kind.closes = true := by
  rcases ends.known with rfl | rfl <;> rfl

theorem stops (ends : EndsWith rest entered kind ended) :
    kind.isTerminator = false ∧ kind.endsStatements = true := by
  rcases ends.known with rfl | rfl <;> exact ⟨rfl, rfl⟩

theorem starts (ends : EndsWith rest entered kind ended) :
    kind.beginsArgument = false ∧ kind ≠ .literalBegin .string := by
  rcases ends.known with rfl | rfl <;> exact ⟨rfl, nofun⟩

theorem peekToken {table : RuleTable} {state : State} {excused : Fatal → State → Prop}
    (ends : EndsWith rest entered kind ended) (left : state.Left rest entered)
    (unseen : state.lookahead = none) (mode : state.lexer.mode.isBegin = false)
    (plain : state.lexer.mode.namesMethod = false) :
    Parse.Yields table Parse.peekToken state (fun token after => after.lookahead = some token ∧
      token.kind = kind ∧ after.arena = state.arena ∧ state.EndSeen 0 after kind ∧
        ended after.lexer after.input) excused :=
  have other : kind ≠ .heredocBodies := by
    rcases ends.known with rfl | rfl <;> nofun
  Parse.peekToken_seen ended left.free left.unlabelled unseen other
    (ends.reads state left mode plain).unexcused

end EndsWith

/-! ### The statement in the innermost string -/

def callName : VariableName :=
  ⟨ascii "x", rfl⟩

structure NestedAhead (begun : State) (total count : Nat) (rest : Bytes)
    (entered : List LexerContext) (state : State) : Prop where
  unseen : state.lookahead = none
  left : state.Left (nestedText count ++ rest) entered
  mode : state.lexer.mode = .begin
  starts : state.lexer.statementStart = true
  level : state.depth + count = total
  allowed : state.depth ≤ state.limits.maxDepth
  contexts : entered.length = state.depth
  position : state.input.position = 3 * state.depth
  room : state.Room (2 * count + 1)
  limits : state.limits = begun.limits
  report : state.report = begun.report
  named : 0 < state.limits.tokenMax
  unknown : state.scopes.isLocal (state.symbols.intern callName.text).1 = false

/-- There is no room for a level; the parse ends where it would start, and nothing has been
reported. -/
def NoLevel (begun : State) (total : Nat) (error : Fatal) (after : State) : Prop :=
  begun.limits.maxDepth ≤ total ∧
    error = .nestingTooDeep begun.limits.maxDepth (3 * begun.limits.maxDepth) ∧
    after.report = begun.report

structure NestedRead (begun before : State) (total count : Nat) (kind : TokenKind)
    (ended : LexerState → Input → Prop) (id : NodeId) (after : State) : Prop where
  node : NestedNode after.arena after.symbols count id
  shallow : total < begun.limits.maxDepth
  seen : before.EndSeen (2 * count + 1) after kind
  ended : ended after.lexer after.input

namespace Parse

variable {depth total count : Nat} {begun before state : State} {rest : Bytes}
  {entered : List LexerContext} {kind : TokenKind} {ended : LexerState → Input → Prop}
  {first : Token}

/-- At the last level that is allowed no statement is read. -/
theorem nested_full (ahead : NestedAhead begun total count rest entered before)
    (builds : before.Builds 0 state) (seen : state.lookahead = some first)
    (opens : first.kind.opensOperand = true) (starts : first.span.start = before.input.position)
    (full : ¬state.depth < state.limits.maxDepth) {read : NodeId → State → Prop} :
    Yields (Parse.table depth) statement state (Closed read) (NoLevel begun total) := by
  refine statement_full seen opens (Nat.not_lt.mp full) ?_
  rw [builds.depth, builds.limits, ahead.limits] at full
  have allowed := ahead.allowed
  rw [ahead.limits] at allowed
  have level := ahead.level
  have here : before.depth = begun.limits.maxDepth := by omega
  refine ⟨by omega, ?_, builds.quiet.trans ahead.report⟩
  rw [builds.limits, ahead.limits, starts, ahead.position, here]

theorem argument_nested_call {symbol : Symbol} {span : Span} {excused : Fatal → State → Prop}
    (ends : EndsWith rest entered kind ended) (left : state.Left rest entered)
    (seen : state.lookahead = some ⟨.identifier symbol, span⟩)
    (mode : state.lexer.mode.isBegin = false) (plain : state.lexer.mode.namesMethod = false)
    (shallow : state.depth < state.limits.maxDepth) :
    Yields (Parse.table depth) (argumentOperand .accepted) state (Stopped fun operand after =>
      operand = .identifier span (state.scopes.isLocal symbol) symbol ∧
        state.EndSeen 0 after kind ∧ ended after.lexer after.input) excused := by
  let deeper : State := { state with depth := state.depth + 1 }
  let taken : State := { deeper with lookahead := none, previousStop := span.stop }
  have rest : taken.Left rest entered := left.alike left.idle rfl rfl rfl
  have passed : deeper.Builds 0 taken := .of_same rfl rfl rfl rfl rfl
  have operands := TokenKind.passes_of_endsOperand (TokenKind.endsOperand_of_closes ends.closes)
  have chain : ∀ depth, Yields (Parse.table depth) chain deeper (fun operand after =>
      operand = .identifier span (state.scopes.isLocal symbol) symbol ∧
        deeper.EndSeen 0 after kind ∧ ended after.lexer after.input) excused := by
    intro depth
    refine chain_name seen ((ends.peekToken rest rfl mode plain).bind ?_)
    rintro ⟨_, place⟩ after ⟨-, rfl, -, last, whole⟩
    exact yields_pure ⟨operands.1, last.since passed, whole⟩
  refine argumentOperand_stops seen rfl shallow ((operand_of_chain chain ?_).mono ?_)
  · rintro operand after ⟨rfl, last, whole⟩
    obtain ⟨place, ahead⟩ := last.ended
    exact ⟨_, ahead, operands.2, nofun⟩
  · rintro operand after ⟨rfl, last, whole⟩
    obtain ⟨place, ahead⟩ := last.ended
    exact ⟨⟨rfl, last.shallower, whole⟩, _, ahead, TokenKind.endsOperand_of_closes ends.closes⟩

theorem statement_nested_call (ends : EndsWith rest entered kind ended)
    (ahead : NestedAhead begun total 0 rest entered before)
    (name : NameAhead before callName rest entered state)
    (seen : state.lookahead = some first) :
    Yields (Parse.table depth) statement state
      (Closed (NestedRead begun before total 0 kind ended)) (NoLevel begun total) := by
  obtain ⟨stop, same⟩ := name.seen
  obtain rfl : first = ⟨.identifier (before.symbols.intern callName.text).1,
      ⟨before.input.position, stop⟩⟩ := Option.some.inj (seen.symm.trans same)
  by_cases shallow : state.depth < state.limits.maxDepth
  · have mode : state.lexer.mode = .command := by
      rw [name.mode, ahead.unknown, ahead.starts]
      rfl
    refine statement_closed seen rfl fun _ => negation_of_argument seen rfl
      (fun _ => argument_nested_call ends name.left seen (mode ▸ rfl) (mode ▸ rfl) shallow) ?_
    rintro _ current ⟨⟨rfl, last, whole⟩, -⟩
    obtain ⟨place, next⟩ := last.ended
    have seen : before.EndSeen 0 current kind := last.since name.builds
    refine Yields.peek_bind next ?_
    rw [ends.starts.1, Bool.and_false, name.scopes, ahead.unknown]
    refine yields_lift ((Scan.alloc_succeeds seen.free (State.Room.after ahead.room
      seen.builds.toGains) (.functionCall _ [] none) _).unexcused.mono ?_)
    intro id after stores
    have spelled := (last.builds.trans stores.builds).spells name.spelled
    have stored := seen.stored stores
    have total : total < begun.limits.maxDepth := by
      have level := ahead.level
      rw [name.builds.depth, name.builds.limits, ahead.limits] at shallow
      omega
    obtain ⟨⟨arena, rfl⟩, -, call, -, -⟩ := stores
    obtain ⟨place, following⟩ := stored.ended
    exact ⟨⟨⟨_, call, spelled⟩, total, stored, whole⟩, stored.unlabelled, _, following,
      ends.closes⟩
  · exact nested_full ahead name.builds seen rfl rfl shallow

end Parse

/-! ### A string around a statement -/

abbrev Quotation.coded (start : Nat) (wordStarted : Bool) : Quotation :=
  { kind := .string
    interpolates := true
    closing := 0x22
    wordStarted
    start }

def State.StringBegun (before after : State) : Prop :=
  ∃ tokens span, span.start = before.input.position ∧
    after = { before.opened 1 (.coded before.input.position false) with
      tokens, lookahead := some ⟨.literalBegin .string, span⟩ }

def State.openedDeeper (state : State) : State :=
  { state.opened 1 (.coded state.input.position false) with depth := state.depth + 1 }

def State.codeEntered (state : State) : State :=
  state.openedDeeper.entered (.coded state.input.position true)

def State.codeAside (state : State) : LexerContext :=
  state.openedDeeper.lexer.aside (.coded state.input.position true)

def State.CodeBegun (before after : State) : Prop :=
  ∃ tokens span previousStop, after = { before.codeEntered with
    tokens, previousStop, lookahead := some ⟨.interpolationBegin, span⟩ }

theorem NestedAhead.inner {begun before : State} {total count : Nat} {rest : Bytes}
    {entered : List LexerContext}
    (ahead : NestedAhead begun total (count + 1) rest entered before)
    (shallow : before.depth < before.limits.maxDepth) (tokens : List Token) (stop : Nat) :
    NestedAhead begun total count (0x7D :: 0x22 :: rest) (before.codeAside :: entered)
      { before.codeEntered with tokens, lookahead := none, previousStop := stop } where
  unseen := rfl
  left := by
    have idle := ahead.left.idle
    have text := ahead.left.text.trans (nestedText_around count rest)
    have sound : ((before.input.advance 1).advance 2).Sound := by
      rw [Input.advance_advance]
      refine ahead.left.sound.advance ?_
      rw [text]
      exact Nat.le_add_left ..
    refine ⟨⟨rfl, idle.heredocs, idle.due, ?_, rfl, idle.constructs, idle.running,
      idle.unmarked⟩, sound, ?_, ahead.left.free, ahead.left.unlabelled⟩
    · exact congrArg (before.codeAside :: ·) idle.contexts
    · exact congrArg (fun bytes => (bytes.drop 1).drop 2) text
  mode := rfl
  starts := rfl
  level := by
    rw [← ahead.level]
    change before.depth + 1 + count = before.depth + (count + 1)
    omega
  allowed := shallow
  contexts := congrArg Nat.succ ahead.contexts
  position := by
    change before.input.position + 1 + 2 = 3 * (before.depth + 1)
    rw [ahead.position]
    omega
  room := ahead.room.of_le (by omega)
  limits := ahead.limits
  report := ahead.report
  named := ahead.named
  unknown := ahead.unknown

def NestedStatements (begun : State) (total count : Nat) : Prop :=
  ∀ {before : State} {rest : Bytes} {entered : List LexerContext} {kind : TokenKind}
    {ended : LexerState → Input → Prop} (depth : Nat), EndsWith rest entered kind ended →
    NestedAhead begun total count rest entered before →
    Parse.Yields (Parse.table depth) Parse.statements before (fun body after => ∃ id,
      body = some id ∧ NestedRead begun before total count kind ended id after)
      (NoLevel begun total)

structure CodeStored (begun before : State) (total count : Nat) (group : NodeId)
    (after : State) : Prop where
  node : ∃ inner, after.arena.Shaped group (.optional .group (some inner)) ∧
    NestedNode after.arena after.symbols count inner
  shallow : total < begun.limits.maxDepth
  sound : after.input.Sound
  free : after.arena.FreeSound
  unlabelled : after.quotedKey = none
  builds : before.Builds (2 * count + 2) after

namespace Parse

variable {depth total count : Nat} {begun before state : State} {rest : Bytes}
  {entered : List LexerContext} {kind : TokenKind} {ended : LexerState → Input → Prop}

theorem interpolatedCode_nested (inner : NestedStatements begun total count)
    (ahead : NestedAhead begun total (count + 1) rest entered before)
    (shallow : before.depth < before.limits.maxDepth) (started : before.CodeBegun state) :
    Yields (Parse.table depth) interpolatedCode state (fun group after => ∃ literal,
      after.AtClosing literal rest entered ∧
        CodeStored begun before.openedDeeper total count group after) (NoLevel begun total) := by
  obtain ⟨tokens, span, previousStop, rfl⟩ := started
  let taken : State := { before.codeEntered with
    tokens, lookahead := none, previousStop := span.stop }
  have within := State.opened_within 1 (.coded before.input.position false) ahead.left.idle
  let literal : Quotation := .coded before.input.position true
  have ends : EndsWith (0x7D :: 0x22 :: rest) (before.codeAside :: entered) .interpolationEnd
      (literal.Resumed entered (0x22 :: rest)) :=
    endsWith_code rfl within.between.brackets
  have deeper := ahead.inner shallow tokens span.stop
  have passed : before.openedDeeper.Builds 0 taken := .of_same rfl rfl rfl rfl rfl
  have space : taken.Room (2 * count + 1 + 1) := ahead.room.of_le (by omega)
  have code : ∀ depth, Yields (Parse.table depth) statements taken (fun body after =>
      (∃ span, after.lookahead = some ⟨.interpolationEnd, span⟩) ∧ after.arena.FreeSound ∧
        after.Room 1 ∧ ∃ id, body = some id ∧ NestedRead begun taken total count .interpolationEnd
          (literal.Resumed entered (0x22 :: rest)) id after) (NoLevel begun total) := by
    intro depth
    refine (inner depth ends deeper).mono ?_
    rintro body after ⟨id, same, read⟩
    exact ⟨read.seen.ended, read.seen.free, space.after read.seen.builds.toGains, id, same, read⟩
  refine (interpolatedCode_group rfl code).mono ?_
  rintro group after ⟨_, middle, stop, ⟨id, rfl, read⟩, stores⟩
  obtain ⟨held, sound, text⟩ := read.ended
  have closed : middle.Builds 0 { middle with lookahead := none, previousStop := stop } :=
    .of_same rfl rfl rfl rfl rfl
  have added : middle.Builds (0 + 1) after := closed.trans stores.builds
  have node := read.node.kept added.toGains
  have builds := (passed.trans read.seen.builds).trans added
  have counted : 0 + (2 * count + 1) + (0 + 1) = 2 * count + 2 := by omega
  obtain ⟨⟨arena, rfl⟩, -, stored, -, free⟩ := stores
  exact ⟨literal, ⟨rfl, held, rfl, rfl, rfl, text⟩, ⟨id, stored, node⟩, read.shallow, sound, free,
    read.seen.unlabelled, counted ▸ builds⟩

theorem literalParts_nested (inner : NestedStatements begun total count)
    (ahead : NestedAhead begun total (count + 1) rest entered before)
    (shallow : before.depth < before.limits.maxDepth) {tokens : List Token} {stop : Nat}
    (same : state = { before.openedDeeper with tokens, lookahead := none, previousStop := stop }) :
    Yields (Parse.table depth) literalParts state (fun parts after => ∃ shape,
      PartsRead before.openedDeeper (2 * count + 2) rest entered parts shape after ∧
        ∃ group middle, shape = .list .string [group] ∧ middle.Builds 0 after ∧
          CodeStored begun before.openedDeeper total count group middle)
      (NoLevel begun total) := by
  have within : state.lexer.Within (.coded before.input.position false) entered :=
    same ▸ State.opened_within 1 _ ahead.left.idle
  have other : (Quotation.coded before.input.position false).closing ≠ 0x23 :=
    show (0x22 : Byte) ≠ 0x23 by decide
  have room : entered.length < state.limits.maxDepth := same ▸ ahead.contexts ▸ shallow
  have text : state.input.rest = 0x23 :: 0x7B :: (nestedText count ++ 0x7D :: 0x22 :: rest) := by
    rw [same]
    exact congrArg (List.drop 1) (ahead.left.text.trans (nestedText_around count rest))
  have peeks : Yields (Parse.table depth) peekToken state (fun token after =>
      token.kind = .interpolationBegin ∧ before.CodeBegun after) (NoLevel begun total) := by
    refine (peekToken_knows (same ▸ rfl) (by nofun)
      (Scan.interpolationBegin_yields within rfl rfl other room text)).mono ?_
    rintro _ after ⟨rfl, rfl⟩
    subst same
    exact ⟨rfl, _, _, _, rfl⟩
  refine (literalParts_code peeks fun current =>
    interpolatedCode_nested inner ahead shallow).mono ?_
  rintro _ after ⟨group, middle, literal, rfl, closing, stored, seen⟩
  exact ⟨_, partsRead_of_seen seen closing.within stored.sound closing.here stored.free
    stored.unlabelled stored.builds fun _ => literalShape_code group, group, middle, rfl,
    seen.proceeds.builds, stored⟩

theorem literal_nested (inner : NestedStatements begun total count)
    (ends : EndsWith rest entered kind ended)
    (ahead : NestedAhead begun total (count + 1) rest entered before)
    (shallow : before.depth < before.limits.maxDepth) {tokens : List Token} {span : Span}
    (same : state = { before.openedDeeper with
      tokens, lookahead := some ⟨.literalBegin .string, span⟩ }) :
    Yields (Parse.table depth) (Parse.literal .string) state (Closed fun id after =>
      NestedRead begun before total (count + 1) kind ended id
        { after with depth := after.depth - 1 }) (NoLevel begun total) := by
  subst same
  have space : before.openedDeeper.Room (2 * count + 2 + 1) := ahead.room.of_le (by omega)
  refine literal_of_quoted rfl
    (quoted_of_parts (literalParts_nested inner ahead shallow rfl) space) ?_
  rintro id current ⟨_, middle, ⟨group, earlier, rfl, passed, code⟩, added, string⟩
  refine ⟨string.left.unlabelled, (ends.peekToken string.left string.unseen (string.mode ▸ rfl)
    (string.mode ▸ rfl)).mono ?_⟩
  rintro ⟨_, place⟩ after ⟨next, rfl, -, seen, reached⟩
  obtain ⟨inner, stored, nested⟩ := code.node
  have later : earlier.Gains _ _ after := ((passed.trans added).trans seen.builds).toGains
  have node : NestedNode after.arena after.symbols (count + 1) id :=
    ⟨group, inner, seen.builds.shaped string.stored, later.shaped stored, nested.kept later⟩
  have opened : State.Builds { before with depth := before.depth + 1 } 0 before.openedDeeper :=
    .of_same rfl rfl rfl rfl rfl
  have counted : 0 + (2 * count + 2 + 1 + 0) = 2 * (count + 1) + 1 := by omega
  have whole := (seen.since string.builds).since opened
  rw [counted] at whole
  exact ⟨ends.starts.2, ⟨node, code.shallow, whole.shallower, reached⟩, seen.unlabelled, _,
    next, ends.closes⟩

theorem statement_nested (inner : NestedStatements begun total count)
    (ends : EndsWith rest entered kind ended)
    (ahead : NestedAhead begun total (count + 1) rest entered before)
    (started : before.StringBegun state) :
    Yields (Parse.table depth) statement state
      (Closed (NestedRead begun before total (count + 1) kind ended)) (NoLevel begun total) := by
  obtain ⟨tokens, span, start, same⟩ := started
  have seen : state.lookahead = some ⟨.literalBegin .string, span⟩ := same ▸ rfl
  have passed : before.Builds 0 state := same ▸ .of_same rfl rfl rfl rfl rfl
  by_cases shallow : state.depth < state.limits.maxDepth
  · subst same
    exact statement_of_literal rfl shallow fun depth =>
      literal_nested inner ends ahead shallow rfl
  · exact nested_full ahead passed seen rfl start shallow

/-! ### Any number of strings -/

theorem callName_endsAt (ends : EndsWith rest entered kind ended) : callName.EndsAt rest := by
  rcases ends.name with rfl | ⟨more, rfl⟩
  · show ascii "x" ≠ Keyword.endMarker
    decide
  · show (0x7D : Byte).endsName = true
    decide

/-- What comes after them ends the statements. -/
theorem nested_stops (ends : EndsWith rest entered kind ended) (id : NodeId) (after : State)
    (read : NestedRead begun before total count kind ended id after) :
    ∃ token, after.lookahead = some token ∧ token.kind.isTerminator = false ∧
      token.kind.endsStatements = true := by
  obtain ⟨span, ahead⟩ := read.seen.ended
  exact ⟨_, ahead, ends.stops⟩

theorem statements_nested_call (begun : State) (total : Nat) : NestedStatements begun total 0 := by
  intro before rest entered kind ended depth ends ahead
  refine statements_of_closed (peekKind_name ahead.left ahead.unseen ahead.mode
    (callName_endsAt ends) ahead.named) ?_ (nested_stops ends)
  intro token current seen _ name
  exact statement_nested_call ends ahead name seen

theorem statements_nested_around (inner : NestedStatements begun total count) :
    NestedStatements begun total (count + 1) := by
  intro before rest entered kind ended depth ends ahead
  have text := ahead.left.text.trans (nestedText_around count rest)
  have peeks : Yields (Parse.table depth) peekKind before (fun kind after => ∃ token,
      kind = token.kind ∧ kind.opensOperand = true ∧ after.lookahead = some token ∧
        before.StringBegun after) (NoLevel begun total) := by
    refine Yields.bind (peekToken_knows ahead.unseen (by nofun)
      (Scan.stringBegin_yields ahead.left.idle ahead.mode ahead.starts text)) ?_
    rintro _ after ⟨rfl, rfl⟩
    exact yields_pure ⟨_, rfl, rfl, rfl, _, _, rfl, rfl⟩
  refine statements_of_closed peeks ?_ (nested_stops ends)
  intro token current _ _ started
  exact statement_nested inner ends ahead started

/-- The strings are read one in the other, or the parse ends where there is no room for a
level. -/
theorem statements_nested (begun : State) (total count : Nat) :
    NestedStatements begun total count := by
  induction count with
  | zero => exact statements_nested_call begun total
  | succ count ih => exact statements_nested_around ih

end Parse

/-- The openings of all strings stand before the call, and their ends after it. -/
theorem nestedText_eq (count : Nat) :
    nestedText count = (List.replicate count [0x22, 0x23, 0x7B]).flatten ++
      (ascii "x" ++ (List.replicate count [0x7D, 0x22]).flatten) := by
  induction count with
  | zero => rfl
  | succ count ih =>
      rw [nestedText, ih, List.replicate_succ, List.replicate_succ']
      simp only [List.flatten_cons, List.flatten_append, List.flatten_nil, List.append_assoc,
        List.append_nil]

theorem State.start_nestedAhead {count : Nat} {options : ParseOptions} {symbols : SymbolTable}
    (unknown : (symbols.intern callName.text).1 ∉ options.locals) (named : 0 < options.tokenMax)
    (room : 2 * count + 2 ≤ options.maxNodes) :
    let begun := State.start (nestedText count) options symbols
    NestedAhead begun count count [] [] begun where
  unseen := rfl
  left := (List.append_nil (nestedText count)).symm ▸ State.start_left _ options symbols
  mode := rfl
  starts := rfl
  level := Nat.zero_add _
  allowed := Nat.zero_le _
  contexts := rfl
  position := rfl
  room := State.start_room (by omega)
  limits := rfl
  report := rfl
  named := named
  unknown := (State.start_isLocal ..).trans (decide_eq_false unknown)

/-- Strings in the code of strings are read as such if there are fewer than levels, and
otherwise the parse ends where the first statement starts that has no room. -/
theorem parse_nested (count : Nat) (options : ParseOptions) (symbols : SymbolTable)
    (unknown : (symbols.intern (ascii "x")).1 ∉ options.locals) (named : 0 < options.tokenMax)
    (room : 2 * count + 2 ≤ options.maxNodes) :
    let parsed := parse ((List.replicate count [0x22, 0x23, 0x7B]).flatten ++
      (ascii "x" ++ (List.replicate count [0x7D, 0x22]).flatten)) options symbols
    if count < options.maxDepth then
      parsed.Clean ∧ ∃ id, parsed.statements? = some [id] ∧
        NestedNode parsed.arena parsed.symbols count id
    else
      parsed.fatal = some (.nestingTooDeep options.maxDepth (3 * options.maxDepth)) ∧
        parsed.tree = none ∧ parsed.report.errors = 1 := by
  rw [← nestedText_eq]
  let begun := State.start (nestedText count) options symbols
  have ahead : NestedAhead begun count count [] [] begun :=
    State.start_nestedAhead unknown named room
  have statements : ∀ depth, Parse.Yields (Parse.table depth) Parse.statements begun
      (fun body after => ∃ id, body = some id ∧ (NestedNode after.arena after.symbols count id ∧
        count < options.maxDepth) ∧ begun.EndSeen (2 * count + 1) after) (NoLevel begun count) := by
    intro depth
    refine (Parse.statements_nested begun count count depth endsWith_end ahead).mono ?_
    rintro body after ⟨id, same, read⟩
    exact ⟨id, same, ⟨read.node, read.shallow⟩, read.seen⟩
  have space : begun.Room (2 * count + 1 + 1) := by
    change 0 + (2 * count + 1 + 1) ≤ options.maxNodes
    omega
  rcases parse_of_statements statements space fun id after read => read.1.noList with
    ⟨fatal, quiet, id, state, after, ⟨node, shallow⟩, builds, only, arena, names⟩ |
      ⟨error, after, ⟨full, rfl, quiet⟩, same⟩
  · rw [if_pos shallow]
    refine ⟨.of_quiet fatal quiet, id, only, ?_⟩
    rw [arena, names]
    exact node.kept builds.toGains
  · have deep : ¬count < options.maxDepth := Nat.not_lt.mpr full
    rw [if_neg deep, same]
    refine ⟨rfl, rfl, ?_⟩
    change (after.report.add _ _).errors = 1
    rw [Report.add_eq, quiet]
    rfl

/-- Two strings around the call need room for three levels. -/
theorem parse_nested_two :
    let options : ParseOptions := { maxDepth := 3 }
    let tight : ParseOptions := { options with maxDepth := 2 }
    (({} : SymbolTable).intern (ascii "x")).1 ∉ options.locals ∧ 0 < options.tokenMax ∧
      2 * 2 + 2 ≤ options.maxNodes ∧
      (let parsed := parse (nestedText 2) options {}
      parsed.Clean ∧ ∃ id, parsed.statements? = some [id] ∧
        NestedNode parsed.arena parsed.symbols 2 id) ∧
      let parsed := parse (nestedText 2) tight {}
      parsed.fatal = some (.nestingTooDeep 2 6) ∧ parsed.tree = none ∧
        parsed.report.errors = 1 := by
  intro options tight
  have unknown : (({} : SymbolTable).intern (ascii "x")).1 ∉ options.locals := by decide
  have read := parse_nested 2 options {} unknown (by decide) (by decide)
  have full := parse_nested 2 tight {} unknown (by decide) (by decide)
  rw [← nestedText_eq] at read full
  dsimp only at read full
  rw [if_pos (by decide)] at read
  rw [if_neg (by decide)] at full
  exact ⟨unknown, by decide, by decide, read, full⟩

end RubySyntax
