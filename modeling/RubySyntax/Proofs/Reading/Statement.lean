/-
Programs of one statement.

What is left of the text, and what has been seen of its end, are the same for all programs
whose only statement is read off it token by token.
-/

import RubySyntax.Proofs.Nesting.Program
import RubySyntax.Proofs.Reading.Program

namespace RubySyntax

/-! ### What is left of the program -/

structure State.Left (state : State) (text : Bytes) (entered : List LexerContext := [])
    (nesting : Nat := 0) (constructs : Nat := 0) : Prop where
  idle : state.lexer.Between nesting [] entered constructs
  sound : state.input.Sound
  text : state.input.rest = text
  free : state.arena.FreeSound
  unlabelled : state.quotedKey = none

namespace State.Left

variable {before reached state : State} {text more : Bytes} {entered : List LexerContext}
  {nesting inner constructs : Nat}

theorem after (left : before.Left (text ++ more) entered nesting constructs)
    (read : before.TokenRead text reached inner [] entered constructs) :
    reached.Left more entered inner constructs where
  idle := read.between
  sound := by
    rw [read.input]
    refine left.sound.advance ?_
    rw [left.text, List.length_append]
    exact Nat.le_add_right ..
  text := by
    rw [read.input, Input.advance, left.text, List.drop_left]
  free := by
    obtain ⟨input, lexer, report, symbols, rfl⟩ := read.others
    exact left.free
  unlabelled := by
    obtain ⟨input, lexer, report, symbols, rfl⟩ := read.others
    exact left.unlabelled

theorem alike (left : before.Left text entered nesting constructs)
    (idle : reached.lexer.Between nesting [] entered constructs)
    (input : reached.input = before.input) (arena : reached.arena = before.arena)
    (key : reached.quotedKey = before.quotedKey) :
    reached.Left text entered nesting constructs :=
  ⟨idle, input ▸ left.sound, input ▸ left.text, arena ▸ left.free, key.trans left.unlabelled⟩

end State.Left

structure OperandStored (before : State) (nodes : Nat) (shape : Shape NodeId) (rest : Bytes)
    (entered : List LexerContext) (id : NodeId) (after : State) : Prop where
  stored : after.arena.Shaped id shape
  left : after.Left rest entered
  unseen : after.lookahead = none
  mode : after.lexer.mode = .operandEnd
  builds : before.Builds nodes after

structure State.EndSeen (before : State) (nodes : Nat) (after : State)
    (kind : TokenKind := .endOfInput) : Prop where
  ended : ∃ span, after.lookahead = some ⟨kind, span⟩
  free : after.arena.FreeSound
  unlabelled : after.quotedKey = none
  builds : before.Builds nodes after

namespace State.EndSeen

variable {before middle after : State} {nodes : Nat} {kind : TokenKind}

theorem closes (seen : before.EndSeen nodes after) :
    ∃ token, after.lookahead = some token ∧ token.kind.closes = true := by
  obtain ⟨span, ahead⟩ := seen.ended
  exact ⟨_, ahead, rfl⟩

theorem shallower
    (seen : State.EndSeen { before with depth := before.depth + 1 } nodes after kind) :
    before.EndSeen nodes { after with depth := after.depth - 1 } kind :=
  ⟨seen.ended, seen.free, seen.unlabelled, seen.builds.shallower⟩

theorem since {begun : State} {more : Nat} (seen : before.EndSeen more after kind)
    (builds : begun.Builds nodes before) : begun.EndSeen (nodes + more) after kind :=
  ⟨seen.ended, seen.free, seen.unlabelled, builds.trans seen.builds⟩

theorem stored (seen : before.EndSeen nodes middle kind) {shape : Shape NodeId} {id : NodeId}
    (stores : middle.Stores shape id after) : before.EndSeen (nodes + 1) after kind := by
  have builds := seen.builds.trans stores.builds
  obtain ⟨⟨arena, rfl⟩, -, -, -, free⟩ := stores
  exact ⟨seen.ended, free, seen.unlabelled, builds⟩

end State.EndSeen

namespace Parse

variable {table : RuleTable} {depth : Nat} {state : State} {text more : Bytes}
  {entered : List LexerContext} {excused : Fatal → State → Prop}

theorem alloc_operand {begun : State} {nodes : Nat} (left : state.Left more entered)
    (mode : state.lexer.mode = .operandEnd) (unseen : state.lookahead = none)
    (room : begun.Room (nodes + 1)) (passed : begun.Builds nodes state) (shape : Shape NodeId)
    (span : Span) :
    Scan.Succeeds (Scan.alloc shape span) state fun id after =>
      OperandStored begun (nodes + 1) shape more entered id after ∧ state.Builds 1 after := by
  refine (Scan.alloc_succeeds left.free (room.after passed.toGains) _ span).mono ?_
  intro id after stores
  have builds := passed.trans stores.builds
  have last := stores.builds
  obtain ⟨⟨arena, rfl⟩, -, stored, -, free⟩ := stores
  exact ⟨⟨stored, ⟨left.idle, left.sound, left.text, free, left.unlabelled⟩, unseen, mode, builds⟩,
    last⟩

theorem peekToken_left {kind : TokenKind} {mode : Mode} {report : Report}
    (left : state.Left (text ++ more)) (unseen : state.lookahead = none)
    (reads : Scan.Succeeds Scan.nextToken state fun token after => token.kind = kind ∧
      after.report = report ∧ State.TextRead { state with report } text after ∧
        after.lexer.mode = mode)
    (other : kind ≠ .heredocBodies) :
    Succeeds table peekToken state fun token after => after.lookahead = some token ∧
      token.kind = kind ∧ after.Left more ∧ after.lexer.mode = mode ∧
        State.Builds { state with report } 0 after ∧ after.scopes = state.scopes := by
  have read : Scan.Succeeds Scan.nextToken state fun token after =>
      token.kind ≠ .heredocBodies ∧ token.kind = kind ∧ after.report = report ∧
        State.TextRead { state with report } text after ∧ after.lexer.mode = mode :=
    reads.mono fun token after holds => ⟨holds.1 ▸ other, holds⟩
  refine (peekToken_reads unseen read).mono ?_
  rintro token _ ⟨after, ⟨same, reported, ⟨⟨input, lexer, rfl⟩, moved, idle⟩, mode⟩, rfl⟩
  have begun : State.Left { state with report } (text ++ more) := left.alike left.idle rfl rfl rfl
  have rest := begun.after (State.TextRead.of_advance moved idle).tokenRead
  exact ⟨rfl, same, rest.alike rest.idle rfl rfl rfl, mode, .of_same rfl rfl rfl rfl rfl, rfl⟩

theorem peekToken_seen {kind : TokenKind} (ended : LexerState → Input → Prop)
    (free : state.arena.FreeSound) (unlabelled : state.quotedKey = none)
    (unseen : state.lookahead = none) (other : kind ≠ .heredocBodies)
    (reads : Scan.Yields Scan.nextToken state (fun token after =>
      token.kind = kind ∧ state.Reading after ∧ ended after.lexer after.input) excused) :
    Yields table peekToken state (fun token after => after.lookahead = some token ∧
      token.kind = kind ∧ after.arena = state.arena ∧ state.EndSeen 0 after kind ∧
        ended after.lexer after.input) excused := by
  have read : Scan.Yields Scan.nextToken state (fun token after =>
      token.kind ≠ .heredocBodies ∧ token.kind = kind ∧ state.Reading after ∧
        ended after.lexer after.input) excused :=
    reads.mono fun token after holds => ⟨holds.1 ▸ other, holds⟩
  refine (peekToken_reads unseen read).mono ?_
  rintro ⟨_, span⟩ _ ⟨_, ⟨rfl, ⟨input, lexer, rfl⟩, whole⟩, rfl⟩
  exact ⟨rfl, rfl, rfl, ⟨⟨span, rfl⟩, free, unlabelled, .of_same rfl rfl rfl rfl rfl⟩, whole⟩

theorem peekToken_end (left : state.Left []) (unseen : state.lookahead = none)
    (complete : state.lexer.mode.isBegin = false ∧ state.lexer.mode.namesMethod = false) :
    Yields table peekToken state (fun token after => after.lookahead = some token ∧
      token.kind = .endOfInput ∧ after.arena = state.arena ∧ state.EndSeen 0 after) excused := by
  have reads : Scan.Yields Scan.nextToken state (fun token after =>
      token.kind = .endOfInput ∧ state.Reading after ∧ True) excused :=
    (Scan.endToken_yields left.idle (.inl complete) left.text).mono
      fun token after holds => ⟨holds.1, ⟨_, holds.2⟩, trivial⟩
  refine (peekToken_seen (fun _ _ => True) left.free left.unlabelled unseen (by nofun)
    reads).mono ?_
  rintro token after ⟨ahead, kind, kept, seen, -⟩
  exact ⟨ahead, kind, kept, seen⟩

theorem peekKind_end (left : state.Left []) (unseen : state.lookahead = none)
    (mode : state.lexer.mode = .operandEnd) :
    Yields table peekKind state (fun kind after => ∃ span,
      kind = .endOfInput ∧ after.lookahead = some ⟨.endOfInput, span⟩ ∧
        after.arena = state.arena ∧ state.EndSeen 0 after) excused := by
  refine (peekToken_end left unseen (mode ▸ ⟨rfl, rfl⟩)).bind ?_
  rintro ⟨_, span⟩ after ⟨seen, rfl, kept, ended⟩
  exact yields_pure ⟨span, rfl, seen, kept, ended⟩

structure NameAhead (before : State) (name : VariableName) (more : Bytes)
    (entered : List LexerContext) (after : State) : Prop where
  seen : ∃ stop, after.lookahead = some
    ⟨.identifier (before.symbols.intern name.text).1, ⟨before.input.position, stop⟩⟩
  spelled : after.symbols.Spells (before.symbols.intern name.text).1 name.text
  left : after.Left more entered
  position : after.input.position = before.input.position + name.text.length
  scopes : after.scopes = before.scopes
  mode : after.lexer.mode = if before.scopes.isLocal (before.symbols.intern name.text).1
    then .operandEnd else .afterCallName before.lexer.statementStart
  builds : before.Builds 0 after

theorem peekKind_name {name : VariableName} (left : state.Left (name.text ++ more) entered)
    (unseen : state.lookahead = none) (mode : state.lexer.mode = .begin)
    (ends : name.EndsAt more) (short : name.text.length ≤ state.limits.tokenMax) :
    Yields table peekKind state (fun kind after => ∃ token, kind = token.kind ∧
      kind.opensOperand = true ∧ after.lookahead = some token ∧
        NameAhead state name more entered after) excused := by
  let symbol := (state.symbols.intern name.text).1
  have whole : name.text.take state.limits.tokenMax = name.text := List.take_of_length_le short
  have read : Scan.Yields Scan.nextToken state (fun token after =>
      token.kind ≠ .heredocBodies ∧ token.kind = .identifier symbol ∧
        token.span.start = state.input.position ∧ after.symbols.Spells symbol name.text ∧
        state.TokenRead name.text after 0 [] entered ∧
        after.lexer.mode = if state.scopes.isLocal symbol then .operandEnd
          else .afterCallName state.lexer.statementStart) excused := by
    refine (Scan.nameToken_yields [] left.idle left.sound (.inl rfl) (mode ▸ nofun) left.text
      ends).mono ?_
    rintro ⟨_, span⟩ after ⟨given, rfl, start, -, same, spelled, read, -, -, next⟩
    rw [whole] at same spelled
    rw [mode] at next
    subst same
    exact ⟨nofun, rfl, start, spelled, read, next⟩
  refine Yields.bind (peekToken_reads unseen read) ?_
  rintro ⟨_, _, stop⟩ _ ⟨after, ⟨rfl, rfl, spelled, read, mode⟩, rfl⟩
  have rest := left.after read
  obtain ⟨⟨input, lexer, report, symbols, rfl⟩, moved, -, grows, quiet⟩ := read
  have builds : state.Builds 0 { state with input, lexer, report, symbols } :=
    ⟨⟨grows, rfl, rfl, rfl, rfl⟩, quiet short⟩
  exact yields_pure ⟨_, rfl, rfl, rfl, ⟨stop, rfl⟩, spelled, rest.alike rest.idle rfl rfl rfl,
    congrArg Input.position moved, rfl, mode, builds.alike rfl rfl rfl rfl rfl⟩

end Parse

/-! ### The program -/

theorem State.start_isLocal (source : Bytes) (options : ParseOptions) (symbols : SymbolTable)
    (symbol : Symbol) :
    (State.start source options symbols).scopes.isLocal symbol =
      decide (symbol ∈ options.locals) := by
  change (options.locals.foldl ScopeStack.declare {}).isLocal symbol = _
  rw [ScopeStack.isLocal, ScopeStack.frames_foldl_declare _ _ rfl]
  simp [ScopeStack.declaredIn, ScopeKind.isTransparent]

theorem State.start_left (source : Bytes) (options : ParseOptions) (symbols : SymbolTable) :
    (State.start source options symbols).Left source where
  idle := ⟨rfl, rfl, rfl, rfl, rfl, rfl, rfl, rfl⟩
  sound := (State.start_sound _ options symbols True).reads.input
  text := rfl
  free := (Arena.sound_withLimit True options.maxNodes).free
  unlabelled := rfl

/-- What statements give, of which there is one and after which the end of the input has been
seen, is what the scope of a program holds, unless the parse ends in a fatal error. -/
theorem parse_scope {source : Bytes} {options : ParseOptions} {symbols : SymbolTable}
    {warned : State} {nodes : Nat} {read : NodeId → State → Prop}
    {excused : Fatal → State → Prop}
    (yields : ∀ depth, Parse.Yields (Parse.table depth) Parse.statements
      (State.start source options symbols) (fun body after => ∃ id, body = some id ∧
        read id after ∧ warned.EndSeen nodes after) excused)
    (room : warned.Room (nodes + 1)) :
    let parsed := parse source options symbols
    (parsed.fatal = none ∧ parsed.report = warned.report ∧ ∃ id root locals state after,
      read id state ∧ state.Stores (.scope locals (some id)) root after ∧
      parsed.tree = some root ∧ parsed.arena = after.arena ∧ parsed.symbols = after.symbols) ∨
    ∃ error after, excused error after ∧ parsed = Parsed.ofFatal after error := by
  have finished : ∀ depth, Parse.Yields (Parse.table depth) Parse.statements
      (State.start source options symbols) (fun body after => (∃ id, body = some id ∧
        read id after ∧ warned.EndSeen nodes after) ∧ after.Finished) excused := by
    intro depth
    refine (yields depth).mono ?_
    rintro _ after ⟨id, rfl, whole, seen⟩
    obtain ⟨span, ahead⟩ := seen.ended
    exact ⟨⟨id, rfl, whole, seen⟩, ⟨_, ahead, rfl⟩, seen.free, room.after seen.builds.toGains⟩
  rcases runProgram_yields fun depth => Parse.program_of_statements (finished depth) with
    ⟨root, after, ⟨locals, _, middle, ⟨id, rfl, whole, ended⟩, stores⟩, run⟩ |
      ⟨error, after, excuse, run⟩
  · left
    unfold parse
    rw [run]
    exact ⟨rfl, stores.builds.quiet.trans ended.builds.quiet, id, root, locals, middle, after,
      whole, stores, rfl, rfl, rfl⟩
  · right
    unfold parse
    rw [run]
    exact ⟨error, after, excuse, rfl⟩

/-- Such a statement is the only one of the program, unless it is a list itself. -/
theorem parse_of_statements {source : Bytes} {options : ParseOptions} {symbols : SymbolTable}
    {warned : State} {nodes : Nat} {read : NodeId → State → Prop}
    {excused : Fatal → State → Prop}
    (yields : ∀ depth, Parse.Yields (Parse.table depth) Parse.statements
      (State.start source options symbols) (fun body after => ∃ id, body = some id ∧
        read id after ∧ warned.EndSeen nodes after) excused)
    (room : warned.Room (nodes + 1))
    (single : ∀ id after, read id after → ∃ shape, after.arena.Shaped id shape ∧
      ∀ others, shape ≠ .list .statements others) :
    let parsed := parse source options symbols
    (parsed.fatal = none ∧ parsed.report = warned.report ∧ ∃ id state after,
      read id state ∧ state.Builds 1 after ∧ parsed.statements? = some [id] ∧
      parsed.arena = after.arena ∧ parsed.symbols = after.symbols) ∨
    ∃ error after, excused error after ∧ parsed = Parsed.ofFatal after error := by
  intro parsed
  rcases parse_scope yields room with
    ⟨fatal, quiet, id, root, locals, middle, after, whole, stores, tree, arena, names⟩ | ended
  · obtain ⟨shape, shaped, noList⟩ := single id middle whole
    refine .inl ⟨fatal, quiet, id, middle, after, whole, stores.builds, ?_, arena, names⟩
    refine Parsed.statements_of_scope tree (arena ▸ stores.stored) rfl ?_
    rintro _ ⟨⟩
    exact ⟨shape, arena ▸ stores.builds.shaped shaped, noList⟩
  · exact .inr ended

theorem parse_statement {source : Bytes} {options : ParseOptions} {symbols : SymbolTable}
    {warned : State} {nodes : Nat} {begun : State → Prop} {read : NodeId → State → Prop}
    (peeks : ∀ table, Parse.Succeeds table Parse.peekKind (State.start source options symbols)
      fun kind after => ∃ token, kind = token.kind ∧ kind.opensOperand = true ∧
        after.lookahead = some token ∧ begun after)
    (yields : ∀ depth token current, current.lookahead = some token →
      token.kind.opensOperand = true → begun current →
      Parse.Succeeds (Parse.table depth) Parse.statement current (Closed fun id after =>
        read id after ∧ warned.EndSeen nodes after))
    (room : warned.Room (nodes + 1))
    (single : ∀ id after, read id after → ∃ shape, after.arena.Shaped id shape ∧
      ∀ others, shape ≠ .list .statements others) :
    let parsed := parse source options symbols
    parsed.fatal = none ∧ parsed.report = warned.report ∧ ∃ id state after,
      read id state ∧ state.Builds 1 after ∧ parsed.statements? = some [id] ∧
      parsed.arena = after.arena ∧ parsed.symbols = after.symbols := by
  refine (parse_of_statements (fun depth => ?_) room single).resolve_right
    fun ⟨error, after, never, _⟩ => never
  apply Parse.statements_of_closed (peeks _) (yields depth)
  rintro id after ⟨-, seen⟩
  obtain ⟨span, ahead⟩ := seen.ended
  exact ⟨_, ahead, rfl, rfl⟩

end RubySyntax
