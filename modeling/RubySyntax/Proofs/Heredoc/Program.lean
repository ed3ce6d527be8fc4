/-
Programs of one line and the heredocs that it opens.

The statement of the line is read first, and its heredocs are empty. When its end has
been taken the bodies are read, and the input ends after them.
-/

import RubySyntax.Proofs.Heredoc.Fill
import RubySyntax.Proofs.Reading.Program

namespace RubySyntax

/-- What is stored as something other than an empty text stays while texts are filled in. -/
theorem State.Fills.shaped {before after : State} {placeholders : List Placeholder}
    (fills : before.Fills placeholders after) (awaits : before.arena.Awaits placeholders)
    {id : NodeId} {shape : Shape NodeId} (stored : before.arena.Shaped id shape)
    (other : shape ≠ .text .string []) : after.arena.Shaped id shape := by
  obtain ⟨node, found, rfl⟩ := stored
  refine ⟨node, (fills.apart id fun member => other ?_).trans found, rfl⟩
  obtain ⟨placeholder, inside, rfl⟩ := List.mem_map.mp member
  obtain ⟨empty, same, shape⟩ := awaits.empty placeholder inside
  rw [found] at same
  rw [Option.some.inj same, shape]

structure LineEnded (before : State) (heredocs : List RawHeredoc) (nodes : Nat)
    (placeholders : List Placeholder) (after : State) : Prop where
  opened : placeholders.map Placeholder.heredoc = heredocs
  ended : after.AtLineEnd placeholders
  builds : before.Builds nodes after

namespace LineEnded

variable {before begun after : State} {heredocs : List RawHeredoc} {nodes : Nat}
  {placeholders : List Placeholder}

theorem shallower
    (line : LineEnded { before with depth := before.depth + 1 } heredocs nodes placeholders after) :
    LineEnded before heredocs nodes placeholders { after with depth := after.depth - 1 } :=
  ⟨line.opened, line.ended.shallower, line.builds.shallower⟩

theorem since (line : LineEnded begun heredocs nodes placeholders after)
    (looked : before.Builds 0 begun) : LineEnded before heredocs nodes placeholders after := by
  have builds := looked.trans line.builds
  rw [Nat.zero_add] at builds
  exact ⟨line.opened, line.ended, builds⟩

end LineEnded

namespace Parse

variable {table : RuleTable} {depth nodes : Nat} {state : State} {heredocs : List RawHeredoc}
  {placeholders : List Placeholder} {begun : State → Prop}
  {stored : List Placeholder → NodeId → State → Prop} {excused : Fatal → State → Prop}

/-- The end of the line is passed over, and the bodies after it are read. -/
theorem skipTerminators_lineEnd (ended : state.AtLineEnd placeholders)
    (short : ∀ placeholder ∈ placeholders, placeholder.heredoc.Short state.limits.tokenMax) :
    Yields (Parse.table depth) skipTerminators state (fun _ after => ∃ token,
      after.lookahead = some token ∧ token.kind = .endOfInput ∧ state.Fills placeholders after)
      excused := by
  obtain ⟨span, ahead⟩ := ended.newline
  apply repeatUntil_yields (fun _ current => current = state ∨
    current = { state with lookahead := none, previousStop := span.stop })
  · exact .inl rfl
  rintro _ current (rfl | rfl)
  · exact Yields.peekKind_bind ahead (Yields.skip_bind ahead (yields_pure (.inr rfl)))
  · have last : Yields (Parse.table depth) peekKind
        { state with lookahead := none, previousStop := span.stop } (fun kind after =>
          kind = .endOfInput ∧ ∃ token, after.lookahead = some token ∧ token.kind = .endOfInput ∧
            state.Fills placeholders after) excused :=
      (peekToken_bodies ended short span.stop).bind fun token after seen =>
        yields_pure ⟨seen.2.1, token, seen⟩
    refine last.bind ?_
    rintro _ after ⟨rfl, seen⟩
    exact yields_pure seen

/-- The statement of the line is the only one, and in the end its heredocs hold their texts. -/
theorem statements_line
    (peeks : Succeeds (Parse.table depth) peekKind state fun kind after => ∃ token,
      kind = token.kind ∧ kind.opensOperand = true ∧ after.lookahead = some token ∧ begun after)
    (yields : ∀ token current, current.lookahead = some token →
      token.kind.opensOperand = true → begun current →
      Succeeds (Parse.table depth) statement current (Closed fun id after => ∃ placeholders,
        LineEnded state heredocs nodes placeholders after ∧ stored placeholders id after))
    (short : ∀ heredoc ∈ heredocs, heredoc.Short state.limits.tokenMax)
    (room : state.Room (nodes + 1)) :
    Succeeds (Parse.table depth) statements state fun body after =>
      (∃ id, body = some id ∧ ∃ placeholders middle,
        LineEnded state heredocs nodes placeholders middle ∧ stored placeholders id middle ∧
        middle.Fills placeholders after) ∧ after.Finished := by
  apply programStatements_single _ peeks yields
  · rintro id after ⟨placeholders, line, -⟩
    obtain ⟨span, next⟩ := line.ended.newline
    exact ⟨_, next, .inl rfl⟩
  · rintro id current ⟨placeholders, line, parts⟩
    have kept : ∀ placeholder ∈ placeholders,
        placeholder.heredoc.Short current.limits.tokenMax := by
      intro placeholder member
      rw [line.builds.limits]
      exact short _ (line.opened ▸ List.mem_map_of_mem member)
    refine (skipTerminators_lineEnd line.ended kept).mono ?_
    rintro _ after ⟨token, ahead, kind, fills⟩
    exact ⟨token, ahead, kind, placeholders, current, line, parts, fills⟩
  · rintro id after ⟨placeholders, middle, line, parts, fills⟩
    have left : after.Room 1 := by
      have room := room.after line.builds.toGains
      unfold State.Room at room ⊢
      rw [fills.live, fills.limit]
      exact room
    exact ⟨fills.free, left⟩

end Parse

/-! ### What a parse gives -/

theorem State.start_meets {lexemes : List Lexeme} {following source : Bytes}
    {options : ParseOptions} {symbols : SymbolTable}
    (text : source = Lexeme.textOf lexemes ++ 0x0A :: following)
    (fits : Lexeme.Fits options.tokenMax (0x0A :: following) lexemes .begin) :
    (State.start source options symbols).Meets lexemes following 0 [] where
  between := ⟨rfl, rfl, rfl, rfl, rfl, rfl, rfl, rfl⟩
  sound := (State.start_sound _ options symbols True).reads.input
  text := text
  fits := fits
  free := (Arena.sound_withLimit True options.maxNodes).free
  unlabelled := rfl

structure Parsed.Completes (parsed : Parsed) (placeholders : List Placeholder) (line : State) :
    Prop where
  filled : ∀ placeholder ∈ placeholders,
    parsed.arena.Shaped placeholder.node (.text .string placeholder.heredoc.value)
  kept : ∀ id shape, line.arena.Shaped id shape → shape ≠ .text .string [] →
    parsed.arena.Shaped id shape
  symbols : parsed.symbols = line.symbols

/-- A program of one line that starts with a name is read without diagnostics if its
statement is. -/
theorem parse_line {name : VariableName} {lexemes : List Lexeme} {following : Bytes}
    {options : ParseOptions} {symbols : SymbolTable} {heredocs : List RawHeredoc} {nodes : Nat}
    {stored : List Placeholder → NodeId → State → Prop}
    (fits : Lexeme.Fits options.tokenMax (0x0A :: following) (.name name :: lexemes) .begin)
    (named : name.text.length ≤ options.tokenMax) (shallow : 2 ≤ options.maxDepth)
    (reads : ∀ depth token current, current.lookahead = some token →
      (Lexeme.name name).Names current token.kind → current.Meets lexemes following 0 [] →
      name.text.length ≤ current.limits.tokenMax → current.Room nodes →
      current.depth + 2 ≤ current.limits.maxDepth →
      Parse.Succeeds (Parse.table depth) Parse.statement current (Closed fun id after =>
        ∃ placeholders, LineEnded current heredocs nodes placeholders after ∧
          stored placeholders id after))
    (single : ∀ placeholders id after, stored placeholders id after → ∃ shape,
      after.arena.Shaped id shape ∧ shape ≠ .text .string [] ∧
        ∀ others, shape ≠ .list .statements others)
    (short : ∀ heredoc ∈ heredocs, heredoc.Short options.tokenMax)
    (room : nodes + 1 ≤ options.maxNodes) :
    let parsed := parse (Lexeme.textOf (.name name :: lexemes) ++ 0x0A :: following) options symbols
    parsed.Clean ∧ ∃ id placeholders line, placeholders.map Placeholder.heredoc = heredocs ∧
      stored placeholders id line ∧ parsed.statements? = some [id] ∧
      parsed.Completes placeholders line := by
  let begun := State.start (Lexeme.textOf (.name name :: lexemes) ++ 0x0A :: following) options
    symbols
  have meets : begun.Meets (.name name :: lexemes) following 0 [] := State.start_meets rfl fits
  have space : begun.Room (nodes + 1) := State.start_room (by omega)
  let peeked (current : State) : Prop := ∃ token, current.lookahead = some token ∧
    (Lexeme.name name).Names current token.kind ∧ current.Meets lexemes following 0 [] ∧
    begun.Builds 0 current
  have peeks : ∀ table, Parse.Succeeds table Parse.peekKind begun fun kind after =>
      ∃ token, kind = token.kind ∧ kind.opensOperand = true ∧ after.lookahead = some token ∧
        peeked after := by
    intro table
    refine (Parse.peekKind_lexeme meets rfl).mono ?_
    rintro _ after ⟨⟨_, span⟩, rfl, seen, ⟨symbol, rfl, spelled⟩, ⟨start, meets⟩, -, looked⟩
    exact ⟨_, rfl, rfl, seen, _, seen, ⟨symbol, rfl, spelled⟩, meets, looked⟩
  have yields : ∀ depth token current, current.lookahead = some token →
      token.kind.opensOperand = true → peeked current →
      Parse.Succeeds (Parse.table depth) Parse.statement current (Closed fun id after =>
        ∃ placeholders, LineEnded begun heredocs nodes placeholders after ∧
          stored placeholders id after) := by
    rintro depth _ current - - ⟨token, seen, names, meets, looked⟩
    have kept : name.text.length ≤ current.limits.tokenMax := by
      rw [looked.limits]
      exact named
    have roomy : current.Room nodes := by
      have enough : begun.Room (0 + nodes) := space.of_le (by omega)
      exact enough.after looked.toGains
    have deep : current.depth + 2 ≤ current.limits.maxDepth := by
      rw [looked.depth, looked.limits]
      exact shallow
    refine (reads depth token current seen names meets kept roomy deep).mono ?_
    rintro id after ⟨⟨placeholders, line, parts⟩, unlabelled, following⟩
    exact ⟨⟨placeholders, line.since looked, parts⟩, unlabelled, following⟩
  obtain ⟨root, after, ⟨locals, _, finished, ⟨id, rfl, placeholders, line, read, parts, fills⟩,
    stores⟩, given⟩ := parse_succeeds fun depth => Parse.program_of_statements
      (Parse.statements_line (peeks (Parse.table depth)) (yields depth) short space)
  have kept : ∀ id shape, line.arena.Shaped id shape → shape ≠ .text .string [] →
      after.arena.Shaped id shape :=
    fun id shape stored other => stores.builds.shaped (fills.shaped read.ended.awaits stored other)
  have names : after.symbols = line.symbols := by
    obtain ⟨arena, rfl⟩ := stores.others
    exact fills.symbols
  have quiet : after.report = begun.report :=
    stores.builds.quiet.trans (fills.report.trans read.builds.quiet)
  rw [given]
  refine ⟨.of_quiet rfl quiet, id, placeholders, line, read.opened, parts, ?_,
    fun placeholder member => stores.builds.shaped (fills.filled placeholder member), kept, names⟩
  obtain ⟨shape, shaped, notEmpty, noList⟩ := single placeholders id line parts
  refine Parsed.statements_of_scope rfl stores.stored rfl ?_
  rintro _ ⟨⟩
  exact ⟨shape, kept id shape shaped notEmpty, noList⟩

end RubySyntax
