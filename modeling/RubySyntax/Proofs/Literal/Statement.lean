/-
Strings as statements.

A string of which the pieces are known is stored as one node. Where nothing goes on with it,
it is an operand, and the whole of its statement.
-/

import RubySyntax.Proofs.Literal.Token
import RubySyntax.Proofs.Reading.Statement

namespace RubySyntax

def textTokens (start : Nat) (text value : Bytes) : List Token :=
  (if text = [] then [] else [⟨.content value false, ⟨start, start + text.length⟩⟩]) ++
    [⟨.literalEnd [], ⟨start + text.length, start + text.length + 1⟩⟩]

theorem textTokens_written {text : Bytes} (written : text ≠ []) (start : Nat) (value : Bytes) :
    textTokens start text value =
      ⟨.content value false, ⟨start, start + text.length⟩⟩ ::
        textTokens (start + text.length) [] [] := by
  rw [textTokens, if_neg written]
  rfl

structure State.TextSeen (before : State) (text value : Bytes) (after : State) : Prop where
  ahead : after.lookahead = some ⟨.literalEnd [],
    ⟨before.input.position + text.length, before.input.position + text.length + 1⟩⟩
  tokens : after.tokens.reverse =
    before.tokens.reverse ++ textTokens before.input.position text value
  input : after.input = before.input.advance (text.length + 1)
  lexer : after.lexer = { before.lexer with literal := none, mode := .operandEnd }
  proceeds : before.Proceeds after

structure State.AtClosing (state : State) (literal : Quotation) (rest : Bytes)
    (entered : List LexerContext := []) : Prop where
  unseen : state.lookahead = none
  within : state.lexer.Within literal entered
  kind : literal.kind = .string
  settled : literal.nesting = 0
  noLabel : literal.labelAllowed = false
  here : state.input.rest = literal.closing :: rest

theorem State.TextSeen.left {before after : State} {literal : Quotation} {text value rest : Bytes}
    {entered : List LexerContext} (seen : before.TextSeen text value after)
    (within : before.lexer.Within literal entered) (sound : before.input.Sound)
    (here : before.input.rest = text ++ literal.closing :: rest)
    (free : before.arena.FreeSound) (unlabelled : before.quotedKey = none) :
    after.Left rest entered := by
  obtain ⟨input, lexer, tokens, lookahead, previousStop, rfl⟩ := seen.proceeds
  have moved : input = before.input.advance (text.length + 1) := seen.input
  have mode : lexer = { before.lexer with literal := none, mode := .operandEnd } := seen.lexer
  subst moved mode
  refine ⟨within.between.change, ?_, ?_, free, unlabelled⟩
  · refine sound.advance ?_
    rw [here, List.length_append, List.length_cons]
    omega
  · change before.input.rest.drop _ = rest
    rw [here, ← List.drop_drop, List.drop_left]
    rfl

structure State.AtText (state : State) (literal : Quotation) (text value rest : Bytes)
    (entered : List LexerContext := []) (remarks : Remarks := []) : Prop where
  unseen : state.lookahead = none
  within : state.lexer.Within literal entered
  kind : literal.kind = .string
  noLabel : literal.labelAllowed = false
  holds : literal.Holds text value rest remarks
  short : value.length ≤ state.limits.tokenMax
  here : state.input.rest = text ++ literal.closing :: rest

theorem State.opened_atText {before after : State} {literal : Quotation}
    {opener text value rest : Bytes} {entered : List LexerContext} {remarks : Remarks}
    (left : before.Left (opener ++ (text ++ literal.closing :: rest)) entered)
    (kind : literal.kind = .string) (noLabel : literal.labelAllowed = false)
    (holds : literal.Holds text value rest remarks) (short : value.length ≤ before.limits.tokenMax)
    (unseen : after.lookahead = none)
    (input : after.input = (before.opened opener.length literal).input)
    (lexer : after.lexer = (before.opened opener.length literal).lexer)
    (limits : after.limits = before.limits) :
    after.AtText literal text value rest entered remarks where
  unseen := unseen
  within := by
    rw [lexer]
    exact State.opened_within _ literal left.idle
  kind := kind
  noLabel := noLabel
  holds := holds
  short := limits ▸ short
  here := by
    rw [input]
    change before.input.rest.drop opener.length = _
    rw [left.text, List.drop_left]

namespace Parse

variable {table : RuleTable} {depth : Nat} {state : State} {literal : Quotation}
  {text value rest : Bytes} {entered : List LexerContext} {remarks : Remarks}
  {opening span : Span} {excused : Fatal → State → Prop}

theorem peekToken_literalEnd (closing : state.AtClosing literal rest entered) :
    Yields table peekToken state (fun token after => after.lookahead = some token ∧
      token.kind = .literalEnd [] ∧ state.TextSeen [] [] after) excused := by
  refine (peekToken_knows closing.unseen (by nofun) (Scan.literalEnd_yields closing.within
    closing.kind closing.settled closing.noLabel closing.here)).mono ?_
  rintro _ _ ⟨rfl, rfl⟩
  exact ⟨rfl, rfl, rfl, List.reverse_cons .., rfl, rfl, _, _, _, _, _, rfl⟩

abbrev remarked (state : State) (remarks : Remarks) : State :=
  { state with report := state.report.addAt state.input.position remarks }

def textTaken (state : State) (last : Quotation) (text value : Bytes) : State :=
  let span : Span := ⟨state.input.position, state.input.position + text.length⟩
  { state with
    input := state.input.advance text.length
    lexer := { state.lexer with literal := some (.quotation { last with wordStarted := true }) }
    tokens := ⟨.content value false, span⟩ :: state.tokens
    lookahead := none
    previousStop := span.stop }

theorem peekToken_text {last : Quotation}
    (ahead : state.AtText literal text value rest entered remarks)
    (reads : literal.Reads (literal.closing :: rest) text value last remarks) (settled : last.nesting = 0)
    (written : text ≠ []) :
    let span : Span := ⟨state.input.position, state.input.position + text.length⟩
    Yields table peekToken state (fun token after => after.lookahead = some token ∧
      token = ⟨.content value false, span⟩ ∧
        { after with lookahead := none, previousStop := span.stop } =
          textTaken (remarked state remarks) last text value) excused := by
  obtain ⟨nesting, rfl⟩ := reads.keeps
  have noList : literal.kind.isList = false := by
    rw [ahead.kind]
    rfl
  have stops : Quotation.goesOnAt { literal with nesting } (literal.closing :: rest) = false :=
    Quotation.goesOnAt_closing settled rest
  refine (peekToken_knows ahead.unseen (by nofun) (Scan.textToken_yields ahead.within noList
    reads written stops (by nofun) ahead.short ahead.here)).mono ?_
  rintro _ _ ⟨rfl, rfl⟩
  exact ⟨rfl, rfl, rfl⟩

theorem textTaken_closing {last : Quotation}
    (ahead : state.AtText literal text value rest entered remarks)
    (reads : literal.Reads (literal.closing :: rest) text value last remarks)
    (settled : last.nesting = 0) :
    (textTaken (remarked state remarks) last text value).AtClosing { last with wordStarted := true } rest entered := by
  obtain ⟨nesting, rfl⟩ := reads.keeps
  refine ⟨rfl, ⟨rfl, ahead.within.between⟩, ahead.kind, settled, ahead.noLabel, ?_⟩
  change state.input.rest.drop text.length = _
  rw [ahead.here, List.drop_left]

theorem literalParts_text (ahead : state.AtText literal text value rest entered remarks) :
    Yields table literalParts state (fun parts after => ∃ span,
      parts = (if text = [] then [] else [.text value span false]) ∧
        (remarked state remarks).TextSeen text value after) excused := by
  obtain ⟨last, reads, settled⟩ := ahead.holds
  let span : Span := ⟨state.input.position, state.input.position + text.length⟩
  refine Yields.bind (repeatUntil_yields (fun parts current =>
      (parts = #[] ∧ current = state) ∨
        (text ≠ [] ∧ parts = #[.text value span false] ∧
          current = textTaken (remarked state remarks) last text value))
    (fun parts after => parts.toList = (if text = [] then [] else [.text value span false]) ∧
      (remarked state remarks).TextSeen text value after) (.inl ⟨rfl, rfl⟩) ?_) fun parts after read => ?_
  · rintro _ current (⟨rfl, rfl⟩ | ⟨written, rfl, rfl⟩)
    · by_cases empty : text = []
      · subst empty
        cases reads
        have closing : current.AtClosing literal rest entered :=
          ⟨ahead.unseen, ahead.within, ahead.kind, settled, ahead.noLabel, ahead.here⟩
        refine (peekToken_literalEnd closing).bind ?_
        rintro ⟨_, place⟩ after ⟨-, rfl, seen⟩
        exact yields_pure ⟨rfl, seen⟩
      · refine (peekToken_text ahead reads settled empty).bind ?_
        rintro _ after ⟨seen, rfl, taken⟩
        refine Yields.skip_bind seen (yields_pure (.inr ⟨empty, rfl, taken⟩))
    · refine (peekToken_literalEnd (textTaken_closing ahead reads settled)).bind ?_
      rintro ⟨_, place⟩ after ⟨-, rfl, seen⟩
      have proceeds : (remarked state remarks).Proceeds
          (textTaken (remarked state remarks) last text value) := ⟨_, _, _, _, _, rfl⟩
      refine yields_pure ⟨(if_neg written).symm, seen.ahead, ?_, ?_, ?_,
        proceeds.trans seen.proceeds⟩
      · rw [seen.tokens, textTokens_written written]
        change (_ :: state.tokens).reverse ++ _ = _
        rw [List.reverse_cons, List.append_assoc]
        rfl
      · rw [seen.input]
        exact Input.advance_advance ..
      · rw [seen.lexer]
        rfl
  · obtain ⟨same, seen⟩ := read
    exact yields_pure ⟨span, same, seen⟩

/-! ### Code -/

theorem interpolatedCode_group {code : Option NodeId → State → Prop}
    (ahead : state.lookahead = some ⟨.interpolationBegin, span⟩)
    (yields : ∀ depth, Yields (Parse.table depth) statements
      { state with lookahead := none, previousStop := span.stop } (fun body after =>
        (∃ span, after.lookahead = some ⟨.interpolationEnd, span⟩) ∧ after.arena.FreeSound ∧
          after.Room 1 ∧ code body after) excused) :
    Yields (Parse.table depth) interpolatedCode state (fun id after => ∃ body middle stop,
      code body middle ∧ State.Stores { middle with lookahead := none, previousStop := stop }
        (.optional .group body) id after) excused := by
  refine Yields.take_bind ahead ((descend_yields .statements yields depth).bind ?_)
  rintro body middle ⟨⟨span, ends⟩, free, room, whole⟩
  have closed : Yields (Parse.table depth) (expect .interpolationEnd) middle
      (fun place after => place = span ∧
        after = { middle with lookahead := none, previousStop := span.stop }) excused := by
    refine Yields.peek_bind ends ?_
    rw [if_pos (decide_eq_true rfl)]
    exact Yields.skip_bind ends (yields_pure ⟨rfl, rfl⟩)
  refine closed.bind ?_
  rintro place _ ⟨rfl, rfl⟩
  let taken : State := { middle with lookahead := none, previousStop := place.stop }
  have free : taken.arena.FreeSound := free
  have room : taken.Room 1 := room
  have stores := Scan.alloc_succeeds free room (.optional .group body) (span.hull place)
  refine yields_lift (stores.unexcused.mono ?_)
  intro id after stored
  exact ⟨body, middle, _, whole, stored⟩

theorem literalParts_code {begun : State → Prop} {code : NodeId → State → Prop}
    (peeks : Yields table peekToken state (fun token after =>
      token.kind = .interpolationBegin ∧ begun after) excused)
    (yields : ∀ current, begun current → Yields table interpolatedCode current
      (fun group after => ∃ literal, after.AtClosing literal rest entered ∧ code group after)
      excused) :
    Yields table literalParts state (fun parts after => ∃ group middle literal,
      parts = [.code group] ∧ middle.AtClosing literal rest entered ∧ code group middle ∧
        middle.TextSeen [] [] after) excused := by
  refine Yields.bind (repeatUntil_yields (fun (parts : Array Part) current =>
      (parts = #[] ∧ current = state) ∨ ∃ group literal, parts = #[.code group] ∧
        current.AtClosing literal rest entered ∧ code group current)
    (fun parts after => ∃ group middle literal, parts = #[.code group] ∧
      middle.AtClosing literal rest entered ∧ code group middle ∧ middle.TextSeen [] [] after)
    (.inl ⟨rfl, rfl⟩) ?_) ?_
  · rintro _ current (⟨rfl, rfl⟩ | ⟨group, literal, rfl, closing, whole⟩)
    · refine peeks.bind ?_
      rintro ⟨_, place⟩ opened ⟨rfl, begun⟩
      refine (yields opened begun).bind ?_
      rintro group after ⟨literal, closing, whole⟩
      exact yields_pure (.inr ⟨group, literal, rfl, closing, whole⟩)
    · refine (peekToken_literalEnd closing).bind ?_
      rintro ⟨_, place⟩ after ⟨-, rfl, seen⟩
      exact yields_pure ⟨group, current, literal, rfl, closing, whole, seen⟩
  · rintro _ after ⟨group, middle, literal, rfl, whole⟩
    exact yields_pure ⟨group, middle, literal, rfl, whole⟩

/-! ### Nodes -/

structure PartsRead (begun : State) (nodes : Nat) (rest : Bytes) (entered : List LexerContext)
    (parts : List Part) (shape : Shape NodeId) (after : State) : Prop where
  ahead : ∃ span, after.lookahead = some ⟨.literalEnd [], span⟩
  shapes : ∀ current, Scan.Succeeds (Scan.literalShape .string parts "") current
    fun given reached => given = shape ∧ reached = current
  left : after.Left rest entered
  mode : after.lexer.mode = .operandEnd
  builds : begun.Builds nodes after

/-- After the end of a string is read nothing is left of it but its pieces. -/
theorem partsRead_of_seen {begun before after : State} {nodes : Nat} {parts : List Part}
    {shape : Shape NodeId} (seen : before.TextSeen text value after)
    (within : before.lexer.Within literal entered) (sound : before.input.Sound)
    (here : before.input.rest = text ++ literal.closing :: rest)
    (free : before.arena.FreeSound) (unlabelled : before.quotedKey = none)
    (builds : begun.Builds nodes before)
    (shapes : ∀ current, Scan.Succeeds (Scan.literalShape .string parts "") current
      fun given reached => given = shape ∧ reached = current) :
    PartsRead begun nodes rest entered parts shape after where
  ahead := ⟨_, seen.ahead⟩
  shapes := shapes
  left := seen.left within sound here free unlabelled
  mode := by rw [seen.lexer]
  builds := builds.trans seen.proceeds.builds

theorem quoted_of_parts {begun : State} {nodes : Nat} {pieces : Shape NodeId → State → Prop}
    (yields : Yields table literalParts state (fun parts after => ∃ shape,
      PartsRead begun nodes rest entered parts shape after ∧ pieces shape after) excused)
    (room : begun.Room (nodes + 1)) :
    Yields table (quoted opening .string) state (fun id after => ∃ shape middle,
      pieces shape middle ∧ middle.Builds 1 after ∧
        OperandStored begun (nodes + 1) shape rest entered id after) excused := by
  refine yields.bind ?_
  rintro parts middle ⟨shape, read, whole⟩
  obtain ⟨span, ahead⟩ := read.ahead
  refine Yields.peek_bind ahead (Yields.skip_bind ahead ?_)
  have noFlags : Utf8.read [] = "" := by decide
  rw [noFlags]
  refine Yields.lift_bind (read.shapes _).unexcused ?_
  rintro _ _ ⟨rfl, rfl⟩
  let taken : State := { middle with lookahead := none, previousStop := span.stop }
  have passed : middle.Builds 0 taken := .of_same rfl rfl rfl rfl rfl
  have left : taken.Left rest entered := read.left.alike read.left.idle rfl rfl rfl
  have stores := alloc_operand left read.mode rfl room (read.builds.trans passed)
  refine yields_lift ((stores _ _).unexcused.mono ?_)
  rintro id after ⟨stored, last⟩
  have added := passed.trans last
  rw [Nat.zero_add] at added
  exact ⟨_, middle, whole, added, stored⟩

theorem literalShape_text {parts : List Part}
    (given : parts = if text = [] then [] else [.text value span false])
    (empty : text = [] → value = []) :
    Scan.Succeeds (Scan.literalShape .string parts "") state fun shape after =>
      shape = .text .string value ∧ after = state := by
  subst given
  unfold Scan.literalShape
  by_cases none : text = []
  · rw [if_pos none, empty none]
    exact Scan.yields_pure ⟨rfl, rfl⟩
  · rw [if_neg none]
    cases value with
    | nil => exact Scan.yields_pure ⟨rfl, rfl⟩
    | cons byte more => exact Scan.yields_pure ⟨rfl, rfl⟩

theorem literalShape_code (group : NodeId) :
    Scan.Succeeds (Scan.literalShape .string [.code group] "") state fun shape after =>
      shape = .list .string [group] ∧ after = state :=
  Scan.yields_pure ⟨rfl, rfl⟩

theorem literal_of_quoted {begun read : NodeId → State → Prop}
    (ahead : state.lookahead = some ⟨.literalBegin .string, span⟩)
    (yields : Yields table (quoted span .string)
      { state with lookahead := none, previousStop := span.stop } begun excused)
    (peeks : ∀ id current, begun id current → current.quotedKey = none ∧
      Yields table peekToken current (fun token after =>
        token.kind ≠ .literalBegin .string ∧ read id after) excused) :
    Yields table (Parse.literal .string) state read excused := by
  refine Yields.take_bind ahead (yields.bind ?_)
  intro id current started
  obtain ⟨unlabelled, peeks⟩ := peeks id current started
  apply repeatUntil_yields (fun node reached => node = id ∧ reached = current)
  · exact ⟨rfl, rfl⟩
  rintro _ _ ⟨rfl, rfl⟩
  refine Yields.get_bind ?_
  simp only [unlabelled, Option.isSome_none, Bool.false_eq_true, if_false]
  refine peeks.bind ?_
  rintro token after ⟨other, whole⟩
  rw [if_pos (bne_iff_ne.mpr other)]
  exact yields_pure whole

theorem statement_of_delimited {kind : LiteralKind} {begun read : NodeId → State → Prop}
    (ahead : state.lookahead = some ⟨.literalBegin kind, span⟩)
    (shallow : state.depth < state.limits.maxDepth)
    (yields : ∀ depth, Yields (Parse.table depth) (Parse.literal kind)
      { state with depth := state.depth + 1 } begun excused)
    (peeks : ∀ depth id current, begun id current →
      Yields (Parse.table depth) peekKind current (fun kind after => ∃ token, kind = token.kind ∧
        after.lookahead = some token ∧ token.kind.closes = true ∧ after.quotedKey = none ∧
        read id { after with depth := after.depth - 1 }) excused) :
    Yields (Parse.table depth) statement state (Closed read) excused := by
  apply statement_closed ahead rfl
  intro depth
  apply negation_closed ahead rfl
  intro depth
  apply argumentOperand_closed ahead rfl shallow
  apply operand_closed
  intro depth
  have primary : Yields (Parse.table depth) primary { state with depth := state.depth + 1 }
      (fun operand after => ∃ id, operand = .node id ∧ begun id after) excused := by
    refine Yields.peek_bind ahead ((yields _).bind ?_)
    intro id after started
    exact yields_pure ⟨id, rfl, started⟩
  exact chain_closed primary (peeks depth)

theorem statement_of_literal {read : NodeId → State → Prop}
    (ahead : state.lookahead = some ⟨.literalBegin .string, span⟩)
    (shallow : state.depth < state.limits.maxDepth)
    (yields : ∀ depth, Yields (Parse.table depth) (Parse.literal .string)
      { state with depth := state.depth + 1 }
      (Closed fun id after => read id { after with depth := after.depth - 1 }) excused) :
    Yields (Parse.table depth) statement state (Closed read) excused := by
  apply statement_of_delimited ahead shallow yields
  intro depth id current closed
  obtain ⟨token, next, closes⟩ := closed.ahead
  exact Yields.peek_bind next
    (yields_pure ⟨token, rfl, next, closes, closed.unlabelled, closed.read⟩)

theorem literal_text (ahead : state.lookahead = some ⟨.literalBegin .string, span⟩)
    (next : State.AtText { state with lookahead := none, previousStop := span.stop } literal text
      value [] [] remarks)
    (sound : state.input.Sound) (free : state.arena.FreeSound) (unlabelled : state.quotedKey = none)
    (room : state.Room 1) :
    Succeeds table (Parse.literal .string) state (Closed fun id after =>
      after.arena.Shaped id (.text .string value) ∧
        (remarked state remarks).EndSeen 1 after) := by
  let taken : State := { state with lookahead := none, previousStop := span.stop }
  have empty : text = [] → value = [] := by
    rintro rfl
    obtain ⟨last, reads, -⟩ := next.holds
    cases reads
    rfl
  have passed : (remarked state remarks).Builds 0 (remarked taken remarks) :=
    .of_same rfl rfl rfl rfl rfl
  have parts : Succeeds table literalParts taken fun parts after => ∃ shape : Shape NodeId,
      PartsRead (remarked state remarks) 0 [] [] parts shape after ∧
        shape = .text .string value := by
    refine (literalParts_text next).mono ?_
    rintro parts after ⟨place, given, seen⟩
    exact ⟨_, partsRead_of_seen seen next.within sound next.here free unlabelled passed
      fun _ => literalShape_text given empty, rfl⟩
  refine literal_of_quoted ahead (quoted_of_parts parts room) ?_
  rintro id current ⟨_, middle, rfl, -, whole⟩
  refine ⟨whole.left.unlabelled,
    (peekToken_end whole.left whole.unseen (whole.mode ▸ ⟨rfl, rfl⟩)).mono ?_⟩
  rintro token after ⟨ahead, kind, same, ended⟩
  refine ⟨kind ▸ nofun, ⟨same ▸ whole.stored, ended.since whole.builds⟩, ended.unlabelled, ?_⟩
  exact ended.closes

theorem statement_text (ahead : state.lookahead = some ⟨.literalBegin .string, span⟩)
    (next : State.AtText { state with lookahead := none } literal text value [] [] remarks)
    (sound : state.input.Sound) (free : state.arena.FreeSound) (unlabelled : state.quotedKey = none)
    (room : state.Room 1) (shallow : state.depth < state.limits.maxDepth) :
    Succeeds (Parse.table depth) statement state (Closed fun id after =>
      after.arena.Shaped id (.text .string value) ∧
        (remarked state remarks).EndSeen 1 after) := by
  apply statement_of_literal ahead shallow
  intro depth
  let deeper : State := { state with depth := state.depth + 1 }
  have next : State.AtText { deeper with lookahead := none, previousStop := span.stop } literal
      text value [] [] remarks :=
    ⟨rfl, next.within, next.kind, next.noLabel, next.holds, next.short, next.here⟩
  have ahead : deeper.lookahead = some ⟨.literalBegin .string, span⟩ := ahead
  refine (literal_text ahead next sound free unlabelled room).mono ?_
  rintro id after ⟨⟨stored, ended⟩, unlabelled, closes⟩
  exact ⟨⟨stored, ended.shallower⟩, unlabelled, closes⟩

/-- A program that starts with the opener of a literal starts with an operand. -/
theorem peekKind_opener {reached : State} {kind : LiteralKind}
    (unseen : state.lookahead = none)
    (opens : Scan.Succeeds Scan.nextToken state fun token after =>
      token = ⟨.literalBegin kind, span⟩ ∧ after = reached) :
    Succeeds table peekKind state fun given after => ∃ token, given = token.kind ∧
      given.opensOperand = true ∧ after.lookahead = some token ∧
        after = { reached with
          tokens := ⟨.literalBegin kind, span⟩ :: reached.tokens
          lookahead := some ⟨.literalBegin kind, span⟩ } := by
  refine (peekToken_knows unseen (by nofun) opens).bind ?_
  rintro _ _ ⟨rfl, rfl⟩
  exact yields_pure ⟨_, rfl, rfl, rfl, rfl⟩

end Parse

/-- A program that is one string of one text. All that is reported are the remarks on the
text. -/
theorem parse_remarked_text (opener : Bytes) {text value source : Bytes} {remarks : Remarks}
    {literal : Quotation} {options : ParseOptions} {symbols : SymbolTable}
    (spelled : source = opener ++ (text ++ [literal.closing]))
    (opens : Scan.Succeeds Scan.nextToken (State.start source options symbols) fun token after =>
      token = ⟨.literalBegin .string, ⟨0, opener.length⟩⟩ ∧
        after = (State.start source options symbols).opened opener.length literal)
    (kind : literal.kind = .string) (noLabel : literal.labelAllowed = false)
    (holds : literal.Holds text value [] remarks) (short : value.length ≤ options.tokenMax)
    (deep : 0 < options.maxDepth) (room : 2 ≤ options.maxNodes) :
    let parsed := parse source options symbols
    parsed.fatal = none ∧
      parsed.report = (State.start source options symbols).report.addAt opener.length remarks ∧
      ∃ id, parsed.statements? = some [id] ∧ parsed.arena.Shaped id (.text .string value) := by
  let begun := State.start source options symbols
  let span : Span := ⟨0, opener.length⟩
  let seen : State := { begun.opened opener.length literal with
    tokens := [⟨.literalBegin .string, span⟩]
    lookahead := some ⟨.literalBegin .string, span⟩ }
  have left : begun.Left (opener ++ (text ++ [literal.closing])) :=
    spelled ▸ State.start_left source options symbols
  have next : State.AtText { seen with lookahead := none } literal text value [] [] remarks :=
    State.opened_atText left kind noLabel holds short rfl rfl rfl rfl
  have sound : seen.input.Sound := by
    refine left.sound.advance ?_
    rw [left.text, List.length_append]
    exact Nat.le_add_right ..
  let remarked : State := { begun with report := begun.report.addAt opener.length remarks }
  have same : Parse.remarked seen remarks =
      { seen with report := begun.report.addAt opener.length remarks } := by
    have position : seen.input.position = opener.length := Nat.zero_add _
    rw [Parse.remarked, position]
    rfl
  have passed : remarked.Builds 0 (Parse.remarked seen remarks) := by
    rw [same]
    exact .of_same rfl rfl rfl rfl rfl
  have space : remarked.Room 2 := by
    change 0 + 2 ≤ options.maxNodes
    omega
  have peeks : ∀ table, Parse.Succeeds table Parse.peekKind begun fun kind after => ∃ token,
      kind = token.kind ∧ kind.opensOperand = true ∧ after.lookahead = some token ∧
        after = seen :=
    fun _ => Parse.peekKind_opener rfl opens
  have yields : ∀ depth token current, current.lookahead = some token →
      token.kind.opensOperand = true → current = seen →
      Parse.Succeeds (Parse.table depth) Parse.statement current (Closed fun id after =>
        after.arena.Shaped id (.text .string value) ∧ remarked.EndSeen 1 after) := by
    rintro depth _ _ - - rfl
    refine (Parse.statement_text rfl next sound left.free rfl (space.of_le (by decide))
      deep).mono ?_
    rintro id after ⟨⟨stored, ended⟩, unlabelled, closes⟩
    exact ⟨⟨stored, ended.since passed⟩, unlabelled, closes⟩
  obtain ⟨fatal, reported, id, state, after, stored, builds, only, arena, -⟩ :=
    parse_statement peeks yields space
      fun id after stored => ⟨_, stored, nofun⟩
  exact ⟨fatal, reported, id, only, arena ▸ builds.shaped stored⟩

/-- Nothing is reported if there are no remarks on the text. -/
theorem parse_text (opener : Bytes) {text value source : Bytes} {literal : Quotation}
    {options : ParseOptions} {symbols : SymbolTable}
    (spelled : source = opener ++ (text ++ [literal.closing]))
    (opens : Scan.Succeeds Scan.nextToken (State.start source options symbols) fun token after =>
      token = ⟨.literalBegin .string, ⟨0, opener.length⟩⟩ ∧
        after = (State.start source options symbols).opened opener.length literal)
    (kind : literal.kind = .string) (noLabel : literal.labelAllowed = false)
    (holds : literal.Holds text value []) (short : value.length ≤ options.tokenMax)
    (deep : 0 < options.maxDepth) (room : 2 ≤ options.maxNodes) :
    let parsed := parse source options symbols
    parsed.Clean ∧ ∃ id, parsed.statements? = some [id] ∧
      parsed.arena.Shaped id (.text .string value) := by
  obtain ⟨fatal, quiet, whole⟩ :=
    parse_remarked_text opener spelled opens kind noLabel holds short deep room
  exact ⟨.of_quiet fatal quiet, whole⟩

end RubySyntax
