/-
The tokens of a literal between delimiters: its opener, its text and its end.
-/

import RubySyntax.Proofs.Literal.Text

namespace RubySyntax

/-- The lexer is in a literal between delimiters, and apart from that in the middle of
nothing but the interpolations that have been entered. -/
structure LexerState.Within (lexer : LexerState) (literal : Quotation)
    (entered : List LexerContext := []) : Prop where
  literal : lexer.literal = some (.quotation literal)
  between : LexerState.Between { lexer with literal := none } 0 [] entered

def State.opened (state : State) (width : Nat) (literal : Quotation) : State :=
  { state with
    input := state.input.advance width
    lexer := { state.lexer with
      statementStart := false
      afterArrow := false
      literal := some (.quotation literal) } }

theorem State.opened_within {state : State} {entered : List LexerContext} (width : Nat)
    (literal : Quotation) (between : state.lexer.Between 0 [] entered) :
    (state.opened width literal).lexer.Within literal entered :=
  ⟨rfl, rfl, between.heredocs, between.due, between.contexts, between.brackets, between.constructs,
    between.running, between.unmarked⟩

namespace Scan

variable {state : State} {literal last : Quotation} {text value rest : Bytes} {remarks : Remarks}
  {entered : List LexerContext} {post : Token → State → Prop} {excused : Fatal → State → Prop}

theorem nextToken_within (within : state.lexer.Within literal entered)
    (yields : Yields (quotation literal) state post excused) :
    Yields nextToken state post excused := by
  have unmarked : state.lexer.variablePending = false := within.between.unmarked
  refine Yields.get_bind ?_
  simp only [within.literal]
  refine Yields.get_bind ?_
  simp only [unmarked, Bool.false_eq_true, if_false]
  exact yields

theorem quotation_yields {byte : Byte} {more : Bytes} (noList : literal.kind.isList = false)
    (here : state.input.rest = byte :: more)
    (yields : Yields (if literal.closesAt byte then do
        advance 1
        closeLiteral literal state.input.position
      else
        match (if literal.interpolates then Interpolation.at? (byte :: more) else none) with
        | some kind => do
            setLiteral (some (.quotation { literal with wordStarted := true }))
            interpolation kind
        | none => literalText literal) state post excused) :
    Yields (quotation literal) state post excused := by
  have first : state.input.peekByte = byte := by
    rw [Input.peekByte, here]
    rfl
  refine Yields.position_bind ?_
  simp only [noList, Bool.false_and, Bool.false_eq_true, if_false, pure_bind]
  refine Yields.position_bind (Yields.hasMore_bind here (Yields.get_bind ?_))
  rw [first, here]
  exact yields

theorem literalText_yields (reads : literal.Reads rest text value last remarks)
    (written : text ≠ []) (stops : last.goesOnAt rest = false) (goesOn : rest ≠ [])
    (short : value.length ≤ state.limits.tokenMax) (here : state.input.rest = text ++ rest) :
    Yields (literalText literal) state (fun token after =>
      token = ⟨.content value false, ⟨state.input.position, state.input.position + text.length⟩⟩ ∧
        after = { state with
          input := state.input.advance text.length
          report := state.report.addAt state.input.position remarks
          lexer := { state.lexer with
            literal := some (.quotation { last with wordStarted := true }) } }) excused := by
  have length : text.length ≠ 0 := fun none => written (List.length_eq_zero_iff.mp none)
  refine Yields.position_bind ((gather_yields reads stops goesOn short here).bind ?_)
  rintro _ _ ⟨rfl, rfl⟩
  have moved : decide ((state.input.advance text.length).position = state.input.position) =
      false := by
    refine decide_eq_false ?_
    change state.input.position + text.length ≠ state.input.position
    omega
  refine Yields.position_bind ?_
  simp only [moved, Bool.and_false, Bool.false_eq_true, if_false]
  refine Yields.setLexer_bind (Yields.token_bind ?_)
  exact ⟨rfl, rfl⟩

/-- Such a token comes next in a literal that is no list. -/
theorem textToken_yields (within : state.lexer.Within literal entered)
    (noList : literal.kind.isList = false) (reads : literal.Reads rest text value last remarks)
    (written : text ≠ []) (stops : last.goesOnAt rest = false) (ends : rest ≠ [])
    (short : value.length ≤ state.limits.tokenMax) (here : state.input.rest = text ++ rest) :
    Yields nextToken state (fun token after =>
      token = ⟨.content value false, ⟨state.input.position, state.input.position + text.length⟩⟩ ∧
        after = { state with
          input := state.input.advance text.length
          report := state.report.addAt state.input.position remarks
          lexer := { state.lexer with
            literal := some (.quotation { last with wordStarted := true }) } }) excused := by
  obtain ⟨byte, more, first, goesOn⟩ := reads.goesOn written
  refine nextToken_within within (quotation_yields noList (here.trans first) ?_)
  simp only [Quotation.goesOnAt, Bool.and_eq_true, Bool.not_eq_true',
    Bool.or_eq_false_iff] at goesOn
  obtain ⟨⟨opens, -⟩, plain⟩ := goesOn
  have noCode :
      (if literal.interpolates then Interpolation.at? (byte :: more) else none) = none := by
    split
    · next interpolates =>
      rw [interpolates, Bool.true_and] at plain
      exact Option.isNone_iff_eq_none.mp (Option.not_isSome _ ▸ congrArg Bool.not plain)
    · rfl
  simp only [opens, noCode, Bool.false_eq_true, if_false]
  exact literalText_yields reads written stops ends short here

theorem literalEnd_yields (within : state.lexer.Within literal entered)
    (kind : literal.kind = .string) (settled : literal.nesting = 0)
    (noLabel : literal.labelAllowed = false)
    (here : state.input.rest = literal.closing :: rest) :
    Yields nextToken state (fun token after =>
      token = ⟨.literalEnd [], ⟨state.input.position, state.input.position + 1⟩⟩ ∧
        after = { state with
          input := state.input.advance 1
          lexer := { state.lexer with literal := none, mode := .operandEnd } }) excused := by
  have noList : literal.kind.isList = false := by
    rw [kind]
    rfl
  have closes : literal.closesAt literal.closing = true := by
    rw [Quotation.closesAt, settled, beq_self_eq_true]
    rfl
  have noRegexp : literal.kind ≠ .regexp := by
    intro same
    rw [kind] at same
    cases same
  refine nextToken_within within (quotation_yields noList here ?_)
  rw [if_pos closes]
  refine Yields.advance_bind (Yields.setLexer_bind (Yields.get_bind ?_))
  simp only [noRegexp, noLabel, Bool.false_and, Bool.false_eq_true, if_false]
  exact Yields.setLexer_bind (Yields.position_bind (yields_pure ⟨rfl, rfl⟩))

def quoteOf (interpolates : Bool) : Byte :=
  if interpolates then 0x22 else 0x27

theorem quoteBegin_yields (interpolates : Bool) (blanks : Bytes)
    (between : state.lexer.Between 0 [] entered)
    (noLabel : state.lexer.mode.allowsLabel state.lexer.statementStart = false)
    (blank : ∀ byte ∈ blanks, byte.isBlank = true)
    (here : state.input.rest = blanks ++ quoteOf interpolates :: rest) :
    let start := state.input.position + blanks.length
    Yields nextToken state (fun token after =>
      token = ⟨.literalBegin .string, ⟨start, start + 1⟩⟩ ∧
        after = state.opened (blanks.length + 1)
          { kind := .string
            interpolates
            closing := quoteOf interpolates
            start }) excused := by
  intro start
  have solid : (quoteOf interpolates).startsToken = true := by
    cases interpolates <;> rfl
  have left : (state.input.advance blanks.length).rest = quoteOf interpolates :: rest := by
    rw [Input.advance, here, List.drop_left]
  have byte : (state.input.advance blanks.length).peekByte = quoteOf interpolates := by
    rw [Input.peekByte, left]
    rfl
  have moved : (state.input.advance blanks.length).advance 1 =
      state.input.advance (blanks.length + 1) := Input.advance_advance ..
  refine nextToken_yields between (tokenTurn_spaced between.change
    (Space.length_blanks blank solid rest) solid here ?_)
  have marked : ∀ before : Surroundings,
      before.mode.allowsLabel before.statementStart = false →
      Yields (quoteMark before interpolates)
        { state with
          input := state.input.advance blanks.length
          lexer := { state.lexer with statementStart := false, afterArrow := false } }
        (fun token after => token = ⟨.literalBegin .string, ⟨start, start + 1⟩⟩ ∧
          after = state.opened (blanks.length + 1)
            { kind := .string
              interpolates
              closing := quoteOf interpolates
              start }) excused := by
    intro before unlabelled
    refine Yields.get_bind (Yields.advance_bind (Yields.setLexer_bind
      (Yields.position_bind (yields_pure ?_))))
    dsimp only
    rw [byte, unlabelled, moved]
    exact ⟨rfl, rfl⟩
  cases interpolates with
  | true =>
      have first : (state.input.advance blanks.length).peek = '"' := by
        rw [Input.peek, left]
        rfl
      refine tokenHere_yields left rfl rfl rfl (Yields.get_bind ?_)
      simp only [first, OperatorReading.of?]
      exact (marked _ noLabel).bind fun token after holds => yields_pure ⟨token, rfl, holds⟩
  | false =>
      have first : (state.input.advance blanks.length).peek = '\'' := by
        rw [Input.peek, left]
        rfl
      refine tokenHere_yields left rfl rfl rfl (Yields.get_bind ?_)
      simp only [first, OperatorReading.of?]
      exact (marked _ noLabel).bind fun token after holds => yields_pure ⟨token, rfl, holds⟩

theorem stringBegin_yields (between : state.lexer.Between 0 [] entered)
    (mode : state.lexer.mode = .begin) (starts : state.lexer.statementStart = true)
    (here : state.input.rest = 0x22 :: rest) :
    Yields nextToken state (fun token after =>
      token = ⟨.literalBegin .string, ⟨state.input.position, state.input.position + 1⟩⟩ ∧
        after = state.opened 1
          { kind := .string
            interpolates := true
            closing := 0x22
            start := state.input.position }) excused := by
  have noLabel : state.lexer.mode.allowsLabel state.lexer.statementStart = false := by
    rw [mode, starts]
    rfl
  exact quoteBegin_yields true [] between noLabel nofun here

theorem closingBracket?_mark (byte : Byte) :
    (closingBracket? byte).isSome = true → byte.isAlphanumeric = false := by
  revert byte
  exact Byte.forall_of_lt (by decide +kernel)

theorem percentMark_yields {letter opening closing : Byte} {kind : LiteralKind}
    {interpolates : Bool} (between : state.lexer.Between 0 [] entered)
    (mode : state.lexer.mode = .begin) (isWord : letter.isAlphanumeric = true)
    (named : percentKind? letter.char = some (kind, interpolates))
    (bracket : closingBracket? opening = some closing)
    (here : state.input.rest = 0x25 :: letter :: opening :: rest) :
    Yields nextToken state (fun token after =>
      token = ⟨.literalBegin kind, ⟨state.input.position, state.input.position + 3⟩⟩ ∧
        after = state.opened 3
          { kind
            interpolates
            opening := some opening
            closing
            percent := true
            start := state.input.position }) excused := by
  have notWord : opening.isAlphanumeric = false :=
    closingBracket?_mark opening (Option.isSome_of_eq_some bracket)
  refine nextToken_yields between (tokenTurn_yields between.change (.inl rfl) rfl here ?_)
  refine tokenHere_mark_yields here rfl rfl rfl rfl (Yields.get_bind ?_)
  simp only [List.length_nil, mode, Mode.isBegin, if_true]
  refine Yields.advance_bind (Yields.get_bind ?_)
  have left : ((state.input.advance 0).advance 1).rest = letter :: opening :: rest :=
    congrArg (List.drop 1) here
  have first : ((state.input.advance 0).advance 1).peekByte = letter := by
    rw [Input.peekByte, left]
    rfl
  have delimiter : (((state.input.advance 0).advance 1).advance 1).peekByte = opening := by
    rw [Input.peekByte, Input.advance, left]
    rfl
  simp only [first, isWord, if_true]
  refine Yields.advance_bind
    (Yields.hasMore_bind (congrArg (List.drop 1) left) (Yields.get_bind ?_))
  simp only [delimiter]
  refine Yields.advance_bind (Yields.position_bind ?_)
  simp only [notWord, named, bracket, Option.isNone_some, Bool.false_eq_true, if_false,
    Option.getD_some, Option.isSome_some, if_true]
  refine Yields.setLexer_bind (Yields.position_bind (yields_pure ?_))
  simp only [State.opened, mode, Input.advance_advance]
  exact ⟨rfl, rfl⟩

theorem percentBegin_yields {opening closing : Byte} (between : state.lexer.Between 0 [] entered)
    (mode : state.lexer.mode = .begin) (bracket : closingBracket? opening = some closing)
    (here : state.input.rest = 0x25 :: 0x71 :: opening :: rest) :
    Yields nextToken state (fun token after =>
      token = ⟨.literalBegin .string, ⟨state.input.position, state.input.position + 3⟩⟩ ∧
        after = state.opened 3
          { kind := .string
            interpolates := false
            opening := some opening
            closing
            percent := true
            start := state.input.position }) excused :=
  percentMark_yields between mode (by decide) (by decide) bracket here

end Scan

end RubySyntax
