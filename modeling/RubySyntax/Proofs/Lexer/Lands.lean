/-
Tokens end inside the input.

A token may lie beyond the end only after a literal has been opened whose delimiter is the byte
as which the end is read.
-/

import RubySyntax.Proofs.Lexer.Inside

namespace RubySyntax

namespace Scan

variable {state : State}

/-! ### Literals -/

theorem setLiteral_contained (contained : state.Contained) {literal : Quotation}
    (marked : literal.Marked) :
    Returns (setLiteral (some (.quotation literal))) state fun _ after =>
      after.Contained ∧ after.input = state.input := by
  refine returns_modify ⟨⟨contained.input, ?_⟩, rfl⟩
  intro other member
  rw [LexerState.mem_quotations, List.mem_cons] at member
  rcases member with opened | aside
  · cases opened
    exact marked
  · exact contained.marked other
      (LexerState.mem_quotations.mpr (List.mem_cons_of_mem _ aside))

/-- A literal is opened inside the input. If its delimiter is the byte 0, the byte before the
position says so. -/
theorem openLiteral_lands (contained : state.Contained) {literal : Quotation}
    (marked : literal.Marked ∨
      state.input.bytes[state.input.position - 1]? = some 0) :
    Returns (openLiteral literal) state fun token after => token.Lands after := by
  rcases marked with marked | nul
  · exact (setLiteral_contained contained marked).bind fun _ _ ⟨contained, _⟩ =>
      Lands.returns contained
  · apply Returns.modify_bind
    constructor
    intro token after run
    cases run
    refine ⟨contained.input, contained.input.position, .inr ⟨⟨_, rfl⟩, ?_⟩⟩
    rw [← Array.getElem?_toList] at nul
    exact nul

/-- What is read without delimiters opens no literal between some. -/
theorem setLiteral_rests {literal : Option OpenLiteral}
    (plain : OpenLiteral.quotation? literal = none) : Rests (setLiteral literal) := by
  have narrows : LexerState.Narrows fun lexer : LexerState => { lexer with literal } :=
    .replace plain (fun _ => rfl) fun _ => rfl
  unfold setLiteral
  infer_instance

instance : Rests (setLiteral none) :=
  setLiteral_rests rfl

instance (heredoc : Heredoc) (lineHead : Bool) :
    Rests (setLiteral (some (.heredocBody heredoc lineHead))) :=
  setLiteral_rests rfl

theorem closeLiteral_lands (contained : state.Contained) (literal : Quotation) (start : Nat) :
    Returns (closeLiteral literal start) state fun token after => token.Lands after := by
  refine Rests.returns_bind contained fun _ reached contained _ => ?_
  apply Returns.get_bind
  dsimp only
  split
  · apply Lands.returns_advance contained
    exact length_takeWhile_le Byte.isAlpha reached.input.rest
  · split
    · next label =>
        simp only [Bool.and_eq_true, beq_iff_eq] at label
        apply Lands.returns_advance contained
        exact length_pos_of_char label.1.2 (by decide)
    · exact Lands.returns contained

theorem skipGap_contained (contained : state.Contained) :
    Returns skipGap state fun _ after => after.Contained := by
  apply Returns.position_bind
  refine @Returns.bind _ _ _ _ (fun _ after => after.Contained) _ _
    (repeatUntil_returns (fun _ current => current.Contained) contained ?_) ?_
  · intro _ current contained
    apply (hasMore_contained contained).bind
    rintro more asked ⟨contained, filled⟩
    cases more with
    | false => exact returns_pure contained
    | true =>
        apply Returns.get_bind
        split
        · apply Returns.advance_bind contained
          · exact filled rfl
          · exact fun _ contained _ => returns_pure contained
        · exact returns_pure contained
  · intro _ reached contained
    exact Returns.position_bind (returns_pure contained)

/-- Text is gathered inside the input: no escaped delimiter is taken past its end. -/
theorem gather_contained (contained : state.Contained) {literal : Quotation}
    (marked : literal.Marked) :
    Returns (gather literal) state fun text after =>
      after.Contained ∧ text.literal.Marked := by
  refine repeatUntil_returns (fun text current => current.Contained ∧ text.literal.Marked)
    ⟨contained, marked⟩ ?_
  rintro text current ⟨contained, kept⟩
  apply (hasMore_contained contained).bind
  rintro more asked ⟨contained, filled⟩
  cases more with
  | false => exact returns_pure ⟨contained, kept⟩
  | true =>
      have unread := filled rfl
      apply Returns.get_bind
      refine Returns.ite (fun _ => returns_pure ⟨contained, kept⟩) fun _ => ?_
      refine Returns.ite (fun _ => returns_pure ⟨contained, kept⟩) fun _ => ?_
      refine Returns.ite (fun _ => ?_) fun _ => ?_
      · have short := EscapeReading.readIn_length_le_of_marked literal.escapeRule
          literal.kind.isList marked.closing marked.opening (asked.input.rest.drop 1)
        rw [List.length_drop] at short
        apply Returns.advance_bind contained (by omega)
        intro moved contained _
        refine Rests.returns_bind contained fun _ _ contained _ => ?_
        refine returns_pure ⟨contained, ?_⟩
        rw [Gathered.add_literal]
        exact kept
      · apply Returns.advance_bind contained unread
        intro moved contained _
        refine returns_pure ⟨contained, ?_⟩
        rw [Gathered.add_literal]
        exact kept.nest _

theorem literalText_lands (contained : state.Contained) {literal : Quotation}
    (marked : literal.Marked) :
    Returns (literalText literal) state fun token after => token.Lands after := by
  apply Returns.position_bind
  apply (gather_contained contained marked).bind
  rintro text gathered ⟨contained, kept⟩
  apply Returns.position_bind
  refine Returns.when State.Contained (fun _ => returns_throw _) (fun _ => contained) ?_
  intro read contained
  have finish {told : State} (contained : told.Contained) :
      Returns (do
          setLiteral (some (.quotation { text.literal with wordStarted := true }))
          token (.content text.bytes.toList false) state.input.position) told
        fun token after => token.Lands after := by
    have flagged : Quotation.Marked { text.literal with wordStarted := true } :=
      ⟨kept.closing, kept.opening⟩
    exact (setLiteral_contained contained flagged).bind
      fun _ _ ⟨contained, _⟩ => Lands.returns contained
  refine Returns.ite (fun _ => Returns.position_bind ?_) fun _ => finish contained
  exact Rests.returns_bind contained fun _ _ contained _ => finish contained

theorem quotation_lands (contained : state.Contained) {literal : Quotation}
    (marked : literal.Marked) :
    Returns (quotation literal) state fun token after => token.Lands after := by
  have put (started : Bool) {reached : State} (contained : reached.Contained) :
      Returns (setLiteral (some (.quotation { literal with wordStarted := started }))) reached
        fun _ after => after.Contained ∧ after.input = reached.input :=
    setLiteral_contained contained ⟨marked.closing, marked.opening⟩
  unfold quotation
  apply Returns.position_bind
  extract_lets afterGap
  have gapped (gap : Bool) {reached : State} (contained : reached.Contained) :
      Returns (afterGap gap) reached fun token after => token.Lands after := by
    unfold afterGap
    split
    · exact (put false contained).bind fun _ _ ⟨contained, _⟩ => Lands.returns contained
    · apply Returns.position_bind
      apply (hasMore_contained contained).bind
      rintro more asked ⟨contained, filled⟩
      cases more with
      | false => exact returns_fail_bind
      | true =>
          apply Returns.get_bind
          dsimp only
          split
          · apply Returns.advance_bind contained
            · exact filled rfl
            · exact fun _ contained _ => closeLiteral_lands contained literal _
          · split
            · next kind found =>
                apply (put true contained).bind
                rintro _ reached ⟨contained, same⟩
                apply interpolation_lands contained
                rw [same]
                split at found
                · exact found
                · cases found
            · exact literalText_lands contained marked
  clear_value afterGap
  split
  · exact (skipGap_contained contained).bind fun gap _ contained => gapped gap contained
  · rw [pure_bind]
    exact gapped false contained

theorem closingBracket?_ne_zero {byte closing : Byte}
    (closes : closingBracket? byte = some closing) : closing ≠ 0 := by
  unfold closingBracket? at closes
  split at closes
  case h_5 => cases closes
  all_goals
    cases closes
    decide

theorem percentLiteral_lands (contained : state.Contained) (start : Nat) :
    Returns (percentLiteral start) state fun token after => token.Lands after := by
  apply Returns.get_bind
  refine Returns.when State.Contained (fun letter => ?_) (fun _ => contained) ?_
  · refine returns_modify (contained.advance (length_pos_of_headD rfl fun zero => ?_))
    unfold Input.peekByte at letter
    rw [zero] at letter
    exact absurd letter (by decide)
  · intro lettered contained
    apply (hasMore_contained contained).bind
    rintro more asked ⟨contained, filled⟩
    cases more with
    | false => exact returns_fail_bind
    | true =>
        apply Returns.get_bind
        have delimiter := contained.input.last (filled rfl)
        apply Returns.advance_bind contained (filled rfl)
        intro moved contained here
        apply Returns.position_bind
        refine Returns.when (fun after => after.Contained ∧ after.input = moved.input)
          (fun _ => Rests.contained contained) (fun _ => ⟨contained, rfl⟩) ?_
        rintro first ⟨contained, same⟩
        refine Returns.when (fun after => after.Contained ∧ after.input = first.input)
          (fun _ => Rests.contained contained) (fun _ => ⟨contained, rfl⟩) ?_
        rintro second ⟨contained, again⟩
        apply openLiteral_lands contained
        rw [again, same, here]
        by_cases zero : asked.input.peekByte = 0
        · right
          rw [← zero]
          exact delimiter
        · left
          cases bracket : closingBracket? asked.input.peekByte with
          | none => exact .single zero rfl
          | some closing =>
              exact ⟨closingBracket?_ne_zero bracket, mt Option.some.inj zero⟩

theorem characterLiteral?_lands (contained : state.Contained) (mode : Mode) (start : Nat) :
    Returns (characterLiteral? mode start) state fun token after =>
      match token with
      | some token => token.Lands after
      | none => after = state := by
  unfold characterLiteral?
  apply Returns.get_bind
  dsimp only
  split
  · exact returns_pure rfl
  · next byte after rest =>
      split
      · exact returns_pure rfl
      · have finish {bytes : Bytes} {reached : State} (contained : reached.Contained) :
            Returns (do
                setMode .operandEnd
                let token ← token (.character bytes) start
                pure (some token)) reached
              fun token after =>
                match token with
                | some token => token.Lands after
                | none => after = state := by
          refine Rests.returns_bind contained fun _ _ contained _ => ?_
          exact (Lands.returns contained).bind fun _ _ lands => returns_pure lands
        split
        · have length := EscapeReading.read_length_le after
          apply Returns.advance_bind contained
          · rw [rest, List.length_cons]
            omega
          · intro moved contained _
            exact Rests.returns_bind contained fun _ _ contained _ => finish contained
        · apply Returns.checkRange_bind
          apply Returns.advance_bind contained
          · exact List.length_take_le' (Utf8.announcedLength byte) state.input.rest
          · exact fun _ contained _ => finish contained

theorem symbolName?_contained (contained : state.Contained) :
    Returns symbolName? state fun _ after => after.Contained := by
  apply Returns.get_bind
  apply Returns.checkRange_bind
  split
  · exact returns_pure contained
  · next length read =>
      split
      · exact returns_pure contained
      · apply Returns.advance_bind contained (symbolLength?_le read)
        intro moved contained _
        exact Rests.returns_bind contained fun _ _ contained _ => returns_pure contained

/-! ### Heredocs -/

theorem heredocOpener?_lands (contained : state.Contained) (two : 2 ≤ state.input.rest.length) :
    Returns heredocOpener? state fun opener after =>
      match opener with
      | some token => token.Lands after
      | none => after.Contained ∧ after.input = state.input := by
  apply Returns.get_bind
  dsimp only
  split
  · exact returns_pure ⟨contained, rfl⟩
  · exact Rests.returns_bind contained fun _ _ contained same => returns_pure ⟨contained, same⟩
  · next delimiter indented dedented quote length opened =>
      have enough := HeredocOpening.read_length_le opened
      rw [List.length_drop] at enough
      apply Returns.advance_bind contained (by omega)
      intro moved contained _
      apply Returns.position_bind
      refine Rests.returns_bind contained fun _ _ contained _ => ?_
      refine Rests.returns_bind contained fun _ _ contained _ => ?_
      exact (Lands.returns contained).bind fun _ _ lands => returns_pure lands

theorem heredocText_contained (contained : state.Contained) (heredoc : Heredoc) :
    Returns (heredocText heredoc) state fun _ after => after.Contained := by
  refine repeatUntil_returns (fun _ current => current.Contained) contained ?_
  intro bytes current contained
  apply (hasMore_contained contained).bind
  rintro more asked ⟨contained, filled⟩
  cases more with
  | false => exact returns_pure contained
  | true =>
      have unread := filled rfl
      apply Returns.get_bind
      refine Returns.ite (fun _ => returns_pure contained) fun _ => ?_
      refine Returns.ite (fun _ => ?_) fun _ => ?_
      · have short := EscapeReading.read_length_le (asked.input.rest.drop 1)
        rw [List.length_drop] at short
        apply Returns.advance_bind contained (by omega)
        intro moved contained _
        exact Rests.returns_bind contained fun _ _ contained _ => returns_pure contained
      · apply Returns.advance_bind contained unread
        intro moved contained _
        exact Returns.ite (fun _ => returns_pure contained) fun _ => returns_pure contained

theorem heredocContent_lands (contained : state.Contained) (heredoc : Heredoc)
    (lineHead : Bool) :
    Returns (heredocContent heredoc lineHead) state fun token after => token.Lands after := by
  apply Returns.position_bind
  apply (heredocText_contained contained heredoc).bind
  rintro ⟨bytes, lineEnd⟩ read contained
  apply Returns.get_bind
  refine Returns.when State.Contained (fun _ => returns_throw _) (fun _ => contained) ?_
  intro kept contained
  exact Returns.ite (fun _ => Lands.returns contained) fun _ => Lands.returns contained

theorem heredocBody_lands (contained : state.Contained) (heredoc : Heredoc) (lineHead : Bool) :
    Returns (heredocBody heredoc lineHead) state fun token after => token.Lands after := by
  apply Returns.position_bind
  refine Returns.ite (fun _ => ?_) fun _ => ?_
  · apply (hasMore_contained contained).bind
    rintro more asked ⟨contained, -⟩
    cases more with
    | false => exact returns_fail_bind
    | true =>
        apply Returns.position_bind
        apply Returns.position_bind
        apply Returns.checkRange_bind
        apply Returns.get_bind
        split
        · next length closing =>
            exact Lands.returns_advance contained (Heredoc.closingLength?_le closing)
        · exact heredocContent_lands contained heredoc true
  · apply Returns.get_bind
    dsimp only
    split
    · next kind found =>
        apply interpolation_lands contained
        split at found
        · exact found
        · cases found
    · exact heredocContent_lands contained heredoc false

/-! ### Marks -/

theorem operator_lands (contained : state.Contained) {reading : OperatorReading}
    (enough : reading.length ≤ state.input.rest.length) :
    Returns (operator reading) state fun token after => token.Lands after := by
  apply Returns.position_bind
  apply Returns.advance_bind contained enough
  intro moved contained _
  obtain ⟨kind, length, mode, warning⟩ := reading
  cases warning with
  | none => cases kind <;> exact Lands.returns contained
  | some warning => cases kind <;> exact Lands.returns contained

theorem operator_lands_of_fits (contained : state.Contained) {reading : OperatorReading}
    (fits : reading.Fits (state.input.rest.drop 1)) (filled : 0 < state.input.rest.length) :
    Returns (operator reading) state fun token after => token.Lands after := by
  have enough := fits.2
  rw [List.length_drop] at enough
  exact operator_lands contained (by omega)

instance (reading : OperatorReading) : Moves (operator reading) := by
  obtain ⟨kind, length, mode, warning⟩ := reading
  cases warning with
  | none => cases kind <;> unfold operator <;> infer_instance
  | some warning => cases kind <;> unfold operator <;> infer_instance

theorem plusMark_lands (contained : state.Contained) {reading : OperatorReading}
    (fits : reading.Fits (state.input.rest.drop 1)) (filled : 0 < state.input.rest.length) :
    Returns (plusMark reading) state fun token after => token.Lands after := by
  apply Returns.get_bind
  refine Returns.ite (fun _ => ?_) fun _ => operator_lands_of_fits contained fits filled
  exact Checks.returns contained.aligned

theorem dotMark_lands (contained : state.Contained) {reading : OperatorReading}
    (fits : reading.Fits (state.input.rest.drop 1)) (filled : 0 < state.input.rest.length) :
    Returns (dotMark reading) state fun token after => token.Lands after := by
  apply Returns.get_bind
  refine Returns.ite (fun _ => ?_) fun _ => operator_lands_of_fits contained fits filled
  apply Returns.advance_bind contained filled
  intro moved contained _
  exact Lands.returns_after (Checks.returns contained.aligned)

theorem lessMark_lands (contained : state.Contained) (before : Surroundings)
    {reading : OperatorReading} (fits : reading.Fits (state.input.rest.drop 1))
    (filled : 0 < state.input.rest.length) :
    Returns (lessMark before reading) state fun token after => token.Lands after := by
  have operate {reached : State} (contained : reached.Contained)
      (same : reached.input = state.input) :
      Returns (operator reading) reached fun token after => token.Lands after := by
    apply operator_lands_of_fits contained
    · rwa [same]
    · rwa [same]
  have otherwise {reached : State} (contained : reached.Contained)
      (same : reached.input = state.input) :
      Returns (do
          if before.mode == .className then
            setLexer fun lexer => { lexer with statementStart := true }
          operator reading) reached fun token after => token.Lands after := by
    refine Returns.ite (fun _ => ?_) fun _ => operate contained same
    exact Rests.returns_bind contained fun _ _ contained flagged =>
      operate contained (flagged.trans same)
  apply Returns.get_bind
  refine Returns.ite (fun opens => ?_) fun _ => otherwise contained rfl
  rw [Bool.and_eq_true, beq_iff_eq] at opens
  have two := Input.length_of_peekAt opens.1 (by decide)
  apply (heredocOpener?_lands contained two).bind
  intro opener opened result
  cases opener with
  | some token => exact returns_pure result
  | none => exact otherwise result.1 result.2

theorem minusMark_lands (contained : state.Contained) {reading : OperatorReading}
    (fits : reading.Fits (state.input.rest.drop 1)) (filled : 0 < state.input.rest.length) :
    Returns (minusMark reading) state fun token after => token.Lands after := by
  refine Returns.ite (fun _ => ?_) fun _ => operator_lands_of_fits contained fits filled
  refine Rests.returns_bind contained fun _ _ contained same => ?_
  apply operator_lands_of_fits contained
  · rwa [same]
  · rwa [same]

theorem literalMark_lands (contained : state.Contained) (before : Surroundings)
    {reading : OperatorReading} (fits : reading.Fits (state.input.rest.drop 1))
    (filled : 0 < state.input.rest.length) {literal : Nat → Scan Token}
    (opens : ∀ {reached : State}, reached.Contained → ∀ start,
      Returns (literal start) reached fun token after => token.Lands after) :
    Returns (literalMark before reading literal) state fun token after => token.Lands after := by
  apply Returns.get_bind
  refine Returns.ite (fun _ => ?_) fun _ => Returns.ite (fun _ => ?_) fun _ =>
    operator_lands_of_fits contained fits filled
  · exact Returns.advance_bind contained filled fun _ contained _ => opens contained _
  · refine Rests.returns_bind contained fun _ _ contained same => ?_
    apply Returns.advance_bind contained
    · rwa [same]
    · exact fun _ contained _ => opens contained _

theorem colonMark_lands (contained : state.Contained) (before : Surroundings)
    {reading : OperatorReading} (fits : reading.Fits (state.input.rest.drop 1))
    (filled : 0 < state.input.rest.length) :
    Returns (colonMark before reading) state fun token after => token.Lands after := by
  apply Returns.get_bind
  refine Returns.ite (fun double => ?_) fun _ => Returns.ite (fun _ => ?_) fun _ =>
    Returns.ite (fun quoted => ?_) fun _ => ?_
  · refine operator_lands_of_fits contained ?_ filled
    unfold OperatorReading.colonColon
    split
    · exact OperatorReading.fits_two _ rfl (eq_of_beq double) (by decide)
    · exact OperatorReading.fits_two _ rfl (eq_of_beq double) (by decide)
  · exact operator_lands_of_fits contained fits filled
  · have other : (state.input.rest.drop 1).headD 0 ≠ 0 := by
      intro zero
      rw [zero] at quoted
      exact absurd quoted (by decide)
    apply Returns.advance_bind contained (length_of_headD_drop other)
    intro moved contained _
    exact openLiteral_lands contained (.inl (.single other rfl))
  · apply Returns.advance_bind contained filled
    intro moved contained _
    apply (symbolName?_contained contained).bind
    intro symbol named contained
    cases symbol with
    | some symbol => exact Lands.returns contained
    | none => exact Lands.returns contained

theorem questionMark_lands (contained : state.Contained) (before : Surroundings)
    (filled : 0 < state.input.rest.length) :
    Returns (questionMark before) state fun token after => token.Lands after := by
  apply Returns.position_bind
  apply Returns.advance_bind contained filled
  intro moved contained _
  apply (characterLiteral?_lands contained _ _).bind
  intro literal read result
  cases literal with
  | some token => exact returns_pure result
  | none =>
      subst result
      exact Lands.returns contained

theorem quoteMark_lands (contained : state.Contained) (before : Surroundings)
    (interpolates : Bool) (quote : state.input.peekByte ≠ 0) :
    Returns (quoteMark before interpolates) state fun token after => token.Lands after := by
  apply Returns.get_bind
  apply Returns.advance_bind contained (length_pos_of_headD rfl quote)
  intro moved contained _
  exact openLiteral_lands contained (.inl (.single quote rfl))

theorem backquoteMark_lands (contained : state.Contained) (before : Surroundings)
    (filled : 0 < state.input.rest.length) :
    Returns (backquoteMark before) state fun token after => token.Lands after := by
  apply Returns.position_bind
  apply Returns.advance_bind contained filled
  intro moved contained _
  refine Returns.ite (fun _ => Lands.returns contained) fun _ => ?_
  exact openLiteral_lands contained (.inl (.single (by decide : (0x60 : Byte) ≠ 0) rfl))

theorem openBracket_lands (contained : state.Contained) (mark : Punct)
    (filled : 0 < state.input.rest.length) :
    Returns (openBracket mark) state fun token after => token.Lands after :=
  Returns.position_bind (Lands.returns_advance contained filled)

theorem closeBracket_lands (contained : state.Contained) (mark : Punct) (mode : Mode)
    (filled : 0 < state.input.rest.length) :
    Returns (closeBracket mark mode) state fun token after => token.Lands after :=
  Returns.position_bind (Lands.returns_advance contained filled)

theorem parenMark_lands (contained : state.Contained) (before : Surroundings)
    (filled : 0 < state.input.rest.length) :
    Returns (parenMark before) state fun token after => token.Lands after := by
  apply Returns.position_bind
  refine Returns.ite (fun _ => openBracket_lands contained _ filled) fun _ =>
    Returns.ite (fun _ => openBracket_lands contained _ filled) fun _ =>
      Returns.ite (fun _ => openBracket_lands contained _ filled) fun _ => ?_
  refine Returns.ite (fun _ => ?_) fun _ => openBracket_lands contained _ filled
  refine Rests.returns_bind contained fun _ _ contained same => ?_
  apply openBracket_lands contained
  rwa [same]

theorem squareMark_lands (contained : state.Contained) (before : Surroundings)
    (filled : 0 < state.input.rest.length) :
    Returns (squareMark before) state fun token after => token.Lands after := by
  apply Returns.get_bind
  refine Returns.ite (fun _ => Returns.ite (fun pair => ?_) fun _ => ?_) fun _ =>
    Returns.ite (fun _ => openBracket_lands contained _ filled) fun _ =>
      openBracket_lands contained _ filled
  · have two := Input.length_of_peekAt (eq_of_beq pair) (by decide)
    apply operator_lands contained
    unfold OperatorReading.plain
    dsimp only
    split
    · next write => exact Input.length_of_peekAt (eq_of_beq write) (by decide)
    · exact two
  · exact Lands.returns_after (openBracket_lands contained _ filled)

theorem braceMark_lands (contained : state.Contained) (before : Surroundings)
    (filled : 0 < state.input.rest.length) :
    Returns (braceMark before) state fun token after => token.Lands after := by
  have flagged (mark : Punct) :
      Returns (do
          setLexer fun lexer => { lexer with statementStart := true }
          openBracket mark) state fun token after => token.Lands after := by
    refine Rests.returns_bind contained fun _ _ contained same => ?_
    apply openBracket_lands contained
    rwa [same]
  exact Returns.ite (fun _ => flagged _) fun _ => Returns.ite (fun _ => flagged _) fun _ =>
    openBracket_lands contained _ filled

theorem closeBrace_lands (contained : state.Contained)
    (filled : 0 < state.input.rest.length) :
    Returns closeBrace state fun token after => token.Lands after := by
  apply Returns.get_bind
  exact Returns.ite (fun _ => Lands.returns_advance contained filled) fun _ =>
    closeBracket_lands contained _ _ filled

theorem semicolonMark_lands (contained : state.Contained)
    (filled : 0 < state.input.rest.length) :
    Returns semicolonMark state fun token after => token.Lands after :=
  Returns.position_bind (Lands.returns_advance contained filled)

theorem operatorMark_lands (contained : state.Contained) (before : Surroundings) {first : Char}
    {reading : OperatorReading}
    (read : OperatorReading.of? before first (state.input.rest.drop 1) = some reading)
    (filled : 0 < state.input.rest.length) :
    Returns (operatorMark before first reading) state
      fun token after => token.Lands after := by
  have fits := OperatorReading.of?_fits read
  unfold operatorMark
  split
  · exact plusMark_lands contained fits filled
  · exact minusMark_lands contained fits filled
  · exact dotMark_lands contained fits filled
  · exact lessMark_lands contained before fits filled
  · refine literalMark_lands contained before fits filled fun contained start => ?_
    exact openLiteral_lands contained (.inl (.single (by decide : (0x2F : Byte) ≠ 0) rfl))
  · exact literalMark_lands contained before fits filled percentLiteral_lands
  · exact colonMark_lands contained before fits filled
  · exact questionMark_lands contained before filled
  · exact operator_lands_of_fits contained fits filled

theorem mark?_lands (contained : state.Contained) (before : Surroundings)
    (next : state.input.peekByte ≠ 0) :
    Returns (mark? before) state fun mark after =>
      match mark with
      | some token => token.Lands after
      | none => after = state := by
  have filled : 0 < state.input.rest.length := length_pos_of_headD rfl next
  have give {step : Scan Token}
      (lands : Returns step state fun token after => token.Lands after) :
      Returns (step >>= fun token => pure (some token)) state fun mark after =>
        match mark with
        | some token => token.Lands after
        | none => after = state :=
    lands.bind fun _ _ lands => returns_pure lands
  apply Returns.get_bind
  dsimp only
  split
  · next reading read => exact give (operatorMark_lands contained before read filled)
  · split
    · exact give (quoteMark_lands contained before true next)
    · exact give (quoteMark_lands contained before false next)
    · exact give (parenMark_lands contained before filled)
    · exact give (squareMark_lands contained before filled)
    · exact give (braceMark_lands contained before filled)
    · exact give (closeBracket_lands contained _ _ filled)
    · exact give (closeBracket_lands contained _ _ filled)
    · exact give (closeBrace_lands contained filled)
    · exact give (semicolonMark_lands contained filled)
    · exact give (globalVariable_lands contained)
    · exact give (Checks.returns contained.aligned)
    · exact Returns.ite (fun _ => give (backquoteMark_lands contained before filled))
        fun _ => returns_pure rfl

/-! ### The next token -/

instance (start : Nat) : Lands (newline start) := by
  unfold newline
  infer_instance

instance : Lands heredocMarker := by
  unfold heredocMarker
  infer_instance

instance (start : Nat) : Lands (endOfInput start) where
  returns {state} contained := by
    apply Returns.get_bind
    refine Returns.when State.Contained (fun _ => returns_throw _) (fun _ => contained) ?_
    intro kept contained
    split
    · exact returns_throw _
    · exact Lands.returns contained

def TurnLands (result : Turn Bool Token) (after : State) : Prop :=
  match result with
  | .again _ => after.Contained
  | .done token => token.Lands after

theorem turnLands_done {step : Scan Token}
    (lands : Returns step state fun token after => token.Lands after) :
    Returns (step >>= fun token => pure (.done token)) state TurnLands :=
  lands.bind fun _ _ landed => returns_pure landed

theorem lineFeed_lands (contained : state.Contained) (filled : 0 < state.input.rest.length) :
    Returns lineFeed state TurnLands := by
  apply Returns.get_bind
  apply Returns.advance_bind contained filled
  intro moved contained here
  refine Returns.ite (fun _ => ?_) fun _ => Returns.ite (fun _ => returns_pure contained) ?_
  · refine Rests.returns_bind contained fun _ _ contained _ => ?_
    exact Returns.ite (fun _ => turnLands_done (Lands.returns contained)) fun _ =>
      turnLands_done (Lands.returns contained)
  · intro _
    split
    · next length continued =>
        apply Returns.advance_bind contained
        · rw [here]
          exact Space.continuation?_le continued
        · exact fun _ contained _ => returns_pure contained
    · exact turnLands_done (Lands.returns contained)

theorem embeddedDocument_contained (contained : state.Contained) :
    Returns embeddedDocument state fun _ after => after.Contained := by
  have line {reached : State} (contained : reached.Contained) :
      Returns (do advance (Space.lineLength (← get).input.rest)) reached
        fun _ after => after.Contained :=
    Returns.get_bind (returns_modify (contained.advance (length_takeWhile_le _ _)))
  apply Returns.position_bind
  apply (line contained).bind
  intro _ opened contained
  refine repeatUntil_returns (fun _ current => current.Contained) contained ?_
  intro _ current contained
  apply Returns.peek_bind
  refine Returns.when State.Contained (fun lineFeed => ?_) (fun _ => contained) ?_
  · refine returns_modify (contained.advance (length_pos_of_char (eq_of_beq lineFeed) ?_))
    decide
  · intro reached contained
    apply (hasMore_contained contained).bind
    rintro more asked ⟨contained, -⟩
    cases more with
    | false => exact returns_fail_bind
    | true =>
        apply Returns.position_bind
        apply Returns.position_bind
        apply Returns.checkRange_bind
        apply Returns.get_bind
        apply (line contained).bind
        intro _ passed contained
        refine returns_pure ?_
        split
        · next again =>
            split at again
            · cases again
            · exact contained
        · exact contained

theorem invalidCharacter_contained (contained : state.Contained)
    (filled : 0 < state.input.rest.length) :
    Returns invalidCharacter state fun _ after => after.Contained := by
  have tails := length_takeWhile_le Utf8.isTail (state.input.rest.drop 1)
  rw [List.length_drop] at tails
  apply Returns.get_bind
  apply Returns.advance_bind contained (by omega)
  intro moved contained _
  apply Returns.position_bind
  exact (Rests.contained contained).mono fun _ _ still => still.1

theorem tokenHere_lands (contained : state.Contained) (before : Surroundings)
    (next : state.input.peekByte ≠ 0) :
    Returns (tokenHere before) state TurnLands := by
  have filled : 0 < state.input.rest.length := length_pos_of_headD rfl next
  apply Returns.get_bind
  dsimp only
  apply Returns.checkRange_bind
  refine Returns.ite (fun _ => ?_) fun _ => Returns.ite (fun _ => ?_) fun _ =>
    Returns.ite (fun _ => turnLands_done (Checks.returns contained.aligned)) fun _ => ?_
  · exact (embeddedDocument_contained contained).bind fun _ _ contained =>
      returns_pure contained
  · refine Returns.ite (fun _ => ?_) fun _ => turnLands_done (name_lands contained _)
    exact (invalidCharacter_contained contained filled).bind fun _ _ contained =>
      returns_pure contained
  · apply (mark?_lands contained before next).bind
    intro mark marked result
    cases mark with
    | some token => exact returns_pure result
    | none =>
        subst result
        apply Returns.advance_bind contained filled
        intro moved contained _
        exact Rests.returns_bind contained fun _ _ contained _ => returns_pure contained

theorem tokenTurn_lands (contained : state.Contained) (before : Surroundings) :
    Returns (tokenTurn before) state TurnLands := by
  apply Returns.get_bind
  apply Returns.advance_bind contained (Space.lengthFrom_le false state.input.rest)
  intro moved contained _
  apply Returns.get_bind
  refine Returns.ite (fun _ => turnLands_done (Lands.returns contained)) fun _ =>
    Returns.ite (fun _ => ?_) fun other => ?_
  · refine Returns.ite (fun _ => ?_) fun more => ?_
    · refine Returns.ite (fun _ => ?_) fun _ => turnLands_done (Lands.returns contained)
      apply (fetchMore_contained contained).bind
      rintro more asked ⟨contained, -⟩
      exact Returns.ite (fun _ => returns_pure contained) fun _ =>
        turnLands_done (Lands.returns contained)
    · apply Returns.advance_bind contained
      · exact List.length_pos_iff.mpr (mt List.isEmpty_iff.mpr more)
      · exact fun _ contained _ => turnLands_done (Lands.returns contained)
  · have next : moved.input.peekByte ≠ 0 := by
      intro zero
      rw [zero] at other
      exact absurd rfl other
    refine Returns.ite (fun _ => ?_) fun _ => tokenHere_lands contained _ next
    exact lineFeed_lands contained (length_pos_of_headD rfl next)

theorem literalToken_lands (contained : state.Contained) {literal : OpenLiteral}
    (opened : state.lexer.literal = some literal) :
    Returns (literalToken literal) state fun token after => token.Lands after := by
  apply Returns.get_bind
  refine Returns.ite (fun _ => ?_) fun _ => ?_
  · refine Rests.returns_bind contained fun _ _ contained _ => ?_
    exact Returns.ite (fun _ => globalVariable_lands contained) fun _ =>
      Checks.returns contained.aligned
  · cases literal with
    | quotation literal =>
        apply quotation_lands contained
        apply contained.marked literal
        rw [LexerState.mem_quotations, opened]
        exact List.mem_cons_self
    | heredocBody heredoc lineHead => exact heredocBody_lands contained heredoc lineHead

/-- Inside the input the next token ends inside it. -/
theorem nextToken_lands (contained : state.Contained) :
    Returns nextToken state fun token after => token.Lands after := by
  apply Returns.get_bind
  dsimp only
  split
  · next literal opened => exact literalToken_lands contained opened
  · refine Returns.ite (fun _ => Lands.returns contained) fun _ => ?_
    refine Rests.returns_bind contained fun _ _ contained _ => ?_
    refine repeatUntil_returns (fun _ current => current.Contained) contained ?_
    intro blank current contained
    apply (tokenTurn_lands contained _).mono
    intro result after lands
    cases result with
    | again _ => exact lands
    | done token => exact lands

end Scan

end RubySyntax
