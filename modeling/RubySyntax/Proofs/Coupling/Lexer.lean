/-
The lexer in two coupled runs: both read the same tokens.

The bound on nesting is met where an interpolation starts. All other steps look
at what the runs have in common.
-/

import RubySyntax.Proofs.Coupling.Basic

namespace RubySyntax

namespace Scan

variable {coupling : Coupling} [coupling.Loose]

/-! ### Names and numbers -/

instance (start : Nat) (what : Truncated) : InStep coupling (internFrom start what) := by
  unfold internFrom
  infer_instance

instance (word : Keyword) (mode : Mode) (start : Nat) :
    InStep coupling (keyword word mode start) := by
  unfold keyword
  infer_instance

instance (mode : Mode) (statementStart marked : Bool) (first : Byte) (start : Nat) :
    InStep coupling (plainName mode statementStart marked first start) := by
  unfold plainName
  infer_instance

instance (statementStart : Bool) : InStep coupling (name statementStart) := by
  have ended : InStep coupling (modify fun state : State =>
      { state with
        input := state.input.advance state.input.rest.length
        lexer := { state.lexer with ended := true } }) :=
    inStep_move fun _ _ _ _ => ⟨rfl, rfl⟩
  unfold name
  apply InStep.moving fun _ _ _ _ => ⟨rfl, rfl⟩
  intro state
  apply InStep.andThen
  intro _
  apply InStep.andThen
  intro _
  split
  · infer_instance
  · split
    · infer_instance
    · split
      · infer_instance
      · infer_instance

instance (start : Nat) (digits : Bytes) : InStep coupling (referenceNumber start digits) := by
  unfold referenceNumber
  infer_instance

instance : InStep coupling globalVariable := by
  unfold globalVariable
  infer_instance

set_option synthInstance.maxSize 512 in
instance : InStep coupling atVariable := by
  unfold atVariable
  infer_instance

instance (start : Nat) (reading : NumberReading) : InStep coupling (number start reading) := by
  unfold number
  apply InStep.andThen
  intro digits
  apply InStep.andThen
  intro _
  apply InStep.andThen
  intro _
  apply InStep.andThen
  intro stop
  apply InStep.andThen
  intro _
  apply InStep.remarks
  intro remark
  obtain ⟨offset, problem⟩ := remark
  cases offset with
  | none => infer_instance
  | some offset => infer_instance

/-! ### Literals -/

instance (literal : Option OpenLiteral) : InStep coupling (setLiteral literal) := by
  unfold setLiteral
  infer_instance

instance (start : Nat) : InStep coupling (enterInterpolation start) := by
  unfold enterInterpolation
  apply Agrees.looking
  intro state report arena maxDepth alike _
  exact agrees_below alike.depths inferInstance

instance : InStep coupling leaveInterpolation := by
  unfold leaveInterpolation
  infer_instance

instance (kind : Interpolation) : InStep coupling (interpolation kind) := by
  unfold interpolation
  cases kind with
  | code => infer_instance
  | variableName => infer_instance

instance (backslash : Nat) (reading : EscapeReading) :
    InStep coupling (escapeRemarks backslash reading) := by
  unfold escapeRemarks
  infer_instance

instance (literal : Quotation) (start : Nat) : InStep coupling (closeLiteral literal start) := by
  unfold closeLiteral
  infer_instance

instance : InStep coupling skipGap := by
  unfold skipGap
  infer_instance

instance (literal : Quotation) : InStep coupling (gather literal) := by
  unfold gather
  infer_instance

instance (literal : Quotation) : InStep coupling (literalText literal) := by
  unfold literalText
  infer_instance

instance (literal : Quotation) : InStep coupling (quotation literal) := by
  unfold quotation
  apply InStep.andThen
  intro gapStart
  extract_lets afterGap
  have afterGap_agrees (gap : Bool) : InStep coupling (afterGap gap) := by
    unfold afterGap
    split
    · infer_instance
    · apply InStep.andThen
      intro start
      apply InStep.andThen
      intro more
      extract_lets inside
      have inside_agrees (checked : Unit) : InStep coupling (inside checked) := by
        apply InStep.seeing fun _ _ _ _ => rfl
        intro state
        dsimp only
        split
        · infer_instance
        · split
          · infer_instance
          · infer_instance
      clear_value inside
      infer_instance
  clear_value afterGap
  infer_instance

instance (literal : Quotation) : InStep coupling (openLiteral literal) := by
  unfold openLiteral
  infer_instance

instance (start : Nat) : InStep coupling (percentLiteral start) := by
  unfold percentLiteral
  apply InStep.seeing fun _ _ _ _ => rfl
  intro state
  extract_lets first letter opened afterLetter
  have opened_agrees (checked : Unit) : InStep coupling (opened checked) := by
    apply InStep.seeing fun _ _ _ _ => rfl
    intro state
    dsimp only
    infer_instance
  have afterLetter_agrees (passed : Unit) : InStep coupling (afterLetter passed) := by
    unfold afterLetter
    clear_value opened
    infer_instance
  clear_value afterLetter
  infer_instance

instance (mode : Mode) (start : Nat) : InStep coupling (characterLiteral? mode start) := by
  unfold characterLiteral?
  apply InStep.seeing fun _ _ _ _ => rfl
  intro state
  dsimp only
  split
  · infer_instance
  · infer_instance

instance : InStep coupling symbolName? := by
  unfold symbolName?
  apply InStep.seeing fun _ _ _ _ => rfl
  intro state
  apply InStep.andThen
  intro _
  split
  · infer_instance
  · infer_instance

/-! ### Heredocs -/

instance : InStep coupling heredocOpener? := by
  unfold heredocOpener?
  apply InStep.seeing fun _ _ _ _ => rfl
  intro state
  dsimp only
  split
  · infer_instance
  · infer_instance
  · infer_instance

omit [coupling.Loose] in
instance (node : NodeId) : InStep coupling (awaitBody node) := by
  have waiting : LexerState.Waiting fun lexer : LexerState =>
      { lexer with heredocs := giveNode node lexer.heredocs } := by
    constructor
    intro lexer
    refine ⟨rfl, rfl, id, List.Subset.refl _, rfl, fun none => ⟨?_, rfl⟩⟩
    change giveNode node lexer.heredocs = []
    rw [none]
    rfl
  unfold awaitBody
  infer_instance

omit [coupling.Loose] in
instance : InStep coupling beginHeredocBodies := by
  unfold beginHeredocBodies
  infer_instance

omit [coupling.Loose] in
instance : InStep coupling nextHeredoc? where
  meets state twin alike between := by
    have rest := alike.rest
    rw [rest] at alike ⊢
    change coupling.Meets
      ((match state.lexer.heredocs with
        | [] => pure none
        | pending :: heredocs => do
            setLexer fun lexer =>
              { lexer with heredocs, literal := some (.heredocBody pending.heredoc true) }
            return some pending) state) _
    change coupling.Meets _ ((match state.lexer.heredocs with
        | [] => pure none
        | pending :: heredocs => do
            setLexer fun lexer =>
              { lexer with heredocs, literal := some (.heredocBody pending.heredoc true) }
            return some pending) (state.recast _ _ _))
    cases queue : state.lexer.heredocs with
    | nil => exact .ok alike between
    | cons pending heredocs =>
        have narrows : LexerState.Narrows fun lexer : LexerState =>
            { lexer with heredocs, literal := some (.heredocBody pending.heredoc true) } :=
          .replace rfl (fun _ => rfl) fun _ => rfl
        have waits : state.lexer.Waits
            { state.lexer with
              heredocs
              literal := some (.heredocBody pending.heredoc true) } := by
          refine ⟨rfl, rfl, fun _ => nofun, narrows.quotations state.lexer, rfl, fun none => ?_⟩
          rw [queue] at none
          cases none
        exact .ok ⟨alike.reports, alike.arenas, alike.depths, rfl, alike.always⟩
          (coupling.watch.wait waits between)

instance (heredoc : Heredoc) : InStep coupling (heredocText heredoc) := by
  unfold heredocText
  infer_instance

instance (heredoc : Heredoc) (lineHead : Bool) :
    InStep coupling (heredocContent heredoc lineHead) := by
  unfold heredocContent
  infer_instance

instance (heredoc : Heredoc) (lineHead : Bool) :
    InStep coupling (heredocBody heredoc lineHead) := by
  unfold heredocBody
  apply InStep.andThen
  intro start
  split
  · apply InStep.andThen
    intro more
    extract_lets inside
    have inside_agrees (checked : Unit) : InStep coupling (inside checked) := by
      unfold inside
      apply InStep.andThen
      intro _
      apply InStep.andThen
      intro _
      apply InStep.andThen
      intro _
      apply InStep.seeing fun _ _ _ _ => rfl
      intro state
      split
      · infer_instance
      · infer_instance
    clear_value inside
    infer_instance
  · apply InStep.seeing fun _ _ _ _ => rfl
    intro state
    dsimp only
    split
    · infer_instance
    · infer_instance

/-! ### Marks -/

instance (reading : OperatorReading) : InStep coupling (operator reading) := by
  unfold operator
  apply InStep.andThen
  intro start
  apply InStep.andThen
  intro _
  extract_lets rest
  have rest_agrees (warned : Unit) : InStep coupling (rest warned) := by
    apply InStep.andThen
    intro _
    split
    · infer_instance
    · infer_instance
    · infer_instance
  clear_value rest
  split
  · infer_instance
  · infer_instance

instance (reading : OperatorReading) : InStep coupling (plusMark reading) := by
  unfold plusMark
  infer_instance

instance (reading : OperatorReading) : InStep coupling (dotMark reading) := by
  unfold dotMark
  infer_instance

instance (before : Surroundings) (reading : OperatorReading) :
    InStep coupling (lessMark before reading) := by
  unfold lessMark
  apply InStep.seeing fun _ _ _ _ => rfl
  intro state
  extract_lets input operated afterOpener
  have afterOpener_agrees (opener : Option Token) : InStep coupling (afterOpener opener) := by
    unfold afterOpener
    split
    · infer_instance
    · infer_instance
  clear_value afterOpener
  infer_instance

instance (reading : OperatorReading) : InStep coupling (minusMark reading) := by
  unfold minusMark
  infer_instance

instance (before : Surroundings) (reading : OperatorReading) (literal : Nat → Scan Token)
    [∀ start, InStep coupling (literal start)] :
    InStep coupling (literalMark before reading literal) := by
  unfold literalMark
  infer_instance

instance (before : Surroundings) (reading : OperatorReading) :
    InStep coupling (colonMark before reading) := by
  unfold colonMark
  apply InStep.seeing fun _ _ _ _ => rfl
  intro state
  dsimp only
  have symbol (start : Nat) : InStep coupling (symbolName? >>= fun
      | some symbol => setMode .operandEnd >>= fun _ => token (.symbol symbol) start
      | none => setMode .begin >>= fun _ => token (.punct .colon) start) := by
    apply InStep.andThen
    intro symbol
    split
    · infer_instance
    · infer_instance
  infer_instance

instance (before : Surroundings) : InStep coupling (questionMark before) := by
  unfold questionMark
  apply InStep.andThen
  intro start
  apply InStep.andThen
  intro _
  apply InStep.andThen
  intro literal
  split
  · infer_instance
  · infer_instance

instance (before : Surroundings) (interpolates : Bool) :
    InStep coupling (quoteMark before interpolates) := by
  unfold quoteMark
  infer_instance

instance (before : Surroundings) : InStep coupling (backquoteMark before) := by
  unfold backquoteMark
  infer_instance

instance (mark : Punct) : InStep coupling (openBracket mark) := by
  unfold openBracket
  infer_instance

instance (mark : Punct) (mode : Mode) : InStep coupling (closeBracket mark mode) := by
  unfold closeBracket
  infer_instance

instance (before : Surroundings) : InStep coupling (parenMark before) := by
  unfold parenMark
  infer_instance

instance (before : Surroundings) : InStep coupling (squareMark before) := by
  unfold squareMark
  infer_instance

instance (before : Surroundings) : InStep coupling (braceMark before) := by
  unfold braceMark
  infer_instance

instance : InStep coupling closeBrace := by
  unfold closeBrace
  infer_instance

instance : InStep coupling semicolonMark := by
  unfold semicolonMark
  infer_instance

instance (before : Surroundings) (first : Char) (reading : OperatorReading) :
    InStep coupling (operatorMark before first reading) := by
  unfold operatorMark
  split <;> infer_instance

instance (before : Surroundings) : InStep coupling (mark? before) := by
  unfold mark?
  apply InStep.seeing fun _ _ _ _ => rfl
  intro state
  dsimp only
  split
  · infer_instance
  · split <;> infer_instance

/-! ### Tokens -/

instance (start : Nat) : InStep coupling (endOfInput start) := by
  unfold endOfInput
  apply InStep.seeing fun _ _ _ _ => rfl
  intro state
  extract_lets lexer rest
  have rest_agrees (checked : Unit) : InStep coupling (rest checked) := by
    unfold rest
    split
    · infer_instance
    · infer_instance
  clear_value rest
  infer_instance

instance (start : Nat) : InStep coupling (newline start) := by
  unfold newline
  infer_instance

instance : InStep coupling heredocMarker := by
  unfold heredocMarker
  infer_instance

instance : InStep coupling lineFeed := by
  unfold lineFeed
  apply InStep.seeing fun _ _ _ _ => rfl
  intro state
  apply InStep.andThen
  intro _
  split
  · infer_instance
  · split
    · infer_instance
    · split
      · infer_instance
      · infer_instance

instance : InStep coupling embeddedDocument := by
  unfold embeddedDocument
  apply InStep.andThen
  intro start
  extract_lets skipLine nextLine lineStart
  have skipLine_agrees : InStep coupling skipLine :=
    inferInstanceAs (InStep coupling (get >>= fun state => advance _))
  have nextLine_agrees (more : Unit) : InStep coupling (nextLine more) := by
    unfold nextLine
    clear_value skipLine
    infer_instance
  have lineStart_agrees (passed : Unit) : InStep coupling (lineStart passed) := by
    unfold lineStart
    clear_value nextLine
    infer_instance
  clear_value lineStart skipLine
  infer_instance

instance : InStep coupling invalidCharacter := by
  unfold invalidCharacter
  infer_instance

instance (before : Surroundings) : InStep coupling (tokenHere before) := by
  unfold tokenHere
  apply InStep.seeing fun _ _ _ _ => rfl
  intro state
  apply InStep.andThen
  intro _
  split
  · infer_instance
  · split
    · infer_instance
    · split
      · infer_instance
      · apply InStep.andThen
        intro token
        split
        · infer_instance
        · infer_instance

instance (before : Surroundings) : InStep coupling (tokenTurn before) := by
  unfold tokenTurn
  infer_instance

instance (literal : OpenLiteral) : InStep coupling (literalToken literal) := by
  unfold literalToken
  apply InStep.seeing fun _ _ _ _ => rfl
  intro state
  split
  · infer_instance
  · split
    · infer_instance
    · infer_instance

instance : InStep coupling nextToken := by
  unfold nextToken
  apply InStep.seeing fun _ _ _ _ => rfl
  intro state
  dsimp only
  split
  · infer_instance
  · infer_instance

end Scan

end RubySyntax
