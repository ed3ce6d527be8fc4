/-
What holds between the states before and after every step of the lexer.

A relation between states that is kept by moving on in the input, by reports, by requests
for more and by changes of what the lexer remembers is kept by whatever is put together from
these. The class `Scan.Follows` gathers the steps over which such a relation holds. Steps that
are put together from such steps are found by instance search, so that each function of the
lexer takes one line.

The first of these relations says what the lexer leaves alone: the tree, the scopes, the token
that has been read but not taken, and the record of the tokens. It reports problems and
withdraws none, and goes on in the input but never back.
-/

import RubySyntax.Lexer.Token
import RubySyntax.Proofs.Received
import RubySyntax.Proofs.Report
import RubySyntax.Proofs.Returns

namespace RubySyntax

variable {α β σ : Type}

theorem Report.deliver_errors (report : Report) (diagnostic : Diagnostic) :
    (report.deliver diagnostic).errors = report.errors := by
  unfold deliver
  split
  · dsimp only
    split
    · split <;> rfl
    · split <;> rfl
  · rfl

theorem Report.errors_le_add (report : Report) (span : Span) (problem : Problem) :
    report.errors ≤ (report.add span problem).errors := by
  unfold add
  dsimp only
  split
  · rw [deliver_errors]
    exact Nat.le_succ _
  · exact Nat.le_of_eq (deliver_errors ..).symm

theorem Report.errors_add_pos (report : Report) (span : Span) {problem : Problem}
    (severity : problem.severity = .error) : 0 < (report.add span problem).errors := by
  unfold add
  dsimp only
  rw [severity]
  exact Nat.succ_pos _

/-- Tree, scopes and tokens are as they were, no report is forgotten, and the input
is read on. -/
structure State.Undisturbed (before after : State) : Prop where
  arena : after.arena = before.arena
  scopes : after.scopes = before.scopes
  lookahead : after.lookahead = before.lookahead
  tokens : after.tokens = before.tokens
  errors : before.report.errors ≤ after.report.errors
  made : before.report.made.toList <+: after.report.made.toList
  position : before.input.position ≤ after.input.position
  received : ∀ source answers, before.input.Received source answers →
    after.input.Received source answers

namespace State.Undisturbed

variable {before middle after : State}

theorem refl (state : State) : state.Undisturbed state where
  arena := rfl
  scopes := rfl
  lookahead := rfl
  tokens := rfl
  errors := Nat.le_refl _
  made := List.prefix_refl _
  position := Nat.le_refl _
  received _ _ := id

theorem trans (first : before.Undisturbed middle) (second : middle.Undisturbed after) :
    before.Undisturbed after where
  arena := second.arena.trans first.arena
  scopes := second.scopes.trans first.scopes
  lookahead := second.lookahead.trans first.lookahead
  tokens := second.tokens.trans first.tokens
  errors := Nat.le_trans first.errors second.errors
  made := first.made.trans second.made
  position := Nat.le_trans first.position second.position
  received source answers start := second.received source answers
    (first.received source answers start)

theorem ofFields (arena : after.arena = before.arena) (scopes : after.scopes = before.scopes)
    (lookahead : after.lookahead = before.lookahead) (tokens : after.tokens = before.tokens)
    (report : after.report = before.report) (input : after.input = before.input) :
    before.Undisturbed after where
  arena := arena
  scopes := scopes
  lookahead := lookahead
  tokens := tokens
  errors := Nat.le_of_eq (congrArg Report.errors report.symm)
  made := report ▸ List.prefix_rfl
  position := Nat.le_of_eq (congrArg Input.position input.symm)
  received source answers start := by
    rw [input]
    exact start

theorem advance (state : State) (distance : Nat) (lexer : LexerState) :
    state.Undisturbed { state with input := state.input.advance distance, lexer } where
  arena := rfl
  scopes := rfl
  lookahead := rfl
  tokens := rfl
  errors := Nat.le_refl _
  made := (refl state).made
  position := Nat.le_add_right _ _
  received _ _ start := start.advance distance

theorem report (state : State) (span : Span) (problem : Problem) :
    state.Undisturbed { state with report := state.report.add span problem } where
  arena := rfl
  scopes := rfl
  lookahead := rfl
  tokens := rfl
  errors := Report.errors_le_add ..
  made := Report.made_isPrefix_add ..
  position := Nat.le_refl _
  received _ _ := id

theorem ask (state : State)
    (empty : ((state.input.answers.head?.join).map Chunk.bytes).getD [] = []) :
    state.Undisturbed { state with input := state.input.ask } where
  arena := rfl
  scopes := rfl
  lookahead := rfl
  tokens := rfl
  errors := Nat.le_refl _
  made := (refl state).made
  position := Nat.le_refl _
  received _ _ start := start.ask empty

/-- More input changes the map of the report, but counts nothing. -/
theorem fetch (state : State) {chunk : Chunk}
    (answer : state.input.answers.head?.join = some chunk) :
    state.Undisturbed
      { state with
        input := state.input.ask.append chunk.bytes
        report :=
          { state.report with
            map := state.report.map.addChunk state.input.bytes.size chunk.bytes
              chunk.fileName 1 } } where
  arena := rfl
  scopes := rfl
  lookahead := rfl
  tokens := rfl
  errors := Nat.le_refl _
  made := List.prefix_refl _
  position := Nat.le_refl _
  received _ _ start := start.append answer

end State.Undisturbed

/-! ### What holds over all steps -/

class LexerState.GoesOn (f : LexerState → LexerState) : Prop where
  ended : ∀ lexer, (f lexer).ended = lexer.ended

namespace LexerState

instance {statementStart variablePending afterArrow heredocsDue : LexerState → Bool}
    {mode : LexerState → Mode} {loopFlags commandFlags : LexerState → BitStack}
    {brackets openConstructs : LexerState → Nat} {literal : LexerState → Option OpenLiteral}
    {heredocs : LexerState → List PendingHeredoc} {contexts : LexerState → List LexerContext} :
    GoesOn fun lexer =>
      { ended := lexer.ended
        mode := mode lexer
        statementStart := statementStart lexer
        loopFlags := loopFlags lexer
        commandFlags := commandFlags lexer
        brackets := brackets lexer
        openConstructs := openConstructs lexer
        literal := literal lexer
        variablePending := variablePending lexer
        afterArrow := afterArrow lexer
        heredocs := heredocs lexer
        heredocsDue := heredocsDue lexer
        contexts := contexts lexer } :=
  ⟨fun _ => rfl⟩

end LexerState

namespace State

structure Course where
  relates : State → State → Prop
  refl : ∀ state, relates state state
  trans : ∀ {before middle after}, relates before middle → relates middle after →
    relates before after
  advance : ∀ (state : State) (distance : Nat),
    relates state { state with input := state.input.advance distance }
  intern : ∀ (state : State) (symbols : SymbolTable), relates state { state with symbols }
  report : ∀ (state : State) (span : Span) (problem : Problem),
    relates state { state with report := state.report.add span problem }

class Course.Asks (course : Course) : Prop where
  /-- Nothing is supplied. -/
  ask : ∀ state : State, ((state.input.answers.head?.join).map Chunk.bytes).getD [] = [] →
    course.relates state { state with input := state.input.ask }
  fetch : ∀ (state : State) {chunk : Chunk}, state.input.answers.head?.join = some chunk →
    course.relates state
      { state with
        input := state.input.ask.append chunk.bytes
        report :=
          { state.report with
            map := state.report.map.addChunk state.input.bytes.size chunk.bytes
              chunk.fileName 1 } }

class Course.Lexes (course : Course) : Prop where
  setLexer : ∀ (state : State) (lexer : LexerState), lexer.ended = state.lexer.ended →
    course.relates state { state with lexer }

class Course.Whole (course : Course) : Prop extends course.Lexes where
  close : ∀ state : State,
    course.relates state { state with lexer := { state.lexer with ended := true } }

def Course.undisturbed : Course where
  relates := Undisturbed
  refl := .refl
  trans := .trans
  advance state distance := .advance state distance state.lexer
  intern _ _ := .ofFields rfl rfl rfl rfl rfl rfl
  report := .report

instance : Course.undisturbed.Asks where
  ask := .ask
  fetch state _ answer := .fetch state answer

instance : Course.undisturbed.Whole where
  setLexer _ _ _ := .ofFields rfl rfl rfl rfl rfl rfl
  close _ := .ofFields rfl rfl rfl rfl rfl rfl

end State

namespace Scan

class Follows (course : State.Course) (step : Scan α) : Prop where
  returns : ∀ state, Returns step state fun _ after => course.relates state after

section

variable {course : State.Course}

section

variable {first : Scan α} {next : α → Scan β}

instance (value : α) : Follows course (pure value : Scan α) where
  returns state := returns_pure (course.refl state)

instance (halt : Halt) : Follows course (throw halt : Scan α) where
  returns _ := returns_throw halt

instance : Follows course (get : Scan State) where
  returns state := by
    constructor
    intro _ _ run
    cases run
    exact course.refl state

instance Follows.bind [Follows course first] [∀ value, Follows course (next value)] :
    Follows course (first >>= next) where
  returns state := (Follows.returns state).bind fun _ reached before =>
    (Follows.returns reached).mono fun _ _ later => course.trans before later

theorem Follows.andThen [Follows course first] (rest : ∀ value, Follows course (next value)) :
    Follows course (first >>= next) :=
  inferInstance

instance {condition : Prop} [Decidable condition] {left right : Scan α} [Follows course left]
    [Follows course right] : Follows course (if condition then left else right) := by
  split
  · infer_instance
  · infer_instance

instance {start : σ} {body : σ → Scan (Turn σ α)}
    [turn : ∀ current, Follows course (body current)] : Follows course (repeatUntil start body) where
  returns state := by
    apply repeatUntil_returns (fun _ reached => course.relates state reached) (course.refl state)
    intro current reached before
    apply ((turn current).returns reached).mono
    intro result after later
    cases result with
    | again next => exact course.trans before later
    | done value => exact course.trans before later

instance {items : List α} {body : α → Scan PUnit} [∀ item, Follows course (body item)] :
    Follows course (items.forM body) := by
  induction items with
  | nil => exact inferInstanceAs (Follows course (pure _))
  | cons item items ih =>
      exact inferInstanceAs (Follows course (body item >>= fun _ => items.forM body))

theorem Follows.remarks {items : List α} {body : α → Scan PUnit} {next : PUnit → Scan β}
    [∀ value, Follows course (next value)] (each : ∀ item, Follows course (body item)) :
    Follows course (items.forM body >>= next) :=
  inferInstance

end

/-! ### Steps on the state -/

instance (distance : Nat) : Follows course (advance distance) where
  returns state := returns_modify (course.advance state distance)

theorem Follows.moving {distance : State → Nat} {next : State → PUnit → Scan α}
    (rest : ∀ state, Follows course (next state ⟨⟩)) :
    Follows course (get >>= fun state =>
      set { state with input := state.input.advance (distance state) } >>= next state) where
  returns state := by
    apply Returns.get_bind
    apply Returns.set_bind
    apply ((rest state).returns _).mono
    intro _ _ later
    exact course.trans (course.advance state (distance state)) later

instance (name : Bytes) : Follows course (intern name) where
  returns state := by
    constructor
    intro _ _ run
    cases run
    exact course.intern state _

instance (holds : Bool) (fault : Fault) : Follows course (relyOn holds fault) := by
  unfold relyOn
  infer_instance

instance (span : Span) (problem : Problem) : Follows course (report span problem) where
  returns state := by
    apply Returns.get_bind
    apply Returns.relyOn_bind
    exact returns_modify (course.report state span problem)

instance [asks : course.Asks] : Follows course fetchMore where
  returns state := by
    apply Returns.get_bind
    apply Returns.relyOn_bind
    constructor
    intro _ _ run
    cases run
    dsimp only
    split
    · next answer => exact asks.ask state (by rw [answer]; rfl)
    · next chunk answer =>
        split
        · next empty =>
            exact asks.ask state (by rw [answer]; exact List.isEmpty_iff.mp empty)
        · exact asks.fetch state answer

instance : Follows course position := by
  unfold position
  infer_instance

instance : Follows course peek := by
  unfold peek
  infer_instance

instance [course.Asks] : Follows course hasMore := by
  unfold hasMore
  infer_instance

instance (start stop : Nat) : Follows course (checkRange start stop) := by
  unfold checkRange
  infer_instance

instance (position : Nat) : Follows course (checkByte position) := by
  unfold checkByte
  infer_instance

instance (error : Fatal) : Follows course (fail error : Scan α) := by
  unfold fail
  infer_instance

instance (kind : TokenKind) (start : Nat) : Follows course (token kind start) := by
  unfold token
  infer_instance

/-! ### What the lexer remembers -/

variable [course.Lexes]

instance (f : LexerState → LexerState) [goesOn : LexerState.GoesOn f] :
    Follows course (setLexer f) where
  returns state := returns_modify
    (State.Course.Lexes.setLexer state _ (goesOn.ended state.lexer))

instance (mode : Mode) : Follows course (setMode mode) := by
  unfold setMode
  infer_instance

/-! ### Names and numbers -/

omit [course.Lexes] in
instance (start : Nat) (what : Truncated) : Follows course (internFrom start what) := by
  unfold internFrom
  infer_instance

instance (word : Keyword) (mode : Mode) (start : Nat) :
    Follows course (keyword word mode start) := by
  unfold keyword
  infer_instance

instance (mode : Mode) (statementStart marked : Bool) (first : Byte) (start : Nat) :
    Follows course (plainName mode statementStart marked first start) := by
  unfold plainName
  infer_instance

omit [course.Lexes] in
instance (start : Nat) (digits : Bytes) : Follows course (referenceNumber start digits) := by
  unfold referenceNumber
  infer_instance

set_option synthInstance.maxSize 512 in
instance : Follows course globalVariable := by
  unfold globalVariable
  dsimp only
  infer_instance

set_option synthInstance.maxSize 1024 in
instance : Follows course atVariable := by
  unfold atVariable
  dsimp only
  infer_instance

instance (start : Nat) (reading : NumberReading) : Follows course (number start reading) := by
  unfold number
  apply Follows.andThen
  intro digits
  apply Follows.andThen
  intro _
  apply Follows.andThen
  intro _
  apply Follows.andThen
  intro stop
  apply Follows.andThen
  intro _
  apply Follows.remarks
  intro remark
  obtain ⟨offset, problem⟩ := remark
  cases offset with
  | none => infer_instance
  | some offset => infer_instance

/-! ### Literals -/

instance (literal : Option OpenLiteral) : Follows course (setLiteral literal) := by
  unfold setLiteral
  infer_instance

instance (start : Nat) : Follows course (enterInterpolation start) := by
  unfold enterInterpolation
  infer_instance

instance : Follows course leaveInterpolation := by
  have goesOn : LexerState.GoesOn fun lexer : LexerState =>
      match lexer.contexts with
      | [] => lexer
      | context :: contexts =>
          { lexer with
            contexts
            literal := context.literal
            mode := context.mode
            statementStart := context.statementStart
            loopFlags := context.loopFlags
            commandFlags := context.commandFlags
            brackets := context.brackets } := by
    constructor
    intro lexer
    split <;> rfl
  unfold leaveInterpolation
  infer_instance

instance (kind : Interpolation) : Follows course (interpolation kind) := by
  unfold interpolation
  cases kind with
  | code => infer_instance
  | variableName => infer_instance

omit [course.Lexes] in
instance (backslash : Nat) (reading : EscapeReading) :
    Follows course (escapeRemarks backslash reading) := by
  unfold escapeRemarks
  infer_instance

instance (literal : Quotation) (start : Nat) : Follows course (closeLiteral literal start) := by
  unfold closeLiteral
  apply Follows.andThen
  intro _
  apply Follows.andThen
  intro state
  split
  · infer_instance
  · infer_instance

set_option synthInstance.maxSize 256 in
omit [course.Lexes] in
instance [course.Asks] : Follows course skipGap := by
  unfold skipGap
  infer_instance

omit [course.Lexes] in
instance [course.Asks] (literal : Quotation) : Follows course (gather literal) := by
  unfold gather
  infer_instance

set_option synthInstance.maxSize 512 in
instance [course.Asks] (literal : Quotation) : Follows course (literalText literal) := by
  unfold literalText
  infer_instance

instance [course.Asks] (literal : Quotation) : Follows course (quotation literal) := by
  unfold quotation
  apply Follows.andThen
  intro gapStart
  extract_lets afterGap
  have afterGap_follows (gap : Bool) : Follows course (afterGap gap) := by
    unfold afterGap
    split
    · infer_instance
    · apply Follows.andThen
      intro start
      apply Follows.andThen
      intro more
      extract_lets inside
      have inside_follows (checked : Unit) : Follows course (inside checked) := by
        apply Follows.andThen
        intro state
        dsimp only
        split
        · infer_instance
        · split
          · infer_instance
          · infer_instance
      clear_value inside
      infer_instance
  clear_value afterGap
  infer_instance

instance (literal : Quotation) : Follows course (openLiteral literal) := by
  unfold openLiteral
  infer_instance

instance [course.Asks] (start : Nat) : Follows course (percentLiteral start) := by
  unfold percentLiteral
  apply Follows.andThen
  intro state
  extract_lets first letter opened afterLetter
  have opened_follows (checked : Unit) : Follows course (opened checked) := by
    apply Follows.andThen
    intro state
    dsimp only
    infer_instance
  have afterLetter_follows (passed : Unit) : Follows course (afterLetter passed) := by
    unfold afterLetter
    clear_value opened
    infer_instance
  clear_value afterLetter
  infer_instance

set_option synthInstance.maxSize 512 in
instance (mode : Mode) (start : Nat) : Follows course (characterLiteral? mode start) := by
  unfold characterLiteral?
  apply Follows.andThen
  intro state
  dsimp only
  split
  · infer_instance
  · infer_instance

omit [course.Lexes] in
instance : Follows course symbolName? := by
  unfold symbolName?
  apply Follows.andThen
  intro state
  apply Follows.andThen
  intro _
  split
  · infer_instance
  · infer_instance

/-! ### Heredocs -/

instance : Follows course heredocOpener? := by
  unfold heredocOpener?
  apply Follows.andThen
  intro state
  dsimp only
  split
  · infer_instance
  · infer_instance
  · infer_instance

instance (node : NodeId) : Follows course (awaitBody node) := by
  unfold awaitBody
  infer_instance

instance : Follows course beginHeredocBodies := by
  unfold beginHeredocBodies
  infer_instance

instance : Follows course nextHeredoc? := by
  unfold nextHeredoc?
  apply Follows.andThen
  intro state
  split
  · infer_instance
  · infer_instance

omit [course.Lexes] in
instance [course.Asks] (heredoc : Heredoc) : Follows course (heredocText heredoc) := by
  unfold heredocText
  infer_instance

instance [course.Asks] (heredoc : Heredoc) (lineHead : Bool) :
    Follows course (heredocContent heredoc lineHead) := by
  unfold heredocContent
  infer_instance

instance [course.Asks] (heredoc : Heredoc) (lineHead : Bool) :
    Follows course (heredocBody heredoc lineHead) := by
  unfold heredocBody
  apply Follows.andThen
  intro start
  split
  · apply Follows.andThen
    intro more
    extract_lets inside
    have inside_follows (checked : Unit) : Follows course (inside checked) := by
      unfold inside
      apply Follows.andThen
      intro _
      apply Follows.andThen
      intro _
      apply Follows.andThen
      intro _
      apply Follows.andThen
      intro state
      split
      · infer_instance
      · infer_instance
    clear_value inside
    infer_instance
  · apply Follows.andThen
    intro state
    dsimp only
    split
    · infer_instance
    · infer_instance

/-! ### Marks -/

instance (reading : OperatorReading) : Follows course (operator reading) := by
  unfold operator
  apply Follows.andThen
  intro start
  apply Follows.andThen
  intro _
  extract_lets rest
  have rest_follows (warned : Unit) : Follows course (rest warned) := by
    apply Follows.andThen
    intro _
    split
    · infer_instance
    · infer_instance
    · infer_instance
  clear_value rest
  split
  · infer_instance
  · infer_instance

instance (reading : OperatorReading) : Follows course (plusMark reading) := by
  unfold plusMark
  infer_instance

instance (reading : OperatorReading) : Follows course (dotMark reading) := by
  unfold dotMark
  infer_instance

instance (before : Surroundings) (reading : OperatorReading) :
    Follows course (lessMark before reading) := by
  unfold lessMark
  apply Follows.andThen
  intro state
  extract_lets input operated afterOpener
  have afterOpener_follows (opener : Option Token) : Follows course (afterOpener opener) := by
    unfold afterOpener
    split
    · infer_instance
    · infer_instance
  clear_value afterOpener
  infer_instance

instance (reading : OperatorReading) : Follows course (minusMark reading) := by
  unfold minusMark
  infer_instance

instance (before : Surroundings) (reading : OperatorReading) (literal : Nat → Scan Token)
    [∀ start, Follows course (literal start)] :
    Follows course (literalMark before reading literal) := by
  unfold literalMark
  infer_instance

instance (before : Surroundings) (reading : OperatorReading) :
    Follows course (colonMark before reading) := by
  unfold colonMark
  apply Follows.andThen
  intro state
  dsimp only
  have symbol (start : Nat) : Follows course (symbolName? >>= fun
      | some symbol => setMode .operandEnd >>= fun _ => token (.symbol symbol) start
      | none => setMode .begin >>= fun _ => token (.punct .colon) start) := by
    apply Follows.andThen
    intro symbol
    split
    · infer_instance
    · infer_instance
  infer_instance

instance (before : Surroundings) : Follows course (questionMark before) := by
  unfold questionMark
  apply Follows.andThen
  intro start
  apply Follows.andThen
  intro _
  apply Follows.andThen
  intro literal
  split
  · infer_instance
  · infer_instance

instance (before : Surroundings) (interpolates : Bool) :
    Follows course (quoteMark before interpolates) := by
  unfold quoteMark
  infer_instance

instance (before : Surroundings) : Follows course (backquoteMark before) := by
  unfold backquoteMark
  infer_instance

instance (mark : Punct) : Follows course (openBracket mark) := by
  unfold openBracket
  infer_instance

instance (mark : Punct) (mode : Mode) : Follows course (closeBracket mark mode) := by
  unfold closeBracket
  infer_instance

instance (before : Surroundings) : Follows course (parenMark before) := by
  unfold parenMark
  infer_instance

instance (before : Surroundings) : Follows course (squareMark before) := by
  unfold squareMark
  infer_instance

instance (before : Surroundings) : Follows course (braceMark before) := by
  unfold braceMark
  infer_instance

instance : Follows course closeBrace := by
  unfold closeBrace
  infer_instance

instance : Follows course semicolonMark := by
  unfold semicolonMark
  infer_instance

instance (before : Surroundings) (first : Char) (reading : OperatorReading)
    [∀ start, Follows course (percentLiteral start)] :
    Follows course (operatorMark before first reading) := by
  unfold operatorMark
  split <;> infer_instance

instance (before : Surroundings) [∀ start, Follows course (percentLiteral start)] :
    Follows course (mark? before) := by
  unfold mark?
  apply Follows.andThen
  intro state
  dsimp only
  split
  · infer_instance
  · split <;> infer_instance

/-! ### Tokens -/

instance (start : Nat) : Follows course (newline start) := by
  unfold newline
  infer_instance

omit [course.Lexes] in
instance : Follows course heredocMarker := by
  unfold heredocMarker
  infer_instance

instance : Follows course lineFeed := by
  unfold lineFeed
  apply Follows.andThen
  intro state
  apply Follows.andThen
  intro _
  split
  · infer_instance
  · split
    · infer_instance
    · split
      · infer_instance
      · infer_instance

omit [course.Lexes] in
instance [course.Asks] : Follows course embeddedDocument := by
  unfold embeddedDocument
  apply Follows.andThen
  intro start
  extract_lets skipLine nextLine lineStart
  have skipLine_follows : Follows course skipLine :=
    inferInstanceAs (Follows course (get >>= fun state => advance _))
  have nextLine_follows (more : Unit) : Follows course (nextLine more) := by
    unfold nextLine
    clear_value skipLine
    infer_instance
  have lineStart_follows (passed : Unit) : Follows course (lineStart passed) := by
    unfold lineStart
    clear_value nextLine
    infer_instance
  clear_value lineStart skipLine
  infer_instance

omit [course.Lexes] in
instance : Follows course invalidCharacter := by
  unfold invalidCharacter
  infer_instance

instance [course.Asks] (literal : OpenLiteral) : Follows course (literalToken literal) := by
  unfold literalToken
  apply Follows.andThen
  intro state
  split
  · infer_instance
  · split
    · infer_instance
    · infer_instance

end

/-! ### The end of the program -/

section

variable {course : State.Course} [course.Whole]

instance (statementStart : Bool) : Follows course (name statementStart) := by
  have ends (distance : State → Nat) : Follows course (modify fun state : State =>
      { state with
        input := state.input.advance (distance state)
        lexer := { state.lexer with ended := true } }) := by
    constructor
    intro state
    apply returns_modify
    exact course.trans (course.advance state (distance state))
      (State.Course.Whole.close { state with input := state.input.advance (distance state) })
  unfold name
  apply Follows.moving
  intro state
  apply Follows.andThen
  intro _
  apply Follows.andThen
  intro _
  split
  · infer_instance
  · split
    · infer_instance
    · split
      · infer_instance
      · infer_instance

instance (start : Nat) : Follows course (endOfInput start) := by
  have ends : Follows course (setLexer fun lexer => { lexer with ended := true }) := by
    constructor
    intro state
    exact returns_modify (State.Course.Whole.close state)
  unfold endOfInput
  apply Follows.andThen
  intro state
  extract_lets lexer rest
  have rest_follows (checked : Unit) : Follows course (rest checked) := by
    unfold rest
    split
    · infer_instance
    · infer_instance
  clear_value rest
  infer_instance

instance (before : Surroundings) [∀ start, Follows course (percentLiteral start)]
    [Follows course embeddedDocument] : Follows course (tokenHere before) := by
  unfold tokenHere
  apply Follows.andThen
  intro state
  apply Follows.andThen
  intro _
  split
  · infer_instance
  · split
    · infer_instance
    · split
      · infer_instance
      · apply Follows.andThen
        intro token
        split
        · infer_instance
        · infer_instance

set_option synthInstance.maxSize 512 in
instance [course.Asks] (before : Surroundings) : Follows course (tokenTurn before) := by
  unfold tokenTurn
  infer_instance

instance [course.Asks] : Follows course nextToken := by
  unfold nextToken
  apply Follows.andThen
  intro state
  dsimp only
  split
  · infer_instance
  · infer_instance

end

/-! ### What the lexer leaves alone -/

abbrev Lexical (step : Scan α) : Prop :=
  Follows .undisturbed step

theorem Lexical.returns {step : Scan α} [lexical : Lexical step] (state : State) :
    Returns step state fun _ after => state.Undisturbed after := by
  have follows : Follows .undisturbed step := lexical
  exact follows.returns state

/-- The record of the tokens gains the token that is read, and nothing else of
what the grammar builds is touched. -/
theorem readToken_returns (state : State) :
    Returns readToken state fun token after =>
      ∃ reached, state.Undisturbed reached ∧
        after = { reached with tokens := token :: state.tokens } := by
  apply (Lexical.returns state).bind
  intro token reached same
  apply Returns.modify_bind
  apply returns_pure
  refine ⟨reached, same, ?_⟩
  rw [← same.tokens]

end Scan

end RubySyntax
