/-
Where tokens stand.

A token reaches from the position where it starts to the position where reading
stops. Only the end of the program may differ. Three classes of steps carry this
through the lexer: those that do not move, those that give a token which starts at
a given position, and those that do so if they are taken there.
-/

import RubySyntax.Proofs.Lexer.Length
import RubySyntax.Proofs.Lexer.Undisturbed

namespace RubySyntax

variable {α β σ : Type}

/-! ### Kinds -/

class TokenKind.Ordinary (kind : TokenKind) : Prop where
  inside : kind ≠ .endOfInput
  unreserved : ∀ word, kind ≠ .keyword word

namespace TokenKind

instance (mark : Punct) : (punct mark).Ordinary := ⟨nofun, nofun⟩
instance (name : Symbol) : (identifier name).Ordinary := ⟨nofun, nofun⟩
instance (name : Symbol) : (constant name).Ordinary := ⟨nofun, nofun⟩
instance (name : Symbol) : (methodName name).Ordinary := ⟨nofun, nofun⟩
instance (name : Symbol) : (label name).Ordinary := ⟨nofun, nofun⟩
instance (name : Symbol) : (symbol name).Ordinary := ⟨nofun, nofun⟩
instance (name : Symbol) : (instanceVariable name).Ordinary := ⟨nofun, nofun⟩
instance (name : Symbol) : (classVariable name).Ordinary := ⟨nofun, nofun⟩
instance (name : Symbol) : (globalVariable name).Ordinary := ⟨nofun, nofun⟩
instance (number : Nat) : (numberedReference number).Ordinary := ⟨nofun, nofun⟩
instance (byte : Byte) : (backReference byte).Ordinary := ⟨nofun, nofun⟩
instance (value : Int) : (integer value).Ordinary := ⟨nofun, nofun⟩
instance (value : Binary64) : (float value).Ordinary := ⟨nofun, nofun⟩
instance (bytes : Bytes) : (character bytes).Ordinary := ⟨nofun, nofun⟩
instance (operator : Symbol) : (operatorAssign operator).Ordinary := ⟨nofun, nofun⟩
instance (kind : LiteralKind) : (literalBegin kind).Ordinary := ⟨nofun, nofun⟩
instance : heredocBegin.Ordinary := ⟨nofun, nofun⟩
instance (flags : Bytes) : (literalEnd flags).Ordinary := ⟨nofun, nofun⟩
instance : labelEnd.Ordinary := ⟨nofun, nofun⟩
instance (bytes : Bytes) (lineHead : Bool) : (content bytes lineHead).Ordinary := ⟨nofun, nofun⟩
instance : interpolationBegin.Ordinary := ⟨nofun, nofun⟩
instance : interpolationEnd.Ordinary := ⟨nofun, nofun⟩
instance : variableInterpolation.Ordinary := ⟨nofun, nofun⟩
instance : wordSeparator.Ordinary := ⟨nofun, nofun⟩
instance : heredocBodies.Ordinary := ⟨nofun, nofun⟩
instance : newline.Ordinary := ⟨nofun, nofun⟩
instance : semicolon.Ordinary := ⟨nofun, nofun⟩

instance {condition : Prop} [Decidable condition] {left right : TokenKind} [left.Ordinary]
    [right.Ordinary] : (if condition then left else right).Ordinary := by
  split
  · infer_instance
  · infer_instance

end TokenKind

namespace Scan

/-! ### Steps that do not move -/

class Stays (step : Scan α) : Prop where
  returns : ∀ state, Returns step state fun _ after =>
    after.input.position = state.input.position

section

variable {first : Scan α} {next : α → Scan β}

instance (value : α) : Stays (pure value : Scan α) where
  returns _ := returns_pure rfl

instance (halt : Halt) : Stays (throw halt : Scan α) where
  returns _ := returns_throw halt

instance : Stays (get : Scan State) where
  returns _ := by
    constructor
    intro _ _ run
    cases run
    rfl

instance Stays.bind [Stays first] [∀ value, Stays (next value)] : Stays (first >>= next) where
  returns state := (Stays.returns state).bind fun _ reached before =>
    (Stays.returns reached).mono fun _ _ later => later.trans before

instance {condition : Prop} [Decidable condition] {left right : Scan α} [Stays left]
    [Stays right] : Stays (if condition then left else right) := by
  split
  · infer_instance
  · infer_instance

instance {items : List α} {body : α → Scan PUnit} [∀ item, Stays (body item)] :
    Stays (items.forM body) := by
  induction items with
  | nil => exact inferInstanceAs (Stays (pure _))
  | cons item items ih => exact inferInstanceAs (Stays (body item >>= fun _ => items.forM body))

end

instance (f : LexerState → LexerState) : Stays (setLexer f) where
  returns _ := returns_modify rfl

instance (name : Bytes) : Stays (intern name) where
  returns _ := by
    constructor
    intro _ _ run
    cases run
    rfl

instance (holds : Bool) (fault : Fault) : Stays (relyOn holds fault) := by
  unfold relyOn
  infer_instance

instance (span : Span) (problem : Problem) : Stays (report span problem) where
  returns _ := by
    apply Returns.get_bind
    apply Returns.relyOn_bind
    exact returns_modify rfl

instance : Stays fetchMore where
  returns _ := by
    apply Returns.get_bind
    apply Returns.relyOn_bind
    constructor
    intro _ _ run
    cases run
    dsimp only
    split
    · rfl
    · split <;> rfl

instance : Stays position := by
  unfold position
  infer_instance

instance : Stays peek := by
  unfold peek
  infer_instance

instance : Stays hasMore := by
  unfold hasMore
  infer_instance

instance (start stop : Nat) : Stays (checkRange start stop) := by
  unfold checkRange
  infer_instance

instance (position : Nat) : Stays (checkByte position) := by
  unfold checkByte
  infer_instance

instance (error : Fatal) : Stays (fail error : Scan α) := by
  unfold fail
  infer_instance

instance (mode : Mode) : Stays (setMode mode) := by
  unfold setMode
  infer_instance

instance (literal : Option OpenLiteral) : Stays (setLiteral literal) := by
  unfold setLiteral
  infer_instance

/-! ### Steps that give a token -/

structure Stands (start : Nat) (token : Token) (after : State) : Prop where
  span : token.span = ⟨start, after.input.position⟩
  ordinary : token.kind.Ordinary

class StartsAt (start : Nat) (step : Scan Token) : Prop where
  returns : ∀ state, Returns step state (Stands start)

class Starts (start : Nat) (step : Scan Token) : Prop where
  returns : ∀ state : State, state.input.position = start → Returns step state (Stands start)

variable {start : Nat} {first : Scan α} {next : α → Scan Token}

instance (kind : TokenKind) [kind.Ordinary] : StartsAt start (token kind start) where
  returns _ := by
    constructor
    intro _ _ run
    cases run
    exact ⟨rfl, inferInstance⟩

instance (halt : Halt) : StartsAt start (throw halt) where
  returns _ := returns_throw halt

instance (error : Fatal) : StartsAt start (fail error) := by
  unfold fail
  infer_instance

instance StartsAt.bind [∀ value, StartsAt start (next value)] :
    StartsAt start (first >>= next) where
  returns state := (returns_any first state).bind fun _ reached _ => StartsAt.returns reached

theorem StartsAt.andThen (rest : ∀ value, StartsAt start (next value)) :
    StartsAt start (first >>= next) :=
  inferInstance

instance {condition : Prop} [Decidable condition] {left right : Scan Token}
    [StartsAt start left] [StartsAt start right] :
    StartsAt start (if condition then left else right) := by
  split
  · infer_instance
  · infer_instance

instance (priority := low) {step : Scan Token} [StartsAt start step] : Starts start step where
  returns state _ := StartsAt.returns state

instance Starts.bind [Stays first] [∀ value, Starts start (next value)] :
    Starts start (first >>= next) where
  returns state here := (Stays.returns state).bind fun _ reached still =>
    Starts.returns reached (still.trans here)

theorem Starts.andThen [Stays first] (rest : ∀ value, Starts start (next value)) :
    Starts start (first >>= next) :=
  inferInstance

instance (priority := high) Starts.position {next : Nat → Scan Token}
    [here : Starts start (next start)] : Starts start (position >>= next) where
  returns state same := by
    subst same
    exact (here.returns state rfl).position_bind

theorem Starts.atPosition {next : Nat → Scan Token} (rest : Starts start (next start)) :
    Starts start (Scan.position >>= next) :=
  inferInstance

instance {condition : Prop} [Decidable condition] {left right : Scan Token}
    [Starts start left] [Starts start right] :
    Starts start (if condition then left else right) := by
  split
  · infer_instance
  · infer_instance

theorem Starts.looking {next : State → Scan Token}
    (rest : ∀ state : State, state.input.position = start → Starts start (next state)) :
    Starts start (get >>= next) where
  returns state here := (rest state here).returns state here |>.get_bind

theorem Returns.held {state : State} {first : Scan Token} {rest : Token → Scan PUnit}
    [∀ result, Stays (rest result)] (stands : Returns first state (Stands start)) :
    Returns (first >>= fun result => rest result >>= fun _ => pure result) state
      (Stands start) := by
  apply stands.bind
  intro result reached stands
  apply (Stays.returns reached).bind
  intro _ after still
  refine returns_pure ⟨?_, stands.ordinary⟩
  rw [still]
  exact stands.span

instance StartsAt.held {first : Scan Token} {rest : Token → Scan PUnit}
    [StartsAt start first] [∀ result, Stays (rest result)] :
    StartsAt start (first >>= fun result => rest result >>= fun _ => pure result) where
  returns state := (StartsAt.returns state).held

instance Starts.held {first : Scan Token} {rest : Token → Scan PUnit}
    [Starts start first] [∀ result, Stays (rest result)] :
    Starts start (first >>= fun result => rest result >>= fun _ => pure result) where
  returns state here := (Starts.returns state here).held

/-! ### Names and numbers -/

instance (start : Nat) (what : Truncated) : Stays (internFrom start what) := by
  unfold internFrom
  infer_instance

instance (mode : Mode) (statementStart marked : Bool) (byte : Byte) :
    StartsAt start (plainName mode statementStart marked byte start) := by
  unfold plainName
  infer_instance

set_option synthInstance.maxSize 512 in
instance : Starts start globalVariable := by
  unfold globalVariable
  apply Starts.looking
  intro state here
  dsimp only
  rw [here]
  infer_instance

set_option synthInstance.maxSize 1024 in
instance : Starts start atVariable := by
  unfold atVariable
  apply Starts.looking
  intro state here
  dsimp only
  rw [here]
  have kind (read : AtVariable) (symbol : Symbol) : TokenKind.Ordinary (match read with
      | .ofClass => .classVariable symbol
      | .ofInstance => .instanceVariable symbol) := by
    cases read with
    | ofClass => exact inferInstanceAs (TokenKind.classVariable symbol).Ordinary
    | ofInstance => exact inferInstanceAs (TokenKind.instanceVariable symbol).Ordinary
  infer_instance

instance (reading : NumberReading) [reading.value.Ordinary] :
    StartsAt start (number start reading) := by
  unfold number
  infer_instance

/-! ### Literals -/

instance (start : Nat) : Stays (enterInterpolation start) := by
  unfold enterInterpolation
  infer_instance

instance : Stays leaveInterpolation := by
  unfold leaveInterpolation
  infer_instance

instance (kind : Interpolation) : Starts start (interpolation kind) := by
  unfold interpolation
  cases kind with
  | code => infer_instance
  | variableName => infer_instance

instance (literal : Quotation) : StartsAt start (closeLiteral literal start) := by
  unfold closeLiteral
  apply StartsAt.andThen
  intro _
  apply StartsAt.andThen
  intro state
  dsimp only
  infer_instance

instance (literal : Quotation) : Starts start (literalText literal) := by
  unfold literalText
  infer_instance

instance {kind : LiteralKind} {interpolates labelAllowed percent wordStarted : Bool}
    {opening : Option Byte} {closing : Byte} {nesting : Nat} :
    StartsAt start (openLiteral
      { kind, interpolates, opening, closing, nesting, labelAllowed, percent, start,
        wordStarted }) := by
  unfold openLiteral
  infer_instance

instance : StartsAt start (percentLiteral start) := by
  unfold percentLiteral
  apply StartsAt.andThen
  intro state
  extract_lets first letter opened afterLetter
  have opened_starts (checked : Unit) : StartsAt start (opened checked) := by
    apply StartsAt.andThen
    intro state
    dsimp only
    infer_instance
  have afterLetter_starts (passed : Unit) : StartsAt start (afterLetter passed) := by
    unfold afterLetter
    clear_value opened
    infer_instance
  clear_value afterLetter
  infer_instance

/-! ### Heredocs -/

instance (heredoc : Heredoc) (lineHead : Bool) :
    Starts start (heredocContent heredoc lineHead) := by
  unfold heredocContent
  infer_instance

instance (heredoc : Heredoc) (lineHead : Bool) : Starts start (heredocBody heredoc lineHead) := by
  unfold heredocBody
  apply Starts.atPosition
  split
  · apply Starts.andThen
    intro more
    extract_lets inside
    have inside_starts (checked : Unit) : Starts start (inside checked) := by
      unfold inside
      apply Starts.andThen
      intro _
      apply Starts.andThen
      intro _
      apply Starts.andThen
      intro _
      apply Starts.andThen
      intro state
      split
      · infer_instance
      · infer_instance
    clear_value inside
    infer_instance
  · apply Starts.andThen
    intro state
    dsimp only
    split
    · infer_instance
    · infer_instance

/-! ### Marks -/

instance (reading : OperatorReading) : Starts start (operator reading) := by
  unfold operator
  apply Starts.atPosition
  extract_lets rest
  have rest_starts (warned : Unit) : StartsAt start (rest warned) := by
    apply StartsAt.andThen
    intro _
    split
    · infer_instance
    · infer_instance
    · infer_instance
  clear_value rest
  have : StartsAt start (match reading.warning with
    | some (problem, length) => report ⟨start, start + length⟩ problem >>= rest
    | none => rest ()) := by
    split
    · infer_instance
    · infer_instance
  infer_instance

theorem NumberReading.ordinary_of_value {reading : NumberReading}
    (value : (∃ number, reading.value = .integer number) ∨
      ∃ number, reading.value = .float number) : reading.value.Ordinary := by
  cases value with
  | inl whole =>
      obtain ⟨number, same⟩ := whole
      rw [same]
      infer_instance
  | inr broken =>
      obtain ⟨number, same⟩ := broken
      rw [same]
      infer_instance

instance (rest : Bytes) : (NumberReading.ofDigits rest).value.Ordinary :=
  NumberReading.ordinary_of_value (NumberReading.ofDigits_value rest)

instance (rest : Bytes) : (NumberReading.ofFraction rest).value.Ordinary :=
  inferInstanceAs (TokenKind.float _).Ordinary

instance (reading : OperatorReading) : Starts start (plusMark reading) := by
  unfold plusMark
  apply Starts.looking
  intro state here
  dsimp only
  rw [here]
  infer_instance

instance (reading : OperatorReading) : Starts start (dotMark reading) := by
  unfold dotMark
  apply Starts.looking
  intro state here
  dsimp only
  rw [here]
  infer_instance

/-- The opener of a heredoc starts where the step is taken; without one the
position is the same. -/
theorem heredocOpener?_returns {state : State} (here : state.input.position = start) :
    Returns heredocOpener? state fun opener after =>
      match opener with
      | some token => Stands start token after
      | none => after.input.position = start := by
  unfold heredocOpener?
  apply Returns.get_bind
  dsimp only
  rw [here]
  split
  · exact returns_pure here
  · apply (Stays.returns state).bind
    intro _ reached still
    exact returns_pure (still.trans here)
  · apply (returns_any (advance _) _).bind
    intro _ _ _
    apply (returns_any position _).bind
    intro _ _ _
    apply (returns_any (checkRange _ _) _).bind
    intro _ _ _
    apply (returns_any (setLexer _) _).bind
    intro _ _ _
    have opened : StartsAt start (token .heredocBegin start) := inferInstance
    apply (opened.returns _).bind
    intro _ _ stands
    exact returns_pure stands

instance (before : Surroundings) (reading : OperatorReading) :
    Starts start (lessMark before reading) where
  returns state here := by
    unfold lessMark
    apply Returns.get_bind
    extract_lets input operated afterOpener
    have operates (passed : Unit) : Starts start (operated passed) :=
      inferInstanceAs (Starts start (operator reading))
    clear_value operated
    have afterwards {reached : State} (opener : Option Token)
        (stands : match opener with
          | some token => Stands start token reached
          | none => reached.input.position = start) :
        Returns (afterOpener opener) reached (Stands start) := by
      cases opener with
      | some token => exact returns_pure stands
      | none =>
          have rest : Starts start (afterOpener none) := by
            unfold afterOpener
            infer_instance
          exact rest.returns reached stands
    clear_value afterOpener
    split
    · exact (heredocOpener?_returns here).bind fun opener _ stands => afterwards opener stands
    · rw [pure_bind]
      exact afterwards none here

instance (reading : OperatorReading) : Starts start (minusMark reading) := by
  unfold minusMark
  infer_instance

instance (before : Surroundings) (reading : OperatorReading) (literal : Nat → Scan Token)
    [StartsAt start (literal start)] : Starts start (literalMark before reading literal) := by
  unfold literalMark
  apply Starts.looking
  intro state here
  dsimp only
  rw [here]
  infer_instance

instance (before : Surroundings) (reading : OperatorReading) :
    Starts start (colonMark before reading) := by
  unfold colonMark
  apply Starts.looking
  intro state here
  dsimp only
  rw [here]
  have symbol : StartsAt start (symbolName? >>= fun
      | some symbol => setMode .operandEnd >>= fun _ => token (.symbol symbol) start
      | none => setMode .begin >>= fun _ => token (.punct .colon) start) := by
    apply StartsAt.andThen
    intro symbol
    split
    · infer_instance
    · infer_instance
  infer_instance

theorem characterLiteral?_returns (mode : Mode) (state : State) :
    Returns (characterLiteral? mode start) state fun literal after =>
      ∀ token ∈ literal, Stands start token after := by
  unfold characterLiteral?
  apply Returns.get_bind
  dsimp only
  split
  · exact returns_pure (by rintro _ ⟨⟩)
  · split
    · exact returns_pure (by rintro _ ⟨⟩)
    · have finished (bytes : Bytes) (reached : State) :
          Returns (do
            setMode .operandEnd
            return some (← token (.character bytes) start)) reached fun literal after =>
              ∀ token ∈ literal, Stands start token after := by
        apply (returns_any (setMode _) _).bind
        intro _ set _
        have read : StartsAt start (token (.character bytes) start) := inferInstance
        apply (read.returns set).bind
        intro token after stands
        apply returns_pure
        rintro _ ⟨⟩
        exact stands
      split
      · apply (returns_any (advance _) _).bind
        intro _ _ _
        apply (returns_any (escapeRemarks _ _) _).bind
        intro _ _ _
        exact finished _ _
      · apply (returns_any (checkRange _ _) _).bind
        intro _ _ _
        apply (returns_any (advance _) _).bind
        intro _ _ _
        exact finished _ _

instance (before : Surroundings) : Starts start (questionMark before) := by
  unfold questionMark
  apply Starts.atPosition
  constructor
  intro state here
  apply (returns_any (advance _) _).bind
  intro _ moved _
  apply (characterLiteral?_returns before.mode moved).bind
  intro literal reached stands
  cases literal with
  | some token => exact returns_pure (stands token rfl)
  | none =>
      have asked : StartsAt start (setMode .value >>= fun _ => token (.punct .question) start) :=
        inferInstance
      exact asked.returns reached

instance (before : Surroundings) (interpolates : Bool) :
    Starts start (quoteMark before interpolates) := by
  unfold quoteMark
  apply Starts.looking
  intro state here
  dsimp only
  rw [here]
  infer_instance

instance (before : Surroundings) : Starts start (backquoteMark before) := by
  unfold backquoteMark
  infer_instance

instance (mark : Punct) : Starts start (openBracket mark) := by
  unfold openBracket
  infer_instance

instance (mark : Punct) (mode : Mode) : Starts start (closeBracket mark mode) := by
  unfold closeBracket
  infer_instance

instance (before : Surroundings) : Starts start (parenMark before) := by
  unfold parenMark
  infer_instance

instance (before : Surroundings) : Starts start (squareMark before) := by
  unfold squareMark
  infer_instance

instance (before : Surroundings) : Starts start (braceMark before) := by
  unfold braceMark
  infer_instance

instance : Starts start closeBrace := by
  unfold closeBrace
  apply Starts.looking
  intro state here
  rw [here]
  infer_instance

instance : Starts start semicolonMark := by
  unfold semicolonMark
  infer_instance

instance (before : Surroundings) (first : Char) (reading : OperatorReading) :
    Starts start (operatorMark before first reading) := by
  unfold operatorMark
  split <;> infer_instance

/-- A mark starts where it is looked for. If there is none, nothing has been done. -/
theorem mark?_returns (before : Surroundings) {state : State}
    (here : state.input.position = start) :
    Returns (mark? before) state fun mark after =>
      match mark with
      | some token => Stands start token after
      | none => after = state := by
  have given {step : Scan Token} [Starts start step] :
      Returns (step >>= fun token => pure (some token)) state fun mark after =>
        match mark with
        | some token => Stands start token after
        | none => after = state := by
    apply (Starts.returns state here).bind
    intro _ _ stands
    exact returns_pure stands
  unfold mark?
  apply Returns.get_bind
  dsimp only
  split
  · exact given
  · split
    case h_12 =>
      split
      · exact given
      · exact returns_pure rfl
    all_goals exact given

/-! ### Line feeds -/

instance : StartsAt start (newline start) := by
  unfold newline
  infer_instance

instance : Starts start heredocMarker := by
  unfold heredocMarker
  infer_instance

/-! ### Words -/

/-- A token that is read as the word for the line only if the bytes before it spell
that word. -/
structure Worded (start : Nat) (spelled : Prop) (token : Token) (after : State) : Prop where
  span : token.span = ⟨start, after.input.position⟩
  inside : token.kind ≠ .endOfInput
  lineWord : token.kind = .keyword .lineWord → spelled

theorem Stands.worded {token : Token} {after : State} (stands : Stands start token after)
    (spelled : Prop) : Worded start spelled token after :=
  ⟨stands.span, stands.ordinary.inside,
    fun reserved => absurd reserved (stands.ordinary.unreserved .lineWord)⟩

theorem Keyword.doReading_ne_lineWord (lexer : LexerState) (mode : Mode) :
    Keyword.doReading lexer mode ≠ .lineWord := by
  unfold Keyword.doReading
  split
  · nofun
  · split <;> nofun

theorem Keyword.modifier_eq_lineWord {word : Keyword} (same : word.modifier = .lineWord) :
    word = .lineWord := by
  cases word <;> first | rfl | cases same

theorem keyword_returns (word : Keyword) (mode : Mode) (state : State) :
    Returns (keyword word mode start) state (Worded start (word = .lineWord)) := by
  have given {read : Keyword} (same : read = .lineWord → word = .lineWord) (state : State) :
      Returns (token (.keyword read) start) state (Worded start (word = .lineWord)) := by
    constructor
    intro _ _ run
    cases run
    refine ⟨rfl, nofun, ?_⟩
    rintro ⟨⟩
    exact same rfl
  have plain (state : State) :
      Returns (token (.keyword word) start) state (Worded start (word = .lineWord)) :=
    given id state
  unfold keyword
  split
  · exact (returns_any (setMode _) _).bind fun _ _ _ => plain _
  · apply (returns_any (setMode _) _).bind
    intro _ moded _
    extract_lets modified rest
    have modified_returns (passed : Unit) (reached : State) :
        Returns (modified passed) reached (Worded start (word = .lineWord)) :=
      given Keyword.modifier_eq_lineWord reached
    clear_value modified
    have rest_returns (passed : Unit) (reached : State) :
        Returns (rest passed) reached (Worded start (word = .lineWord)) := by
      unfold rest
      split
      · apply Returns.get_bind
        exact given (fun same => absurd same (Keyword.doReading_ne_lineWord _ _)) _
      · split
        · split
          · exact (returns_any (setMode _) _).bind fun _ _ _ => modified_returns _ _
          · exact modified_returns _ _
        · exact plain _
    clear_value rest
    split
    · exact (returns_any (setLexer _) _).bind fun _ _ _ => rest_returns _ _
    · exact rest_returns _ _

theorem Keyword.ofName?_lineWord {name : Bytes} (found : Keyword.ofName? name = some .lineWord) :
    name = ascii "__LINE__" := by
  have same := List.find?_some found
  exact (beq_iff_eq.mp same).symm

/-- A name starts where it is looked for, unless it ends the program. It is the word
for the line only where the bytes spell it. -/
theorem name_returns (statementStart : Bool) {state : State}
    (here : state.input.position = start) :
    Returns (name statementStart) state fun token after =>
      token.kind = .endOfInput ∧ token.span = ⟨start, start + 7⟩ ∨
        Worded start (ascii "__LINE__" <+: state.input.rest) token after := by
  unfold name
  apply Returns.get_bind
  dsimp only
  rw [here]
  apply Returns.set_bind
  apply (returns_any (checkByte _) _).bind
  intro _ checked _
  apply (returns_any (checkRange _ _) _).bind
  intro _ ranged _
  split
  · have labelled (symbol : Symbol) :
        StartsAt start (advance 1 >>= fun _ => setMode .begin >>= fun _ =>
          token (.label symbol) start) := inferInstance
    apply (returns_any (internFrom _ _) _).bind
    intro symbol interned _
    exact ((labelled symbol).returns interned).mono fun _ _ stands => .inr (stands.worded _)
  · split
    · exact Returns.modify_bind (returns_pure (.inl ⟨rfl, rfl⟩))
    · split
      · next word found =>
          apply (keyword_returns word _ ranged).mono
          intro token after worded
          refine .inr ⟨worded.span, worded.inside, fun kind => ?_⟩
          obtain rfl := worded.lineWord kind
          split at found
          · cases found
          · rw [← Keyword.ofName?_lineWord found]
            exact List.take_prefix _ _
      · have plain (marked : Bool) (byte : Byte) :
            StartsAt start (plainName state.lexer.mode statementStart marked byte start) :=
          inferInstance
        exact ((plain _ _).returns ranged).mono fun _ _ stands => .inr (stands.worded _)

end Scan

end RubySyntax
