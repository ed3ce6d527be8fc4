/-
The constructs of the grammar in two coupled runs, from arguments to
definitions.

Each rule is put together from steps that keep the runs in step, so it does so
itself. Only the words that stand for their place in the source look at the
report, where both runs find the same place.
-/

import RubySyntax.Proofs.Coupling.Rule

namespace RubySyntax.Parse

variable {coupling : Coupling} {table : RuleTable} [steady : table.Steady coupling]
  [tracks : coupling.Tracks]

/-! ### Expressions and arguments -/

instance (rule : CommandRule) : InStep coupling table (argument rule) := by
  unfold argument
  infer_instance

instance : InStep coupling table argumentValue := by
  unfold argumentValue
  infer_instance

instance (rule : CommandRule) (left : NodeId) :
    InStep coupling table (expressionTurn rule left) := by
  unfold expressionTurn
  apply InStep.andThen
  intro kind
  dsimp only
  split
  · infer_instance
  · infer_instance

instance (rule : CommandRule) : InStep coupling table (expression rule) := by
  unfold expression
  infer_instance

instance : InStep coupling table expressionValue := by
  unfold expressionValue
  infer_instance

instance : InStep coupling table conditionValue := by
  unfold conditionValue
  infer_instance

instance (operand : Operand) (rule : CommandRule) (allowBlock : Bool) :
    InStep coupling table (finishCommand operand rule allowBlock) := by
  unfold finishCommand
  infer_instance

instance : InStep coupling table splatItem := by
  unfold splatItem
  infer_instance

instance : InStep coupling table listItem := by
  unfold listItem
  infer_instance

instance (name : Symbol) (span : Span) : InStep coupling table (labelKey name span) := by
  unfold labelKey
  infer_instance

instance (list : ArgumentList) (item : NodeId) :
    InStep coupling table (pushPositional list item) := by
  unfold pushPositional
  infer_instance

instance (list : ArgumentList) (key : NodeId) (keySpan : Span) :
    InStep coupling table (pushPairFrom list key keySpan) := by
  unfold pushPairFrom
  infer_instance

instance (list : ArgumentList) : InStep coupling table (plainArgument list) := by
  unfold plainArgument
  apply InStep.andThen
  intro operand
  apply InStep.andThen
  intro label
  split
  · infer_instance
  · infer_instance

instance (list : ArgumentList) : InStep coupling table (argumentItem list) := by
  unfold argumentItem
  apply InStep.andThen
  intro token
  extract_lets rest
  have rest_agrees (refused : Unit) : InStep coupling table (rest refused) := by
    unfold rest
    split <;> infer_instance
  clear_value rest
  infer_instance

instance (list : ArgumentList) : InStep coupling table (finishArguments list) := by
  unfold finishArguments
  infer_instance

instance (closer : Option Punct) : InStep coupling table (atCloser closer) := by
  unfold atCloser
  split
  · infer_instance
  · infer_instance

set_option synthInstance.maxSize 512 in
instance (closer : Option Punct) (list : ArgumentList) :
    InStep coupling table (argumentTurn closer list) := by
  unfold argumentTurn
  infer_instance

instance (closer : Option Punct) : InStep coupling table (arguments closer) := by
  unfold arguments
  infer_instance

instance : InStep coupling table parenthesized := by
  unfold parenthesized
  infer_instance

/-! ### Targets -/

set_option synthInstance.maxSize 512 in
instance (list : TargetList) : InStep coupling table (targetSplat list) := by
  unfold targetSplat
  infer_instance

instance (list : TargetList) : InStep coupling table (targetItem? list) := by
  unfold targetItem?
  infer_instance

instance (progress : TargetList × Bool) : InStep coupling table (targetTurn progress) := by
  unfold targetTurn
  split
  next list starting =>
    extract_lets after
    have after_agrees (continues : Bool) : InStep coupling table (after continues) := by
      unfold after
      split
      · infer_instance
      · apply InStep.andThen
        intro item
        split
        · infer_instance
        · infer_instance
    clear_value after
    infer_instance

instance (read : List NodeId) (start : Span) : InStep coupling table (targetsRest read start) := by
  unfold targetsRest
  infer_instance

instance (opening : Span) : InStep coupling table (nestedTargets opening) := by
  unfold nestedTargets
  infer_instance

instance : InStep coupling table target := by
  unfold target
  infer_instance

/-! ### Bodies, branches and loops -/

instance : InStep coupling table rescuedClasses := by
  unfold rescuedClasses
  apply InStep.andThen
  intro kind
  split <;> infer_instance

set_option synthInstance.maxSize 512 in
instance : InStep coupling table rescueClause := by
  unfold rescueClause
  infer_instance

instance (clauses : Array NodeId) : InStep coupling table (rescueTurn clauses) := by
  unfold rescueTurn
  infer_instance

instance : InStep coupling table rescueClauses := by
  unfold rescueClauses
  infer_instance

instance (body otherwise : Option NodeId) : InStep coupling table (uselessElse body otherwise) := by
  unfold uselessElse
  infer_instance

instance (body : Option NodeId) : InStep coupling table (handledBody body) := by
  unfold handledBody
  apply InStep.andThen
  intro clauses
  apply InStep.andThen
  intro word
  extract_lets handled
  have handled_agrees (otherwise : Option NodeId) : InStep coupling table (handled otherwise) := by
    unfold handled
    split
    · infer_instance
    · infer_instance
    · infer_instance
  clear_value handled
  infer_instance

instance : InStep coupling table body := by
  unfold body
  apply InStep.andThen
  intro statements
  apply InStep.andThen
  intro handled
  apply InStep.andThen
  intro found
  split
  · infer_instance
  · infer_instance

instance : InStep coupling table beginBlock := by
  unfold beginBlock
  infer_instance

instance : InStep coupling table elseBranch := by
  unfold elseBranch
  infer_instance

instance : InStep coupling table ifTail := by
  unfold ifTail
  infer_instance

instance : InStep coupling table ifBlock := by
  unfold ifBlock
  infer_instance

instance : InStep coupling table unlessBlock := by
  unfold unlessBlock
  apply InStep.andThen
  intro word
  apply InStep.andThen
  intro _
  apply InStep.andThen
  intro condition
  apply InStep.andThen
  intro _
  apply InStep.andThen
  intro whenFalse
  apply InStep.andThen
  intro found
  dsimp only
  split
  · infer_instance
  · infer_instance

instance : InStep coupling table loopHead := by
  unfold loopHead
  infer_instance

instance (form : LoopForm) : InStep coupling table (loopBlock form) := by
  unfold loopBlock
  infer_instance

instance (word : Token) : InStep coupling table (whenClause word) := by
  unfold whenClause
  infer_instance

instance (clauses : Array NodeId) : InStep coupling table (whenTurn clauses) := by
  unfold whenTurn
  apply InStep.andThen
  intro word
  split
  · infer_instance
  · infer_instance

instance : InStep coupling table whenClauses := by
  unfold whenClauses
  infer_instance

set_option synthInstance.maxSize 512 in
instance : InStep coupling table caseBlock := by
  unfold caseBlock
  apply InStep.andThen
  intro word
  apply InStep.andThen
  intro _
  apply InStep.andThen
  intro kind
  dsimp only
  infer_instance

instance : InStep coupling table forTarget := by
  unfold forTarget
  infer_instance

instance : InStep coupling table forBlock := by
  unfold forBlock
  infer_instance

/-! ### Literals -/

omit steady tracks in
theorem wordShape?_agrees {word : Keyword} {span : Span}
    (traces : coupling.Traces ⟨.keyword word, span⟩) :
    InStep coupling table (wordShape? word span) := by
  unfold wordShape?
  split
  · infer_instance
  · infer_instance
  · infer_instance
  · infer_instance
  · infer_instance
  · infer_instance
  · apply Agrees.looking
    intro state report arena maxDepth alike _
    have like : state.report.map.Resembles report.map := coupling.map alike.reports
    have same : report.map.fileName (report.map.locate span.start).file =
        state.report.map.fileName (state.report.map.locate span.start).file := by
      unfold SourceMap.fileName
      rw [like.locate_file, like.files]
    dsimp only
    rw [same]
    infer_instance
  · apply Agrees.looking
    intro state report arena maxDepth alike _
    rw [traces rfl _ _ alike.reports]
    infer_instance
  · infer_instance
  · infer_instance

omit steady tracks in
theorem atomShape?_agrees {token : Token} (traces : coupling.Traces token) :
    InStep coupling table (atomShape? token) := by
  obtain ⟨kind, span⟩ := token
  unfold atomShape?
  dsimp only
  split
  case h_10 word => exact wordShape?_agrees traces
  all_goals infer_instance

instance : InStep coupling table variableNode := by
  unfold variableNode
  apply InStep.peek
  intro token traces
  have read : InStep coupling table (atomShape? token) := atomShape?_agrees traces
  apply InStep.andThen
  intro shape?
  split
  · infer_instance
  · infer_instance

instance : InStep coupling table interpolatedCode := by
  unfold interpolatedCode
  infer_instance

instance (parts : Array Part) : InStep coupling table (partTurn parts) := by
  unfold partTurn
  apply InStep.andThen
  intro token
  split <;> infer_instance

instance : InStep coupling table literalParts := by
  unfold literalParts
  infer_instance

instance (opening : Span) (kind : LiteralKind) : InStep coupling table (quoted opening kind) := by
  unfold quoted
  apply InStep.andThen
  intro parts
  apply InStep.andThen
  intro token
  dsimp only
  split
  · infer_instance
  · infer_instance
  · infer_instance

instance (element : LiteralKind) (items : Array NodeId) :
    InStep coupling table (wordTurn element items) := by
  unfold wordTurn
  apply InStep.andThen
  intro token
  split <;> infer_instance

instance (element : LiteralKind) : InStep coupling table (words element) := by
  unfold words
  infer_instance

instance (node : NodeId) : InStep coupling table (stringTurn node) := by
  unfold stringTurn
  apply InStep.seeing fun _ _ _ _ => rfl
  intro state
  split
  · infer_instance
  · apply InStep.andThen
    intro token
    split
    · infer_instance
    · apply InStep.andThen
      intro _
      apply InStep.andThen
      intro next
      apply InStep.andThen
      intro label
      split
      · infer_instance
      · infer_instance

instance (first : NodeId) : InStep coupling table (moreStrings first) := by
  unfold moreStrings
  infer_instance

instance (kind : LiteralKind) : InStep coupling table (literal kind) := by
  unfold literal
  apply InStep.andThen
  intro opening
  dsimp only
  split <;> infer_instance

instance : InStep coupling table heredoc := by
  unfold heredoc
  infer_instance

instance (pending : PendingHeredoc) : InStep coupling table (heredocBody pending) := by
  unfold heredocBody
  apply InStep.andThen
  intro read
  dsimp only
  apply InStep.andThen
  intro _
  split
  · infer_instance
  · infer_instance

instance : InStep coupling table heredocTurn := by
  unfold heredocTurn
  apply InStep.andThen
  intro pending
  split
  · infer_instance
  · infer_instance

instance : InStep coupling table heredocBodies := by
  unfold heredocBodies
  apply InStep.andThen
  intro _
  apply InStep.seeing fun _ _ _ _ => rfl
  intro state
  dsimp only
  infer_instance

/-! ### Parameters -/

instance (name : Symbol) (span : Span) : InStep coupling table (declareParameter name span) := by
  unfold declareParameter
  infer_instance

instance : InStep coupling table parameterName? := by
  unfold parameterName?
  apply InStep.andThen
  intro token
  split
  · infer_instance
  · infer_instance

instance (form : RestForm) : InStep coupling table (restParameter form) := by
  unfold restParameter
  infer_instance

instance (stop : ParametersEnd) : InStep coupling table (defaultValue stop) := by
  unfold defaultValue
  infer_instance

instance (stop : ParametersEnd) (reached : ParameterStage) (name : Symbol) :
    InStep coupling table (namedParameter stop reached name) := by
  unfold namedParameter
  infer_instance

instance (stop : ParametersEnd) (name : Symbol) :
    InStep coupling table (keywordParameter stop name) := by
  unfold keywordParameter
  infer_instance

instance : InStep coupling table blockParameter := by
  unfold blockParameter
  apply InStep.andThen
  intro mark
  apply InStep.andThen
  intro name?
  dsimp only
  split
  · infer_instance
  · infer_instance

instance (list : PatternList) : InStep coupling table (patternItem list) := by
  unfold patternItem
  apply InStep.andThen
  intro token
  dsimp only
  split <;> infer_instance

instance (list : PatternList) : InStep coupling table (patternTurn list) := by
  unfold patternTurn
  infer_instance

instance : InStep coupling table pattern := by
  unfold pattern
  infer_instance

instance (stop : ParametersEnd) (reached : ParameterStage) :
    InStep coupling table (parameter? stop reached) := by
  unfold parameter?
  apply InStep.andThen
  intro kind
  split <;> infer_instance

instance (progress : ParameterProgress) (node : NodeId) (stage : ParameterStage) :
    InStep coupling table (addParameter progress node stage) := by
  unfold addParameter
  infer_instance

instance (stop : ParametersEnd) (progress : ParameterProgress) :
    InStep coupling table (afterParameter stop progress) := by
  unfold afterParameter
  infer_instance

instance (stop : ParametersEnd) (progress : ParameterProgress) :
    InStep coupling table (parameterTurn stop progress) := by
  unfold parameterTurn
  extract_lets rest
  have rest_agrees (skipped : Unit) : InStep coupling table (rest skipped) := by
    unfold rest
    apply InStep.andThen
    intro token
    split
    · infer_instance
    · apply InStep.andThen
      intro found
      split
      · infer_instance
      · infer_instance
  clear_value rest
  infer_instance

instance (stop : ParametersEnd) : InStep coupling table (parameters stop) := by
  unfold parameters
  infer_instance

instance : InStep coupling table parenthesizedParameters := by
  unfold parenthesizedParameters
  infer_instance

instance : InStep coupling table blockLocalTurn := by
  unfold blockLocalTurn
  apply InStep.andThen
  intro token
  split
  · infer_instance
  · infer_instance

instance : InStep coupling table blockLocals := by
  unfold blockLocals
  infer_instance

instance : InStep coupling table blockParameters := by
  unfold blockParameters
  apply InStep.andThen
  intro kind
  split
  · infer_instance
  · infer_instance
  · infer_instance

/-! ### Definitions -/

instance {α : Type} (step : Parse α) [InStep coupling table step] :
    InStep coupling table (isolated step) := by
  unfold isolated
  infer_instance

instance : InStep coupling table methodName := by
  unfold methodName
  apply InStep.andThen
  intro token
  split <;> infer_instance

instance : InStep coupling table methodNameAfterDot := by
  unfold methodNameAfterDot
  infer_instance

instance : InStep coupling table parenthesizedReceiver := by
  unfold parenthesizedReceiver
  infer_instance

instance : InStep coupling table methodHead := by
  unfold methodHead
  apply InStep.andThen
  intro kind
  split
  · infer_instance
  · apply InStep.andThen
    intro named
    apply InStep.andThen
    intro kind
    split
    · infer_instance
    · infer_instance
    · infer_instance

instance : InStep coupling table methodParameters := by
  unfold methodParameters
  infer_instance

instance : InStep coupling table methodDefinition := by
  unfold methodDefinition
  apply InStep.andThen
  intro word
  apply InStep.andThen
  intro _
  apply InStep.andThen
  intro head
  apply InStep.andThen
  intro defined
  apply InStep.andThen
  intro _
  split
  · infer_instance
  · infer_instance

instance (word : Span) : InStep coupling table (classBody word) := by
  unfold classBody
  infer_instance

instance : InStep coupling table constantPath := by
  unfold constantPath
  apply InStep.andThen
  intro operand
  apply InStep.andThen
  intro node
  dsimp only
  split
  · infer_instance
  · infer_instance

instance : InStep coupling table classDefinition := by
  unfold classDefinition
  apply InStep.andThen
  intro word
  dsimp only
  apply InStep.andThen
  intro _
  apply InStep.andThen
  intro found
  split
  · infer_instance
  · apply InStep.seeing fun _ _ _ _ => rfl
    intro state
    split
    · infer_instance
    · infer_instance

instance : InStep coupling table moduleDefinition := by
  unfold moduleDefinition
  infer_instance

instance (opening : Token) : InStep coupling table (blockBody opening) := by
  unfold blockBody
  cases opening.kind.isLeftBrace with
  | true =>
      simp only [if_true, id]
      infer_instance
  | false =>
      simp only [Bool.false_eq_true, if_false]
      infer_instance

instance : InStep coupling table block := by
  unfold block
  infer_instance

instance : InStep coupling table lambdaBody := by
  unfold lambdaBody
  infer_instance

instance : InStep coupling table lambda := by
  unfold lambda
  infer_instance

instance : InStep coupling table methodItem := by
  unfold methodItem
  apply InStep.andThen
  intro token
  split
  · infer_instance
  · apply InStep.andThen
    intro node
    apply InStep.andThen
    intro shape
    split
    · infer_instance
    · infer_instance
  · infer_instance
  · infer_instance
  · infer_instance
  · infer_instance

instance (newName : Symbol) : InStep coupling table (globalAliasShape newName) := by
  unfold globalAliasShape
  apply InStep.andThen
  intro token
  split <;> infer_instance

instance (start : Nat) : InStep coupling table (globalAlias start) := by
  unfold globalAlias
  apply InStep.andThen
  intro token
  apply InStep.andThen
  intro written
  apply InStep.andThen
  intro name
  apply InStep.andThen
  intro shape
  dsimp only
  split
  · infer_instance
  · infer_instance

instance (start : Nat) : InStep coupling table (methodAlias start) := by
  unfold methodAlias
  infer_instance

instance : InStep coupling table aliasStatement := by
  unfold aliasStatement
  apply InStep.andThen
  intro word
  dsimp only
  apply InStep.andThen
  intro kind
  split <;> infer_instance

instance (names : Array Symbol) : InStep coupling table (undefTurn names) := by
  unfold undefTurn
  infer_instance

instance : InStep coupling table undefStatement := by
  unfold undefStatement
  infer_instance

instance : InStep coupling table bracedStatements := by
  unfold bracedStatements
  infer_instance

instance : InStep coupling table atStart := by
  unfold atStart
  infer_instance

instance : InStep coupling table atExit := by
  unfold atExit
  infer_instance

end RubySyntax.Parse
