/-
Statements and expressions in two coupled runs.

They complete the rules of the grammar: a table whose rules call rules that
keep the runs in step does so itself, and so do whole programs.
-/

import RubySyntax.Program
import RubySyntax.Proofs.Coupling.Construct

namespace RubySyntax

namespace Parse

variable {coupling : Coupling} {table : RuleTable} [steady : table.Steady coupling]
  [tracks : coupling.Tracks]

/-! ### Statements -/

instance (inner value : NodeId) : InStep coupling table (rescueShape inner value) := by
  unfold rescueShape
  infer_instance

instance (items : List NodeId) : InStep coupling table (valueArray items) := by
  unfold valueArray
  infer_instance

instance : InStep coupling table moreValues := by
  unfold moreValues
  infer_instance

instance : InStep coupling table firstValue := by
  unfold firstValue
  infer_instance

instance : InStep coupling table values := by
  unfold values
  apply InStep.andThen
  intro first
  apply InStep.andThen
  intro shape
  dsimp only
  split
  · infer_instance
  · infer_instance

instance (targets : NodeId) : InStep coupling table (multipleAssign targets) := by
  unfold multipleAssign
  infer_instance

instance (node assigned value : NodeId) :
    InStep coupling table (assignMore node assigned value) := by
  unfold assignMore
  infer_instance

instance (node : NodeId) (start : Span) : InStep coupling table (targetsAfter node start) := by
  unfold targetsAfter
  infer_instance

instance : InStep coupling table expressionStatement := by
  unfold expressionStatement
  apply InStep.andThen
  intro first
  dsimp only
  apply InStep.andThen
  intro node
  apply InStep.andThen
  intro kind
  apply InStep.andThen
  intro shape
  split
  · infer_instance
  · infer_instance
  · infer_instance

instance (first : Token) : InStep coupling table (plainStatement first) := by
  unfold plainStatement
  split <;> infer_instance

instance (first : Token) (node : NodeId) : InStep coupling table (runsBodyFirst first node) := by
  unfold runsBodyFirst
  apply InStep.andThen
  intro shape
  split
  · infer_instance
  · infer_instance

instance (form : LoopForm) (first : Token) (node : NodeId) :
    InStep coupling table (loopModifier form first node) := by
  unfold loopModifier
  infer_instance

instance (first : Token) (node : NodeId) : InStep coupling table (modifier? first node) := by
  unfold modifier?
  apply InStep.andThen
  intro kind
  split <;> infer_instance

instance (first : Token) (node : NodeId) :
    InStep coupling table (modifierTurn first node) := by
  unfold modifierTurn
  apply InStep.andThen
  intro token
  apply InStep.andThen
  intro shape
  split
  · infer_instance
  · infer_instance

instance : InStep coupling table statement := by
  unfold statement
  apply InStep.andThen
  intro first
  apply InStep.andThen
  intro plain
  apply InStep.andThen
  intro label
  extract_lets modified
  have modified_agrees (reported : Unit) : InStep coupling table (modified reported) :=
    InStep.loop inferInstance
  clear_value modified
  split
  · infer_instance
  · infer_instance

instance : InStep coupling table skipToStatementEnd := by
  unfold skipToStatementEnd
  infer_instance

instance (items : Array NodeId) : InStep coupling table (statementTurn items) := by
  unfold statementTurn
  infer_instance

instance : InStep coupling table statementList := by
  unfold statementList
  infer_instance

instance (items : List NodeId) : InStep coupling table (spanOfEnds items) := by
  unfold spanOfEnds
  split
  · infer_instance
  · infer_instance

instance : InStep coupling table statements := by
  unfold statements
  infer_instance

/-! ### Primary expressions -/

instance (token : Token) : InStep coupling table (misplaced token) := by
  unfold misplaced
  infer_instance

instance : InStep coupling table negativeNumber := by
  unfold negativeNumber
  apply InStep.andThen
  intro minus
  apply InStep.andThen
  intro token
  split
  · infer_instance
  · infer_instance
  · infer_instance

instance : InStep coupling table topConstant := by
  unfold topConstant
  apply InStep.andThen
  intro mark
  apply InStep.andThen
  intro token
  split
  · infer_instance
  · infer_instance

instance : InStep coupling table moreStatements := by
  unfold moreStatements
  apply InStep.andThen
  intro kind
  split
  · infer_instance
  · apply InStep.andThen
    intro read
    split
    · infer_instance
    · apply InStep.andThen
      intro shape
      split
      · infer_instance
      · infer_instance

instance (opening : Token) (first : NodeId) : InStep coupling table (groupRest opening first) := by
  unfold groupRest
  infer_instance

instance : InStep coupling table group := by
  unfold group
  apply InStep.andThen
  intro opening
  apply InStep.andThen
  intro _
  apply InStep.andThen
  intro kind
  split
  · infer_instance
  · infer_instance
  · apply InStep.andThen
    intro first
    apply InStep.andThen
    intro shape
    split
    · infer_instance
    · infer_instance

instance : InStep coupling table array := by
  unfold array
  infer_instance

instance : InStep coupling table hashKey := by
  unfold hashKey
  apply InStep.andThen
  intro key
  apply InStep.andThen
  intro label
  split
  · infer_instance
  · infer_instance

instance : InStep coupling table hashEntry := by
  unfold hashEntry
  apply InStep.andThen
  intro token
  split
  · infer_instance
  · infer_instance
  · infer_instance

set_option synthInstance.maxSize 512 in
instance (entries : Array (HashEntry NodeId)) : InStep coupling table (hashTurn entries) := by
  unfold hashTurn
  infer_instance

instance : InStep coupling table hash := by
  unfold hash
  infer_instance

instance : InStep coupling table jumpValue := by
  unfold jumpValue
  apply InStep.andThen
  intro kind
  split
  · infer_instance
  · apply InStep.andThen
    intro list
    apply InStep.andThen
    intro _
    dsimp only
    split
    · infer_instance
    · apply InStep.andThen
      intro shape
      split
      · infer_instance
      · infer_instance
    · infer_instance

instance (form : OptionalForm) : InStep coupling table (jump form) := by
  unfold jump
  infer_instance

instance : InStep coupling table definedTest := by
  unfold definedTest
  infer_instance

instance (opening : Span) : InStep coupling table (negatedOperand opening) := by
  unfold negatedOperand
  infer_instance

instance : InStep coupling table negationCall := by
  unfold negationCall
  infer_instance

instance (word : Keyword) : InStep coupling table (wordConstruct? word) := by
  unfold wordConstruct?
  split <;> infer_instance

instance (token : Token) : InStep coupling table (primaryNode token) := by
  unfold primaryNode
  split
  · infer_instance
  · infer_instance
  · infer_instance
  · infer_instance
  · infer_instance
  · infer_instance
  · infer_instance
  · infer_instance
  · apply InStep.andThen
    intro construct?
    split
    · infer_instance
    · infer_instance
  · infer_instance

instance : InStep coupling table primary := by
  unfold primary
  apply InStep.peek
  intro token traces
  have read : InStep coupling table (atomShape? token) := atomShape?_agrees traces
  split
  · infer_instance
  · infer_instance
  · infer_instance
  · infer_instance
  · infer_instance
  · infer_instance
  · apply InStep.andThen
    intro shape?
    split
    · infer_instance
    · infer_instance

/-! ### Chains -/

instance (receiver : NodeId) (safe : Bool) : InStep coupling table (afterDot receiver safe) := by
  unfold afterDot
  apply InStep.andThen
  intro token
  extract_lets called
  have called_agrees (name? : Option Symbol) : InStep coupling table (called name?) := by
    unfold called
    split
    · infer_instance
    · infer_instance
  clear_value called
  split <;> infer_instance

instance (receiver : NodeId) : InStep coupling table (afterColons receiver) := by
  unfold afterColons
  apply InStep.andThen
  intro token
  split <;> infer_instance

instance (operand : Operand) : InStep coupling table (callArguments operand) := by
  unfold callArguments
  infer_instance

instance (operand : Operand) : InStep coupling table (element operand) := by
  unfold element
  infer_instance

instance (operand : Operand) : InStep coupling table (blockCall operand) := by
  unfold blockCall
  infer_instance

instance (operand : Operand) : InStep coupling table (link? operand) := by
  unfold link?
  dsimp only
  apply InStep.andThen
  intro kind
  split <;> infer_instance

instance (operand : Operand) : InStep coupling table (chainTurn operand) := by
  unfold chainTurn
  apply InStep.andThen
  intro longer
  split
  · infer_instance
  · infer_instance

instance (first : Operand) : InStep coupling table (chainFrom first) := by
  unfold chainFrom
  infer_instance

instance : InStep coupling table chain := by
  unfold chain
  infer_instance

instance : InStep coupling table commandArguments := by
  unfold commandArguments
  infer_instance

instance (call : NodeId) : InStep coupling table (commandBlock call) := by
  unfold commandBlock
  infer_instance

instance (head : Operand) (allowBlock : Bool) :
    InStep coupling table (command head allowBlock) := by
  unfold command
  apply InStep.andThen
  intro span
  apply InStep.deeper
  apply InStep.andThen
  intro list
  apply InStep.andThen
  intro call
  split
  · infer_instance
  · apply InStep.andThen
    intro kind
    split
    · infer_instance
    · infer_instance
    · infer_instance

/-! ### Operators -/

instance : InStep coupling table splatValues := by
  unfold splatValues
  infer_instance

set_option synthInstance.maxSize 512 in
instance (rule : CommandRule) : InStep coupling table (assignedValue rule) := by
  unfold assignedValue
  apply InStep.andThen
  intro kind
  split
  · infer_instance
  · apply InStep.andThen
    intro operand
    dsimp only
    infer_instance

instance (rule : CommandRule) : InStep coupling table (operand rule) := by
  unfold operand
  apply InStep.andThen
  intro operand
  apply InStep.andThen
  intro token
  apply InStep.andThen
  intro assignable
  split
  · infer_instance
  · infer_instance
  · infer_instance

instance (rule : CommandRule) (mark : Span) (read : Operand) :
    InStep coupling table (bangOperand rule mark read) := by
  unfold bangOperand
  infer_instance

instance (rule : CommandRule) : InStep coupling table (unary rule) := by
  unfold unary
  apply InStep.andThen
  intro token
  split
  · infer_instance
  · split
    · infer_instance
    · infer_instance

instance (id : NodeId) : InStep coupling table (takeSign id) := by
  have unsigned (shape : Shape NodeId) : Scan.InStep coupling (Scan.modifyNode id fun node =>
      { node with shape, span := { node.span with start := node.span.start + 1 } }) :=
    Scan.inStep_modifyNode id fun _ _ => rfl
  unfold takeSign
  dsimp only
  apply InStep.andThen
  intro shape
  split
  · infer_instance
  · infer_instance
  · infer_instance

instance (first : Token) (base : NodeId) : InStep coupling table (takeSignOf first base) := by
  unfold takeSignOf
  infer_instance

set_option synthInstance.maxSize 512 in
instance (rule : CommandRule) : InStep coupling table (power rule) := by
  unfold power
  infer_instance

instance (rule : CommandRule) : InStep coupling table (minus rule) := by
  unfold minus
  infer_instance

instance (mark : Punct) (left right : NodeId) :
    InStep coupling table (binaryNode mark left right) := by
  unfold binaryNode
  apply InStep.andThen
  intro span
  split
  · infer_instance
  · infer_instance
  · infer_instance

instance (least : Nat) (progress : Operand × Option Nat) :
    InStep coupling table (binaryTurn least progress) := by
  obtain ⟨left, previous⟩ := progress
  unfold binaryTurn
  apply InStep.andThen
  intro token
  split
  · infer_instance
  · infer_instance

instance (rule : CommandRule) (least : Nat) : InStep coupling table (binary rule least) := by
  unfold binary
  infer_instance

instance (rule : CommandRule) : InStep coupling table (range rule) := by
  unfold range
  apply InStep.andThen
  intro first
  apply InStep.andThen
  intro kind
  dsimp only
  split
  · infer_instance
  · infer_instance

instance (read : Operand) : InStep coupling table (branches read) := by
  unfold branches
  infer_instance

instance (rule : CommandRule) : InStep coupling table (argumentOperand rule) := by
  unfold argumentOperand
  infer_instance

instance (rule : CommandRule) : InStep coupling table (negation rule) := by
  unfold negation
  infer_instance

/-! ### Programs -/

/-- One level of the table is in step if the levels below it are. -/
theorem rule_agrees (name : Nonterminal) : InStep coupling table (rule name) := by
  cases name with
  | heredocBodies => exact inferInstanceAs (InStep coupling table heredocBodies)
  | statements => exact inferInstanceAs (InStep coupling table statements)
  | negation rule => exact inferInstanceAs (InStep coupling table (negation rule))
  | argument rule => exact inferInstanceAs (InStep coupling table (argumentOperand rule))
  | binary rule level => exact inferInstanceAs (InStep coupling table (binary rule level))
  | minus rule => exact inferInstanceAs (InStep coupling table (minus rule))
  | unary rule => exact inferInstanceAs (InStep coupling table (unary rule))
  | chain => exact inferInstanceAs (InStep coupling table chain)
  | command head allowBlock =>
      exact inferInstanceAs (InStep coupling table (command head allowBlock))
  | ifTail => exact inferInstanceAs (InStep coupling table ifTail)
  | target => exact inferInstanceAs (InStep coupling table target)
  | pattern => exact inferInstanceAs (InStep coupling table pattern)

omit steady in
instance (depth : Nat) : (Parse.table depth).Steady coupling where
  rules := by
    induction depth with
    | zero =>
        intro name
        exact inferInstanceAs (Scan.InStep coupling (throw .starved : Scan name.Result))
    | succ depth ih =>
        have below : (Parse.table depth).Steady coupling := ⟨ih⟩
        intro name
        exact (rule_agrees name).agrees

instance (items : Array NodeId) : InStep coupling table (programTurn items) := by
  unfold programTurn
  infer_instance

instance : InStep coupling table programItems := by
  unfold programItems
  infer_instance

instance : InStep coupling table program := by
  unfold program
  infer_instance

end Parse

/-- Programs that are started alike end alike. -/
theorem Coupling.runProgram_meets (coupling : Coupling) [coupling.Tracks] {source : Bytes}
    {first second : ParseOptions} {symbols : SymbolTable}
    (alike : coupling.Alike (State.start source first symbols)
      (State.start source second symbols))
    (between : coupling.Between (State.start source first symbols)) :
    coupling.Meets (runProgram source first symbols) (runProgram source second symbols) := by
  have agrees (depth : Nat) : Parse.InStep coupling (Parse.table depth) Parse.program :=
    inferInstance
  have input : (State.start source second symbols).input =
      (State.start source first symbols).input := by
    rw [alike.rest]
  unfold runProgram
  dsimp only
  rw [input]
  exact (agrees _).agrees.meets _ _ alike between

theorem Coupling.runProgram_ends (coupling : Coupling) [loose : coupling.Loose]
    [coupling.Tracks] {source : Bytes} {first second : ParseOptions} {symbols : SymbolTable}
    (alike : coupling.Alike (State.start source first symbols)
      (State.start source second symbols)) :
    coupling.Ends (runProgram source first symbols) (runProgram source second symbols) :=
  (coupling.runProgram_meets alike (loose.between _)).ends

/-- Of two states that are alike a fatal error makes results of states that are. -/
theorem Coupling.Alike.fatal {coupling : Coupling} {first second : State}
    (alike : coupling.Alike first second) (error : Fatal) :
    ∃ one other, coupling.Alike one other ∧
      Parsed.ofFatal first error = Parsed.ofState one none (some error) ∧
      Parsed.ofFatal second error = Parsed.ofState other none (some error) := by
  have place : second.input.position = first.input.position := by rw [alike.rest]
  unfold Parsed.ofFatal
  dsimp only
  rw [place]
  exact ⟨_, _, alike.report _ _, rfl, rfl⟩

/-- Parses of programs that are started alike give the results of states that are alike,
if no run is excused. -/
theorem Coupling.parse_ends (coupling : Coupling) [coupling.Tracks] {source : Bytes}
    {first second : ParseOptions} {symbols : SymbolTable}
    (unexcused : ∀ halt, ¬coupling.excused halt)
    (alike : coupling.Alike (State.start source first symbols)
      (State.start source second symbols))
    (between : coupling.Between (State.start source first symbols)) :
    ∃ one other tree fatal, coupling.Alike one other ∧
      parse source first symbols = Parsed.ofState one tree fatal ∧
      parse source second symbols = Parsed.ofState other tree fatal := by
  have ends := (coupling.runProgram_meets alike between).ends
  unfold parse
  cases run : runProgram source first symbols with
  | ok tree after =>
      rw [run] at ends
      obtain ⟨other, reached, alike⟩ := ends
      rw [reached]
      exact ⟨after, other, some tree, none, alike, rfl, rfl⟩
  | error halt after =>
      rw [run] at ends
      obtain ⟨other, reached, alike⟩ := ends.resolve_left (unexcused halt)
      rw [reached]
      cases halt with
      | fatal error =>
          obtain ⟨one, other, alike, given, also⟩ := alike.fatal error
          exact ⟨one, other, none, some error, alike, given, also⟩
      | starved => exact ⟨after, other, none, none, alike, rfl, rfl⟩
      | fault fault => exact ⟨after, other, none, none, alike, rfl, rfl⟩

end RubySyntax
