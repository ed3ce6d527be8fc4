/-
What follows a primary expression, and operators. Arguments, elements and
blocks close what opens them; no operator is a bracket.
-/

import RubySyntax.Grammar.Operator
import RubySyntax.Proofs.Nesting.Primary

namespace RubySyntax

namespace Parse

set_option synthInstance.maxSize 512

variable {table : RuleTable} [Serves table] {kind : TokenKind}

/-! ### Links of a chain -/

instance (receiver : NodeId) (safe : Bool) : Steady table (afterDot receiver safe) := by
  unfold afterDot
  apply Settles.peek
  intro kind span
  extract_lets named
  have named_steady (name? : Option Symbol) : Steady table (named name?) := by
    unfold named
    split
    · infer_instance
    · infer_instance
  clear_value named
  dsimp only
  split
  · infer_instance
  · infer_instance
  · infer_instance
  · split
    · infer_instance
    · split
      · next names =>
          have := TokenKind.flat_of_isMethodName names
          infer_instance
      · infer_instance
  · infer_instance

instance (receiver : NodeId) : Steady table (afterColons receiver) := by
  unfold afterColons
  apply Settles.peek
  intro kind span
  dsimp only
  split
  · infer_instance
  · infer_instance
  · infer_instance
  · infer_instance

theorem callArguments_settlesAt (operand : Operand) :
    SettlesAt table (.punct .callParen) [] 0 (callArguments operand) := by
  unfold callArguments
  exact parenthesized_settlesAt.finish inferInstance

theorem element_settlesAt (operand : Operand) :
    SettlesAt table (.punct .leftBracket) [] 0 (element operand) := by
  unfold element
  apply SettlesAt.skipOpening rfl
  intro _
  apply Settles.andThen
  intro receiver
  apply Settles.andThen
  intro list
  apply Settles.expect rfl
  intro close
  infer_instance

theorem blockCall_settlesAt (opens : kind.isLeftBrace ∨ kind.isDo) (operand : Operand) :
    SettlesAt table kind [] 0 (blockCall operand) := by
  unfold blockCall
  exact (block_settlesAt opens).finish inferInstance

instance (operand : Operand) : Steady table (link? operand) := by
  unfold link?
  extract_lets ifTaking
  have taken {kind : TokenKind} (takes : Bool) {rule : Operand → Parse Operand}
      (settles : SettlesAt table kind [] 0 (rule operand)) :
      SettlesAt table kind [] 0 (ifTaking takes rule) := by
    unfold ifTaking
    split
    · exact settles.finish inferInstance
    · infer_instance
  clear_value ifTaking
  apply Settles.peekingKind
  intro kind
  split
  · exact taken _ (callArguments_settlesAt operand)
  · exact taken _ (element_settlesAt operand)
  · infer_instance
  · infer_instance
  · infer_instance
  · exact taken _ (blockCall_settlesAt (.inl rfl) operand)
  · exact taken _ (blockCall_settlesAt (.inr rfl) operand)
  · infer_instance

instance (first : Operand) : Steady table (chainFrom first) := by
  unfold chainFrom chainTurn
  apply Steady.loop
  intro operand
  apply Settles.andThen
  intro linked
  split
  · infer_instance
  · infer_instance

instance : Steady table chain := by
  unfold chain
  infer_instance

/-! ### Commands -/

instance : Steady table commandArguments := by
  unfold commandArguments
  infer_instance

theorem commandBlock_settlesAt (opens : kind.isLeftBrace ∨ kind.isDo) (call : NodeId) :
    SettlesAt table kind [] 0 (commandBlock call) := by
  unfold commandBlock
  exact (block_settlesAt opens).finish inferInstance

instance (head : Operand) (allowBlock : Bool) : Steady table (command head allowBlock) := by
  have called (call : NodeId) : Steady table (do
      match ← peekKind with
      | .keyword .doBlock | .punct .commandBrace => commandBlock call
      | _ => return call) := by
    apply Settles.peekingKind
    intro kind
    split
    · exact commandBlock_settlesAt (.inr rfl) call
    · exact commandBlock_settlesAt (.inl rfl) call
    · infer_instance
  unfold command
  infer_instance

/-! ### Assignments -/

theorem splatValues_settlesAt : SettlesAt table (.punct .splatStar) [] 0 splatValues := by
  unfold splatValues
  exact splatItem_settlesAt.finish inferInstance

instance (rule : CommandRule) : Steady table (assignedValue rule) := by
  unfold assignedValue
  apply Settles.peekingKind
  intro kind
  split
  · next same =>
      subst same
      exact splatValues_settlesAt
  · apply SettlesAt.ofSettles
    apply Settles.andThen
    intro operand
    extract_lets finished
    have finished_steady (isCommand : Bool) : Steady table (finished isCommand) := by
      unfold finished
      extract_lets rescued
      have rescued_steady (value : NodeId) : Steady table (rescued value) := by
        unfold rescued
        apply Settles.andThen
        intro _
        apply Settles.peekingKind
        intro kind
        split
        · next modified =>
            obtain ⟨rfl, -⟩ : kind = .keyword .rescueModifier ∧ isCommand = false := by
              simpa using modified
            apply SettlesAt.skipFlat
            intro _
            apply Settles.andThen
            intro fallback
            apply Settles.known (rescueShape_returns value fallback)
            intro shape proper
            infer_instance
        · infer_instance
      clear_value rescued
      infer_instance
    clear_value finished
    infer_instance

instance (rule : CommandRule) : Steady table (operand rule) := by
  unfold operand
  apply Settles.andThen
  intro read
  apply Settles.peek
  intro kind span
  apply SettlesAt.andThen
  intro assignable
  dsimp only
  split
  · infer_instance
  · infer_instance
  · infer_instance

/-! ### Operators before an operand -/

instance (rule : CommandRule) (mark : Span) (read : Operand) :
    Steady table (bangOperand rule mark read) := by
  unfold bangOperand
  infer_instance

theorem flat_of_unaryName {name : String} (found : unaryName? kind = some name) : kind.Flat := by
  unfold unaryName? at found
  split at found
  · exact ⟨rfl⟩
  · exact ⟨rfl⟩
  · exact ⟨rfl⟩
  · cases found

instance (rule : CommandRule) : Steady table (unary rule) := by
  unfold unary
  apply Settles.peek
  intro kind span
  split
  · next same =>
      subst same
      infer_instance
  · split
    · infer_instance
    · next name found =>
        have := flat_of_unaryName found
        infer_instance

instance (id : NodeId) : Quiet (takeSign id) := by
  unfold takeSign
  extract_lets unsign
  have unsigned (shape : Shape NodeId) [proper : shape.Proper] : Quiet (unsign shape) := by
    have : Scan.Quiet (Scan.modifyNode id fun node =>
        { node with shape, span := { node.span with start := node.span.start + 1 } }) :=
      Scan.quiet_modifyNode fun _ placeholder => absurd placeholder proper.proper
    infer_instance
  clear_value unsign
  apply Quiet.andThen
  intro shape
  split
  · infer_instance
  · infer_instance
  · infer_instance

instance (first : Token) (base : NodeId) : Quiet (takeSignOf first base) := by
  unfold takeSignOf
  infer_instance

instance (rule : CommandRule) : Steady table (power rule) := by
  unfold power
  apply Settles.andThen
  intro first
  apply Settles.andThen
  intro read
  apply Settles.peek
  intro kind span
  split
  · infer_instance
  · next other =>
      have same : kind = .punct .power := by simpa using other
      subst same
      apply SettlesAt.skipFlat
      intro _
      infer_instance

instance (rule : CommandRule) : Steady table (minus rule) := by
  unfold minus
  apply Settles.peek
  intro kind span
  split
  · next same =>
      subst same
      infer_instance
  · infer_instance

/-! ### Operators between operands -/

instance (mark : Punct) (left right : NodeId) : Quiet (binaryNode mark left right) := by
  unfold binaryNode
  apply Quiet.andThen
  intro span
  split
  · infer_instance
  · infer_instance
  · infer_instance

theorem flat_of_operatorAt {operator : Punct × Nat} (found : operatorAt? kind = some operator) :
    kind.Flat := by
  unfold operatorAt? at found
  split at found
  · next mark =>
      obtain ⟨level, levelled, -⟩ := Option.map_eq_some_iff.mp found
      constructor
      cases mark
      all_goals first | rfl | cases levelled
  · cases found

instance (rule : CommandRule) (least : Nat) : Steady table (binary rule least) := by
  unfold binary binaryTurn
  apply Settles.andThen
  intro first
  apply Steady.loop
  intro progress
  apply Settles.peek
  intro kind span
  split
  · infer_instance
  · next found =>
      have := flat_of_operatorAt found
      infer_instance

instance (rule : CommandRule) : Steady table (range rule) := by
  unfold range
  apply Settles.andThen
  intro first
  apply Settles.peekingKind
  intro kind
  split
  · infer_instance
  · infer_instance
  · infer_instance

instance (read : Operand) : Steady table (branches read) := by
  unfold branches
  apply Settles.andThen
  intro node
  apply Settles.andThen
  intro _
  apply Settles.andThen
  intro condition
  apply Settles.andThen
  intro _
  infer_instance

instance (rule : CommandRule) : Steady table (argumentOperand rule) := by
  unfold argumentOperand
  infer_instance

instance (rule : CommandRule) : Steady table (negation rule) := by
  unfold negation
  apply Settles.peek
  intro kind span
  split
  · next same =>
      subst same
      infer_instance
  · infer_instance

end Parse

end RubySyntax
