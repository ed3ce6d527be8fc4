/-
Primary expressions: what opens with a bracket closes with the one of its own
kind, and a placeholder stands where an error has been reported.
-/

import RubySyntax.Grammar.Primary
import RubySyntax.Proofs.Nesting.Statement

namespace RubySyntax.Parse

set_option synthInstance.maxSize 512

variable {table : RuleTable} [Serves table] {kind : TokenKind}

/-! ### Placeholders -/

omit [Serves table] in
/-- A token that starts no expression is passed over, even a bracket, once it
has been reported. -/
theorem misplaced_steady (token : Token) : Steady table (misplaced token) := by
  unfold misplaced
  infer_instance

theorem negativeNumber_settlesAt :
    SettlesAt table (.punct .numberMinus) [] 0 negativeNumber := by
  unfold negativeNumber
  apply SettlesAt.takeFlat
  intro minus _
  apply Settles.peek
  intro kind span
  dsimp only
  split
  · infer_instance
  · infer_instance
  · infer_instance

theorem topConstant_settlesAt : SettlesAt table (.punct .topColonColon) [] 0 topConstant := by
  unfold topConstant
  apply SettlesAt.takeFlat
  intro mark _
  apply Settles.peek
  intro kind span
  dsimp only
  split
  · infer_instance
  · infer_instance

/-! ### Brackets -/

instance : Steady table moreStatements := by
  unfold moreStatements
  apply Settles.andThen
  intro kind
  split
  · infer_instance
  · apply Settles.andThen
    intro rest
    split
    · infer_instance
    · apply Settles.andThen
      intro shape
      split
      · infer_instance
      · infer_instance

theorem groupRest_settles (opening : Token) (first : NodeId) :
    Settles table [.round] 0 (groupRest opening first) := by
  unfold groupRest
  apply Settles.andThen
  intro more
  apply Settles.expect rfl
  intro close
  infer_instance

/-- Every way through a group ends at its closing parenthesis. -/
theorem group_settlesAt (isParen : kind.isLeftParen) : SettlesAt table kind [] 0 group := by
  have rest (opening : Token) (first : NodeId) :
      Settles table [.round] 0 (groupRest opening first) :=
    groupRest_settles opening first
  unfold group
  apply SettlesAt.takeOpening (TokenKind.bracketMark_of_isLeftParen isParen)
  intro opening _
  apply Settles.andThen
  intro _
  apply Settles.peekingKind
  intro kind
  split
  · apply SettlesAt.ofSettles
    apply Settles.andThen
    intro targets
    apply Settles.expect rfl
    intro close
    infer_instance
  · apply SettlesAt.takeClosing rfl
    intro close _
    infer_instance
  · apply SettlesAt.ofSettles
    apply Settles.andThen
    intro first
    apply Settles.andThen
    intro shape
    split
    · apply Settles.peek
      intro kind span
      split
      · next same =>
          subst same
          apply SettlesAt.skipClosing rfl
          intro _
          infer_instance
      · infer_instance
    · infer_instance

theorem array_settlesAt : SettlesAt table (.punct .arrayBracket) [] 0 array := by
  unfold array
  apply SettlesAt.takeOpening rfl
  intro opening _
  apply Settles.andThen
  intro list
  apply Settles.expect rfl
  intro close
  infer_instance

instance : Steady table hashKey := by
  unfold hashKey
  apply Settles.andThen
  intro key
  apply Settles.andThen
  intro label
  split
  · infer_instance
  · infer_instance

instance : Steady table hashEntry := by
  unfold hashEntry
  apply Settles.peek
  intro kind span
  dsimp only
  split
  · infer_instance
  · infer_instance
  · infer_instance

theorem hash_settlesAt : SettlesAt table (.punct .hashBrace) [] 0 hash := by
  unfold hash hashTurn
  apply SettlesAt.takeOpening rfl
  intro opening _
  apply Settles.andThen
  intro entries
  apply Settles.andThen
  intro _
  apply Settles.expect rfl
  intro close
  infer_instance

/-! ### Words -/

instance : Steady table jumpValue := by
  unfold jumpValue
  apply Settles.andThen
  intro kind
  split
  · infer_instance
  · apply Settles.andThen
    intro list
    apply Settles.andThen
    intro _
    split
    · infer_instance
    · apply Settles.andThen
      intro shape
      split
      · infer_instance
      · infer_instance
    · infer_instance

theorem jump_settlesAt (form : OptionalForm) (word : Keyword) :
    SettlesAt table (.keyword word) [] 0 (jump form) := by
  unfold jump
  infer_instance

theorem definedTest_settlesAt (word : Keyword) :
    SettlesAt table (.keyword word) [] 0 definedTest := by
  unfold definedTest
  apply SettlesAt.takeFlat
  intro token _
  apply Settles.accept rfl
  · simp only [if_true]
    apply Settles.andThen
    intro _
    apply Settles.andThen
    intro operand
    apply Settles.andThen
    intro _
    apply Settles.expect rfl
    intro close
    infer_instance
  · simp only [Bool.false_eq_true, if_false]
    infer_instance

instance (opening : Span) : Steady table (negatedOperand opening) := by
  unfold negatedOperand
  infer_instance

theorem negationCall_settlesAt (word : Keyword) :
    SettlesAt table (.keyword word) [] 0 negationCall := by
  unfold negationCall
  apply SettlesAt.takeFlat
  intro token _
  apply Settles.peek
  intro kind span
  split
  · next same =>
      subst same
      apply SettlesAt.skipOpening rfl
      intro _
      apply Settles.andThen
      intro _
      apply Settles.andThen
      intro operand
      apply Settles.andThen
      intro _
      apply Settles.expect rfl
      intro close
      infer_instance
  · infer_instance

theorem wordConstruct_settlesAt (word : Keyword) :
    SettlesAt table (.keyword word) [] 0 (wordConstruct? word) := by
  unfold wordConstruct?
  split
  · exact (jump_settlesAt .returnJump _).finish inferInstance
  · exact (jump_settlesAt .breakJump _).finish inferInstance
  · exact (jump_settlesAt .nextJump _).finish inferInstance
  · exact (definedTest_settlesAt _).finish inferInstance
  · exact (negationCall_settlesAt _).finish inferInstance
  · exact (beginBlock_settlesAt _).finish inferInstance
  · exact (ifBlock_settlesAt _).finish inferInstance
  · exact (unlessBlock_settlesAt _).finish inferInstance
  · exact (loopBlock_settlesAt .whileTrue _).finish inferInstance
  · exact (loopBlock_settlesAt .untilTrue _).finish inferInstance
  · exact (caseBlock_settlesAt _).finish inferInstance
  · exact (forBlock_settlesAt _).finish inferInstance
  · exact (methodDefinition_settlesAt _).finish inferInstance
  · exact (classDefinition_settlesAt _).finish inferInstance
  · exact (moduleDefinition_settlesAt _).finish inferInstance
  · infer_instance

/-! ### Primary expressions -/

theorem primaryNode_settlesAt (kind : TokenKind) (span : Span) :
    SettlesAt table kind [] 0 (primaryNode ⟨kind, span⟩) := by
  have stray : Steady table (misplaced ⟨kind, span⟩) := misplaced_steady ⟨kind, span⟩
  unfold primaryNode
  dsimp only
  split
  · exact negativeNumber_settlesAt
  · exact literal_settlesAt _
  · exact heredoc_settlesAt
  · exact group_settlesAt rfl
  · exact group_settlesAt rfl
  · exact array_settlesAt
  · exact hash_settlesAt
  · exact lambda_settlesAt
  · next word =>
      apply (wordConstruct_settlesAt word).finish
      intro node
      split
      · infer_instance
      · infer_instance
  · infer_instance

instance : Steady table primary := by
  unfold primary
  apply Settles.peek
  intro kind span
  dsimp only
  split
  · infer_instance
  · infer_instance
  · infer_instance
  · infer_instance
  · infer_instance
  · exact topConstant_settlesAt
  · apply SettlesAt.known (atomShape_returns kind span)
    intro shape? known
    split
    · next shape =>
        obtain ⟨proper, flat⟩ := known shape rfl
        infer_instance
    · exact (primaryNode_settlesAt kind span).finish inferInstance

end RubySyntax.Parse
