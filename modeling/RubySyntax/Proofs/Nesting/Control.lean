/-
Bodies with handlers, conditionals and loops. Their words are no brackets, so
they keep whatever their parts keep.
-/

import RubySyntax.Grammar.Control
import RubySyntax.Proofs.Nesting.Argument

namespace RubySyntax.Parse

set_option synthInstance.maxSize 512

variable {table : RuleTable} [Serves table]

instance : Quiet (liftM Scan.enterConstruct : Parse Unit) := by
  have : Scan.Quiet Scan.enterConstruct := by
    unfold Scan.enterConstruct
    infer_instance
  infer_instance

instance : Quiet (liftM Scan.leaveConstruct : Parse Unit) := by
  have : Scan.Quiet Scan.leaveConstruct := by
    unfold Scan.leaveConstruct
    infer_instance
  infer_instance

/-! ### Handlers -/

instance : Steady table rescuedClasses := by
  unfold rescuedClasses
  apply Settles.andThen
  intro kind
  split <;> infer_instance

theorem rescueClause_settlesAt (word : Keyword) :
    SettlesAt table (.keyword word) [] 0 rescueClause := by
  unfold rescueClause
  apply SettlesAt.takeFlat
  intro token _
  apply Settles.andThen
  intro exceptions
  infer_instance

instance : Steady table rescueClauses := by
  unfold rescueClauses rescueTurn
  refine Settles.finish (Steady.loop fun clauses => ?_) inferInstance
  apply Settles.peekingKind
  intro kind
  split
  · next same =>
      subst same
      exact (rescueClause_settlesAt _).finish inferInstance
  · infer_instance

instance (body otherwise : Option NodeId) : Quiet (uselessElse body otherwise) := by
  unfold uselessElse
  infer_instance

instance (body : Option NodeId) : Steady table (handledBody body) := by
  unfold handledBody
  apply Settles.andThen
  intro clauses
  apply Settles.andThen
  intro word
  extract_lets handled
  have handled_steady (otherwise : Option NodeId) : Steady table (handled otherwise) := by
    unfold handled
    split
    · infer_instance
    · infer_instance
    · infer_instance
  clear_value handled
  infer_instance

instance : Steady table body := by
  unfold body
  apply Settles.andThen
  intro inner
  apply Settles.andThen
  intro handled
  apply Settles.andThen
  intro word
  split
  · infer_instance
  · infer_instance

theorem beginBlock_settlesAt (word : Keyword) :
    SettlesAt table (.keyword word) [] 0 beginBlock := by
  unfold beginBlock
  infer_instance

/-! ### Conditionals -/

instance : Steady table elseBranch := by
  unfold elseBranch
  infer_instance

instance : Steady table ifTail := by
  unfold ifTail
  apply Settles.peek
  intro kind span
  split
  · next same =>
      subst same
      infer_instance
  · infer_instance

theorem ifBlock_settlesAt (word : Keyword) : SettlesAt table (.keyword word) [] 0 ifBlock := by
  unfold ifBlock
  infer_instance

theorem unlessBlock_settlesAt (word : Keyword) :
    SettlesAt table (.keyword word) [] 0 unlessBlock := by
  unfold unlessBlock
  apply SettlesAt.takeFlat
  intro token _
  apply Settles.andThen
  intro _
  apply Settles.andThen
  intro condition
  apply Settles.andThen
  intro _
  apply Settles.andThen
  intro whenFalse
  apply Settles.andThen
  intro stray
  split
  · infer_instance
  · infer_instance

/-! ### Loops -/

instance : Steady table loopHead := by
  unfold loopHead
  infer_instance

theorem loopBlock_settlesAt (form : LoopForm) (word : Keyword) :
    SettlesAt table (.keyword word) [] 0 (loopBlock form) := by
  unfold loopBlock
  infer_instance

instance (word : Token) : Steady table (whenClause word) := by
  unfold whenClause
  infer_instance

instance : Steady table whenClauses := by
  unfold whenClauses whenTurn
  refine Settles.finish (Steady.loop fun clauses => ?_) inferInstance
  apply Settles.andThen
  intro word
  split
  · infer_instance
  · infer_instance

theorem caseBlock_settlesAt (word : Keyword) :
    SettlesAt table (.keyword word) [] 0 caseBlock := by
  unfold caseBlock
  apply SettlesAt.takeFlat
  intro token _
  apply Settles.andThen
  intro _
  apply Settles.andThen
  intro kind
  extract_lets clauses
  have clauses_steady (subject : Option NodeId) : Steady table (clauses subject) := by
    unfold clauses
    infer_instance
  clear_value clauses
  infer_instance

instance : Steady table forTarget := by
  unfold forTarget
  infer_instance

theorem forBlock_settlesAt (word : Keyword) :
    SettlesAt table (.keyword word) [] 0 forBlock := by
  unfold forBlock
  infer_instance

end RubySyntax.Parse
