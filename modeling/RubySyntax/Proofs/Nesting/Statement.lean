/-
Statements. Where a statement does not end, an error has been reported before
tokens are passed over, whatever they are.
-/

import RubySyntax.Grammar.Statement
import RubySyntax.Proofs.Nesting.Definition

namespace RubySyntax.Parse

set_option synthInstance.maxSize 512

variable {table : RuleTable}

/-! ### Values -/

theorem rescueShape_returns (inner value : NodeId) (state : State) :
    Returns table (rescueShape inner value) state fun shape _ => shape.Proper := by
  unfold rescueShape
  apply Returns.after
  intro _ _
  apply Returns.after
  intro _ _
  exact returns_pure inferInstance

instance (inner value : NodeId) : Quiet (rescueShape inner value) := by
  unfold rescueShape
  infer_instance

instance (items : List NodeId) : Quiet (valueArray items) := by
  unfold valueArray
  infer_instance

variable [Serves table]

instance : Steady table moreValues := by
  unfold moreValues
  infer_instance

instance : Steady table firstValue := by
  unfold firstValue
  apply Settles.peekingKind
  intro kind
  split
  · next same =>
      subst same
      exact splatItem_settlesAt
  · infer_instance

instance : Steady table values := by
  unfold values
  apply Settles.andThen
  intro first
  apply Settles.andThen
  intro shape
  extract_lets finished
  have finished_steady (alone : Bool) : Steady table (finished alone) := by
    unfold finished
    infer_instance
  clear_value finished
  split
  · infer_instance
  · infer_instance

instance (targets : NodeId) : Steady table (multipleAssign targets) := by
  unfold multipleAssign
  infer_instance

theorem assignMore_settlesAt (node assigned value : NodeId) :
    SettlesAt table (.punct .comma) [] 0 (assignMore node assigned value) := by
  unfold assignMore
  infer_instance

instance (node : NodeId) (start : Span) : Steady table (targetsAfter node start) := by
  unfold targetsAfter
  infer_instance

/-! ### Single statements -/

instance : Steady table expressionStatement := by
  unfold expressionStatement
  apply Settles.andThen
  intro token
  apply Settles.andThen
  intro node
  apply Settles.peekingKind
  intro kind
  apply SettlesAt.andThen
  intro shape
  split
  · split
    · next same =>
        subst same
        exact assignMore_settlesAt node _ _
    · infer_instance
  · infer_instance
  · infer_instance

theorem plainStatement_settlesAt (kind : TokenKind) (span : Span) :
    SettlesAt table kind [] 0 (plainStatement ⟨kind, span⟩) := by
  unfold plainStatement
  dsimp only
  split
  · exact aliasStatement_settlesAt _
  · exact undefStatement_settlesAt _
  · exact atStart_settlesAt _
  · exact atExit_settlesAt _
  · infer_instance
  · infer_instance

instance (first : Token) (node : NodeId) : Quiet (runsBodyFirst first node) := by
  unfold runsBodyFirst
  apply Quiet.andThen
  intro shape
  split
  · infer_instance
  · infer_instance

theorem loopModifier_settlesAt {kind : TokenKind} [kind.Flat] (form : LoopForm) (first : Token)
    (node : NodeId) : SettlesAt table kind [] 0 (loopModifier form first node) := by
  unfold loopModifier
  infer_instance

omit [Serves table] in
theorem loopModifier_returns (form : LoopForm) (first : Token) (node : NodeId) (state : State) :
    Returns table (loopModifier form first node) state fun shape _ => shape.Proper := by
  unfold loopModifier
  apply Returns.after
  intro _ _
  apply Returns.after
  intro _ _
  apply Returns.after
  intro _ _
  exact returns_pure inferInstance

instance (first : Token) (node : NodeId) : Steady table (modifier? first node) := by
  unfold modifier?
  apply Settles.peekingKind
  intro kind
  split
  · infer_instance
  · infer_instance
  · exact (loopModifier_settlesAt .whileTrue first node).finish inferInstance
  · exact (loopModifier_settlesAt .untilTrue first node).finish inferInstance
  · infer_instance
  · infer_instance

omit [Serves table] in
theorem modifier_returns (first : Token) (node : NodeId) (state : State) :
    Returns table (modifier? first node) state fun shape? _ => ∀ shape ∈ shape?, shape.Proper := by
  unfold modifier?
  apply Returns.after
  intro kind reached
  split
  · apply Returns.after
    intro _ _
    apply Returns.after
    intro _ _
    exact returns_some inferInstance
  · apply Returns.after
    intro _ _
    apply Returns.after
    intro _ _
    exact returns_some inferInstance
  · exact (loopModifier_returns .whileTrue first node reached).bind fun _ _ => returns_some
  · exact (loopModifier_returns .untilTrue first node reached).bind fun _ _ => returns_some
  · apply Returns.after
    intro _ _
    apply Returns.after
    intro value valued
    exact (rescueShape_returns node value valued).bind fun _ _ => returns_some
  · exact returns_none

instance : Steady table statement := by
  unfold statement
  apply Settles.peek
  intro kind span
  apply (plainStatement_settlesAt kind span).finish
  intro plain
  apply Settles.andThen
  intro label
  have modified : Steady table (repeatUntil plain (modifierTurn ⟨kind, span⟩)) := by
    apply Steady.loop
    intro node
    unfold modifierTurn
    apply Settles.andThen
    intro token
    apply Settles.known (modifier_returns ⟨kind, span⟩ node)
    intro shape? proper
    split
    · infer_instance
    · next shape =>
        have := proper shape rfl
        infer_instance
  split
  · infer_instance
  · infer_instance

/-! ### Lists of statements -/

instance (skipped : TokenKind → Bool) : Recovers table (skipWhile skipped) := by
  unfold skipWhile skipTurn
  infer_instance

instance : Recovers table skipToStatementEnd := by
  unfold skipToStatementEnd
  infer_instance

instance : Steady table statementList := by
  unfold statementList statementTurn
  refine Settles.finish (Steady.loop fun items => ?_) inferInstance
  infer_instance

instance (items : List NodeId) : Quiet (spanOfEnds items) := by
  unfold spanOfEnds
  split <;> infer_instance

instance : Steady table statements := by
  unfold statements
  infer_instance

end RubySyntax.Parse
