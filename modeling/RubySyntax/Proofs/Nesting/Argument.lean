/-
Expressions as arguments, lists of arguments and targets. What stands between
parentheses or brackets is balanced by itself; its closing mark is asked for by
the rule that took the opening one.
-/

import RubySyntax.Grammar.Argument
import RubySyntax.Grammar.Target
import RubySyntax.Proofs.Nesting.Basic

namespace RubySyntax.Parse

variable {table : RuleTable} [Serves table] {kind : TokenKind}

/-! ### Expressions -/

instance (rule : CommandRule) : Steady table (argument rule) := by
  unfold argument
  infer_instance

instance : Steady table argumentValue := by
  unfold argumentValue
  infer_instance

instance (rule : CommandRule) : Steady table (expression rule) := by
  unfold expression expressionTurn
  apply Settles.andThen
  intro first
  apply Steady.loop
  intro left
  apply Settles.peekingKind
  intro kind
  dsimp only
  split
  · infer_instance
  · next form found =>
      have : kind.Flat := by
        split at found
        · infer_instance
        · infer_instance
        · cases found
      infer_instance

instance : Steady table expressionValue := by
  unfold expressionValue
  infer_instance

instance : Steady table conditionValue := by
  unfold conditionValue
  infer_instance

instance (operand : Operand) (rule : CommandRule) (allowBlock : Bool) :
    Steady table (finishCommand operand rule allowBlock) := by
  unfold finishCommand
  infer_instance

theorem splatItem_settlesAt : SettlesAt table (.punct .splatStar) [] 0 splatItem := by
  unfold splatItem
  infer_instance

instance : Steady table listItem := by
  unfold listItem
  apply Settles.peekingKind
  intro kind
  split
  · next same =>
      subst same
      exact splatItem_settlesAt
  · infer_instance

/-! ### Arguments -/

instance (name : Symbol) (span : Span) : Quiet (labelKey name span) := by
  unfold labelKey
  infer_instance

instance (list : ArgumentList) (item : NodeId) : Quiet (pushPositional list item) := by
  unfold pushPositional
  infer_instance

instance (list : ArgumentList) (key : NodeId) (keySpan : Span) :
    Steady table (pushPairFrom list key keySpan) := by
  unfold pushPairFrom
  infer_instance

instance (list : ArgumentList) : Steady table (plainArgument list) := by
  unfold plainArgument
  apply Settles.andThen
  intro operand
  apply Settles.andThen
  intro label
  split
  · infer_instance
  · infer_instance

instance (list : ArgumentList) : Steady table (argumentItem list) := by
  unfold argumentItem
  apply Settles.peek
  intro kind span
  extract_lets item
  have item_settles (checked : Unit) : SettlesAt table kind [] 0 (item checked) := by
    unfold item
    dsimp only
    split
    · exact splatItem_settlesAt.finish inferInstance
    · infer_instance
    · infer_instance
    · infer_instance
    · infer_instance
  clear_value item
  infer_instance

instance (list : ArgumentList) : Quiet (finishArguments list) := by
  unfold finishArguments
  infer_instance

instance (closer : Option Punct) : Steady table (atCloser closer) := by
  unfold atCloser
  split
  · infer_instance
  · infer_instance

instance (closer : Option Punct) : Steady table (arguments closer) := by
  unfold arguments argumentTurn
  apply Settles.andThen
  intro ended
  split
  · infer_instance
  · apply Settles.andThen
    intro list
    infer_instance

theorem parenthesized_settlesAt : SettlesAt table (.punct .callParen) [] 0 parenthesized := by
  unfold parenthesized
  apply SettlesAt.takeOpening rfl
  intro opening _
  apply Settles.andThen
  intro list
  apply Settles.expect rfl
  intro close
  infer_instance

/-! ### Targets -/

theorem targetSplat_settlesAt (list : TargetList) [kind.Flat] :
    SettlesAt table kind [] 0 (targetSplat list) := by
  unfold targetSplat
  apply SettlesAt.takeFlat
  intro star _
  apply Settles.andThen
  intro next
  infer_instance

instance (list : TargetList) : Steady table (targetItem? list) := by
  unfold targetItem?
  apply Settles.peekingKind
  intro kind
  split
  · infer_instance
  · split
    · next star =>
        have either : kind = .punct .splatStar ∨ kind = .punct .star := by simpa using star
        have : kind.Flat := by
          cases either with
          | inl same =>
              subst same
              infer_instance
          | inr same =>
              subst same
              infer_instance
        exact (targetSplat_settlesAt list).finish inferInstance
    · infer_instance

instance (read : List NodeId) (start : Span) : Steady table (targetsRest read start) := by
  unfold targetsRest targetTurn
  refine Settles.finish (Steady.loop fun progress => ?_) inferInstance
  have item : Steady table (do
      match ← targetItem? progress.1 with
      | none => return Turn.done progress.1
      | some list => return .again (list, false)) := by
    apply Settles.andThen
    intro list
    split
    · infer_instance
    · infer_instance
  infer_instance

instance (opening : Span) : Steady table (nestedTargets opening) := by
  unfold nestedTargets
  infer_instance

instance : Steady table target := by
  unfold target
  apply Settles.peek
  intro kind span
  split
  · next isParen =>
      apply SettlesAt.skipOpening (TokenKind.bracketMark_of_isLeftParen isParen)
      intro _
      apply Settles.andThen
      intro targets
      apply Settles.expect rfl
      intro close
      infer_instance
  · infer_instance

end RubySyntax.Parse
