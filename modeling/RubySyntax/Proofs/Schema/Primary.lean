/-
Primary expressions and what follows them.

A list of statements in parentheses that is only the rest of a longer one is
taken apart again. A call gets its block from the rule that reads it.
-/

import RubySyntax.Grammar.Chain
import RubySyntax.Proofs.Schema.Heredoc
import RubySyntax.Proofs.Schema.Statement

namespace RubySyntax.Parse

variable {outcome : Arena} {known : Prop} {table : RuleTable} [served : table.Upholds outcome]

/-! ### Literals and groups -/

instance (token : Token) : Conforming outcome table known (misplaced token) := by
  unfold misplaced
  infer_instance

instance : Conforming outcome table known negativeNumber := by
  unfold negativeNumber
  apply Conforming.andThen
  intro minus
  apply Conforming.andThen
  intro token
  split <;> infer_instance

instance : Conforming outcome table known topConstant := by
  unfold topConstant
  apply Conforming.andThen
  intro mark
  apply Conforming.andThen
  intro token
  split <;> infer_instance

omit served in
theorem restItems_upholds (rest : NodeId) :
    Upholds outcome table known (do
      match ← Scan.shapeOf rest with
      | .list .statements items =>
          Scan.recycle rest
          return items
      | _ => return [rest]) fun _ => True := by
  intro loose state orderly holds
  apply Returns.lift_bind (Scan.shapeOf_returns rest state)
  intro shape reached looked
  obtain ⟨rfl, node, found, rfl⟩ := looked
  split
  · next items shape =>
      apply Returns.lift_bind (Scan.recycle_leads orderly found (by rw [shape]; rfl))
      intro _ after leads
      exact returns_pure leads
  · exact returns_pure (.refl orderly fun _ => trivial)

instance : Conforming outcome table known moreStatements := by
  constructor
  unfold moreStatements
  apply Upholds.andThen
  intro kind
  split
  · exact upholds_pure fun _ => trivial
  · apply Upholds.andThen
    intro rest?
    split
    · exact upholds_pure fun _ => trivial
    · next rest => exact restItems_upholds rest

instance (opening : Token) (first : NodeId) :
    Conforming outcome table known (groupRest opening first) := by
  unfold groupRest
  infer_instance

instance : Conforming outcome table known group := by
  unfold group
  apply Conforming.andThen
  intro opening
  apply Conforming.andThen
  intro _
  apply Conforming.andThen
  intro kind
  split
  · infer_instance
  · infer_instance
  · apply Conforming.andThen
    intro first
    apply Conforming.andThen
    intro shape
    split <;> infer_instance

instance : Conforming outcome table known array := by
  unfold array
  infer_instance

instance : Conforming outcome table known hashKey := by
  unfold hashKey
  apply Conforming.andThen
  intro key
  apply Conforming.andThen
  intro label
  split <;> infer_instance

instance : Conforming outcome table known hashEntry := by
  unfold hashEntry
  apply Conforming.andThen
  intro token
  split <;> infer_instance

instance : Conforming outcome table known hash := by
  unfold hash hashTurn
  infer_instance

/-! ### Words -/

instance : Conforming outcome table known jumpValue := by
  unfold jumpValue
  apply Conforming.andThen
  intro kind
  split
  · infer_instance
  · apply Conforming.andThen
    intro list
    apply Conforming.andThen
    intro _
    extract_lets array
    have array_upholds {known : Prop} : Conforming outcome table known array := by
      unfold array
      infer_instance
    clear_value array
    split
    · infer_instance
    · apply Conforming.andThen
      intro shape
      split <;> infer_instance
    · infer_instance

instance (form : OptionalForm) : Conforming outcome table known (jump form) := by
  unfold jump
  infer_instance

instance : Conforming outcome table known definedTest := by
  unfold definedTest
  infer_instance

instance (opening : Span) : Conforming outcome table known (negatedOperand opening) := by
  unfold negatedOperand
  infer_instance

instance : Conforming outcome table known negationCall := by
  unfold negationCall
  infer_instance

instance (word : Keyword) : Conforming outcome table known (wordConstruct? word) := by
  unfold wordConstruct?
  split <;> infer_instance

instance (token : Token) : Conforming outcome table known (primaryNode token) := by
  unfold primaryNode
  split
  · infer_instance
  · infer_instance
  · infer_instance
  · infer_instance
  · infer_instance
  · infer_instance
  · infer_instance
  · infer_instance
  · apply Conforming.andThen
    intro node?
    split <;> infer_instance
  · infer_instance

instance : Conforming outcome table known primary := by
  unfold primary
  apply Conforming.andThen
  intro token
  split
  · infer_instance
  · infer_instance
  · infer_instance
  · infer_instance
  · infer_instance
  · infer_instance
  · apply Conforming.andThen
    intro shape?
    split <;> infer_instance

/-! ### Chains -/

instance (receiver : NodeId) (isSafe : Bool) :
    Conforming outcome table known (afterDot receiver isSafe) := by
  unfold afterDot
  apply Conforming.andThen
  intro token
  extract_lets named
  have named_upholds (name? : Option Symbol) {known : Prop} :
      Conforming outcome table known (named name?) := by
    unfold named
    split <;> infer_instance
  clear_value named
  split <;> infer_instance

instance (receiver : NodeId) : Conforming outcome table known (afterColons receiver) := by
  unfold afterColons
  apply Conforming.andThen
  intro token
  split <;> infer_instance

variable {operand : Operand} [given : Entails known (Judged.good outcome operand)]

instance : Conforming outcome table known (callArguments operand) := by
  unfold callArguments
  infer_instance

instance : Conforming outcome table known (element operand) := by
  constructor
  unfold element
  apply Upholds.andThen
  intro _
  apply Upholds.andThen
  intro receiver
  apply Upholds.andThen
  intro list
  apply Upholds.andThen
  intro close
  apply Upholds.andThen
  intro name
  apply Upholds.andThen
  intro span
  apply (upholds_lift (Scan.alloc_upholds (fun given =>
    Scan.conforms_of_blockOf rfl given.2.2.2.1) _)).bind
  intro node
  exact upholds_pure fun _ => trivial

instance : Conforming outcome table known (blockCall operand) := by
  constructor
  unfold blockCall
  apply block_upholds.bind
  intro closure
  apply Upholds.andThen
  intro call
  apply (upholds_lift (Scan.giveBlock_upholds call closure fun given => given.2.1)).bind
  intro _
  exact upholds_pure fun _ => trivial

instance : Conforming outcome table known (link? operand) := by
  unfold link?
  extract_lets ifTaking
  have ifTaking_upholds (takes : Bool) {rule : Operand → Parse Operand} {known : Prop}
      [Conforming outcome table known (rule operand)] :
      Conforming outcome table known (ifTaking takes rule) := by
    unfold ifTaking
    infer_instance
  clear_value ifTaking
  apply Conforming.andThen
  intro kind
  split <;> infer_instance

instance : Conforming outcome table known (chainFrom operand) := by
  unfold chainFrom chainTurn
  apply Conforming.loop
  intro current
  apply Conforming.andThen
  intro next?
  split <;> infer_instance

omit given

instance : Conforming outcome table known chain := by
  unfold chain
  infer_instance

/-! ### Commands -/

instance : Conforming outcome table known commandArguments := by
  unfold commandArguments
  infer_instance

instance (call : NodeId) : Conforming outcome table known (commandBlock call) := by
  constructor
  unfold commandBlock
  apply block_upholds.bind
  intro closure
  apply (upholds_lift (Scan.giveBlock_upholds call closure And.left)).bind
  intro _
  exact Conforming.upholds

instance (head : Operand) (allowBlock : Bool) [Entails known (Judged.good outcome head)] :
    Conforming outcome table known (command head allowBlock) := by
  have rest {known : Prop} [Entails known (Judged.good outcome head)] :
      Conforming outcome table known (do
        let call ← Scan.callWith head (← commandArguments)
        if !allowBlock then return call
        match ← peekKind with
        | .keyword .doBlock | .punct .commandBrace => commandBlock call
        | _ => return call) := by
    apply Conforming.andThen
    intro list
    apply Conforming.andThen
    intro call
    split
    · infer_instance
    · apply Conforming.andThen
      intro kind
      split <;> infer_instance
  unfold command
  infer_instance

end RubySyntax.Parse
