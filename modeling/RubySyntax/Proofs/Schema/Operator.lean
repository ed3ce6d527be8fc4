/-
Operators and assignments.

A number that loses its sign is still a number; all else is new.
-/

import RubySyntax.Grammar.Operator
import RubySyntax.Proofs.Schema.Primary

namespace RubySyntax.Parse

variable {outcome : Arena} {known : Prop} {table : RuleTable} [served : table.Upholds outcome]

/-! ### Assignments -/

instance : Conforming outcome table known splatValues := by
  unfold splatValues
  infer_instance

instance (rule : CommandRule) : Conforming outcome table known (assignedValue rule) := by
  unfold assignedValue
  apply Conforming.andThen
  intro kind
  split
  · infer_instance
  · apply Conforming.andThen
    intro operand
    extract_lets reads
    have reads_upholds (isCommand : Bool) {known : Prop} [Entails known (Judged.good outcome operand)] :
        Conforming outcome table known (reads isCommand) := by
      unfold reads
      extract_lets rescued
      have rescued_upholds (value : NodeId) {known : Prop} :
          Conforming outcome table known (rescued value) := by
        unfold rescued
        infer_instance
      clear_value rescued
      infer_instance
    clear_value reads
    infer_instance

instance (rule : CommandRule) : Conforming outcome table known (operand rule) := by
  unfold operand
  apply Conforming.andThen
  intro operand
  apply Conforming.andThen
  intro token
  apply Conforming.andThen
  intro assignable
  split
  · infer_instance
  · infer_instance
  · infer_instance

/-! ### Unary operators -/

instance (rule : CommandRule) (mark : Span) (read : Operand)
    [Entails known (Judged.good outcome read)] :
    Conforming outcome table known (bangOperand rule mark read) := by
  unfold bangOperand
  infer_instance

instance (rule : CommandRule) : Conforming outcome table known (unary rule) := by
  unfold unary
  apply Conforming.andThen
  intro token
  split
  · infer_instance
  · split
    · infer_instance
    · infer_instance

omit served in
theorem unsign_upholds (id : NodeId) {value shape : Shape NodeId} (number : value.lasts = false)
    (free : shape.Free) {loose : NodeId → Prop} {state : State} (orderly : state.Orderly)
    {node : Node} (found : state.arena.get? id = some node) (holds : node.shape = value) :
    Returns table (do
      Scan.modifyNode id fun node =>
        { node with shape, span := { node.span with start := node.span.start + 1 } }
      return true) state fun _ after => Leads outcome loose known state after True := by
  apply Returns.lift_bind (Scan.modifyNode_leads orderly id ?_ ?_)
  · intro _ after leads
    exact returns_pure leads
  · intro other same kept
    rw [found] at same
    cases same
    rw [holds, number] at kept
    cases kept
  · exact fun _ _ _ _ => free.conforms outcome

omit served in
instance (id : NodeId) : Conforming outcome table known (takeSign id) := by
  constructor
  unfold takeSign
  intro loose state orderly holds
  apply Returns.lift_bind (Scan.shapeOf_returns id state)
  intro shape reached looked
  obtain ⟨rfl, node, found, rfl⟩ := looked
  split
  · next value shape => exact unsign_upholds id rfl inferInstance orderly found shape
  · next value shape => exact unsign_upholds id rfl inferInstance orderly found shape
  · exact returns_pure (.refl orderly fun _ => trivial)

omit served in
instance (first : Token) (base : NodeId) :
    Conforming outcome table known (takeSignOf first base) := by
  unfold takeSignOf
  infer_instance

instance (rule : CommandRule) : Conforming outcome table known (power rule) := by
  unfold power
  infer_instance

instance (rule : CommandRule) : Conforming outcome table known (minus rule) := by
  unfold minus
  infer_instance

/-! ### Operators between operands -/

omit served in
instance (mark : Punct) (left right : NodeId) :
    Conforming outcome table known (binaryNode mark left right) := by
  unfold binaryNode
  apply Conforming.andThen
  intro span
  split <;> infer_instance

instance (rule : CommandRule) (least : Nat) : Conforming outcome table known (binary rule least) := by
  unfold binary binaryTurn
  apply Conforming.andThen
  intro first
  apply Conforming.loop
  intro progress
  split
  next left previous =>
    apply Conforming.andThen
    intro token
    split
    · infer_instance
    · infer_instance

instance (rule : CommandRule) : Conforming outcome table known (range rule) := by
  unfold range
  apply Conforming.andThen
  intro first
  apply Conforming.andThen
  intro kind
  dsimp only
  split
  · infer_instance
  · next form found =>
      have free (left right : NodeId) : Shape.Free (.binary form left right) := by
        split at found
        · cases found
          infer_instance
        · cases found
          infer_instance
        · cases found
      infer_instance

instance (read : Operand) [Entails known (Judged.good outcome read)] :
    Conforming outcome table known (branches read) := by
  unfold branches
  infer_instance

instance (rule : CommandRule) : Conforming outcome table known (argumentOperand rule) := by
  unfold argumentOperand
  infer_instance

instance (rule : CommandRule) : Conforming outcome table known (negation rule) := by
  unfold negation
  infer_instance

end RubySyntax.Parse
