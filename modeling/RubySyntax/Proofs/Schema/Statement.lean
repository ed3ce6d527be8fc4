/-
Statements: modifiers, assignments of several values, and lists of statements.

An assignment that takes more values keeps its two operands. What is assigned
to in a multiple assignment is a list of targets, whether it was just read or
found where an expression had been expected.
-/

import RubySyntax.Grammar.Statement
import RubySyntax.Proofs.Schema.Definition

namespace RubySyntax.Parse

variable {outcome : Arena} {known : Prop} {table : RuleTable} [served : table.Upholds outcome]
  {loose : NodeId → Prop} {state : State} {node : NodeId} {shape : Shape NodeId}

/-! ### Values -/

omit served in
instance (inner value : NodeId) : Conforming outcome table known (rescueShape inner value) := by
  constructor
  unfold rescueShape
  apply Upholds.andThen
  intro span
  apply (alloc_tagged rfl rfl List.mem_cons_self span).bind
  intro clause
  apply upholds_pure
  exact fun given => .of_place rfl (List.cons_ne_nil _ _) rfl given.1.singleton

omit served in
instance (items : List NodeId) : Conforming outcome table known (valueArray items) := by
  unfold valueArray
  infer_instance

instance : Conforming outcome table known moreValues := by
  unfold moreValues
  infer_instance

instance : Conforming outcome table known firstValue := by
  unfold firstValue
  infer_instance

instance : Conforming outcome table known values := by
  unfold values
  apply Conforming.andThen
  intro first
  apply Conforming.andThen
  intro shape
  extract_lets finished
  have finished_upholds (alone : Bool) {known : Prop} :
      Conforming outcome table known (finished alone) := by
    unfold finished
    infer_instance
  clear_value finished
  split <;> infer_instance

/-! ### Assignments of several values -/

theorem multipleAssign_upholds (targets : NodeId)
    (tagged : known → outcome.Tagged ["mlhs"] targets) :
    Upholds outcome table known (multipleAssign targets) fun _ => True := by
  unfold multipleAssign
  apply Upholds.andThen
  intro _
  apply Upholds.andThen
  intro assigned
  apply Upholds.andThen
  intro span
  apply upholds_lift
  apply Scan.alloc_upholds
  exact fun given => .of_place rfl trivial rfl (tagged given.2.2.2).singleton

theorem assignFound_leads (orderly : state.Orderly) (holds : state.Holds loose)
    {before after : List NodeId} {rest : Option NodeId}
    (settled : state.Settled node (.targets before rest after)) :
    Returns table (multipleAssign node) state fun _ after =>
      Leads outcome loose known state after True := by
  have targets : Leads outcome loose known state state (outcome.Tagged ["mlhs"] node) :=
    .learn orderly holds settled rfl rfl List.mem_cons_self
  have assigns : Upholds outcome table (outcome.Tagged ["mlhs"] node ∧ known)
      (multipleAssign node) fun _ => True := multipleAssign_upholds node And.left
  apply (assigns loose state orderly holds).mono
  intro _ after assigned
  exact targets.trans assigned

theorem assignMore_leads (orderly : state.Orderly) (holds : state.Holds loose)
    (settled : state.Settled node shape) (binary : shape.isBinary = true)
    (assigned value : NodeId) :
    Returns table (assignMore node assigned value) state fun _ after =>
      Leads outcome loose known state after True := by
  have skips {known : Prop} : Conforming outcome table known skip := inferInstance
  have reads {known : Prop} : Conforming outcome table known (commaList listItem false) :=
    inferInstance
  have spans {known : Prop} (items : List NodeId) :
      Conforming outcome table known (liftM (Scan.spanOfAll items)) := inferInstance
  have stores {known : Prop} (items : List NodeId) (span : Span) :
      Conforming outcome table known (liftM (Scan.alloc (.list .array items) span)) := inferInstance
  have widens {known : Prop} (span : Span) : Conforming outcome table known (do
      Scan.widen node span
      return node) := inferInstance
  unfold assignMore
  apply skips.upholds.then orderly holds
  intro _ skipped first still
  apply reads.upholds.then first.orderly still
  intro more read second still
  apply (spans _).upholds.then second.orderly still
  intro span spanned third still
  apply (stores _ span).upholds.then third.orderly still
  intro array stored fourth still
  have lasts := first.lasts.trans (second.lasts.trans (third.lasts.trans fourth.lasts))
  obtain ⟨kept, settled, binary⟩ := lasts.binary settled binary
  apply Returns.lift_bind (Scan.setBinary_leads fourth.orderly settled binary inferInstance)
  intro _ changed leads
  apply ((widens span).upholds _ changed leads.orderly (still.later leads.lasts)).mono
  intro _ after last
  exact leads.next last

instance (node : NodeId) (start : Span) : Conforming outcome table known (targetsAfter node start) := by
  constructor
  unfold targetsAfter
  apply Upholds.andThen
  intro first
  apply (targetsRest_upholds [first] start).bind
  intro targets
  apply Upholds.andThen
  intro kind
  split
  · exact upholds_pure fun _ => trivial
  · exact multipleAssign_upholds targets fun given => given.2.1

instance : Conforming outcome table known expressionStatement := by
  constructor
  unfold expressionStatement
  apply Upholds.andThen
  intro start
  apply Upholds.andThen
  intro node
  apply Upholds.andThen
  intro kind loose state orderly holds
  apply Returns.lift_bind (Scan.shapeOf_returns node state)
  intro shape reached looked
  obtain ⟨rfl, stored, found, rfl⟩ := looked
  have settled := orderly.settled found
  have done {known : Prop} : Conforming outcome table known (pure node) := inferInstance
  have after {known : Prop} : Conforming outcome table known (targetsAfter node start.span) :=
    inferInstance
  split
  · next assigned value shape =>
      rw [shape] at settled
      split
      · exact assignMore_leads orderly holds (settled rfl rfl) rfl assigned value
      · exact done.upholds loose reached orderly holds
  · next shape =>
      split
      · exact after.upholds loose reached orderly holds
      split
      · rw [shape] at settled
        exact assignFound_leads orderly holds (settled rfl rfl)
      · exact done.upholds loose reached orderly holds
  · split
    · exact after.upholds loose reached orderly holds
    · exact done.upholds loose reached orderly holds

/-! ### Statements -/

instance (first : Token) : Conforming outcome table known (plainStatement first) := by
  unfold plainStatement
  split
  · infer_instance
  · infer_instance
  · infer_instance
  · infer_instance
  · constructor
    apply (targetsRest_upholds [] first.span).bind
    intro targets
    exact multipleAssign_upholds targets And.left
  · infer_instance

instance (first : Token) (node : NodeId) :
    Conforming outcome table known (runsBodyFirst first node) := by
  unfold runsBodyFirst
  apply Conforming.andThen
  intro shape
  split <;> infer_instance

instance (form : LoopForm) (first : Token) (node : NodeId) :
    Conforming outcome table known (loopModifier form first node) := by
  unfold loopModifier
  infer_instance

instance (first : Token) (node : NodeId) :
    Conforming outcome table known (modifier? first node) := by
  unfold modifier?
  apply Conforming.andThen
  intro kind
  split <;> infer_instance

instance : Conforming outcome table known statement := by
  unfold statement modifierTurn
  apply Conforming.andThen
  intro first
  apply Conforming.andThen
  intro plain
  apply Conforming.andThen
  intro label
  extract_lets modified
  have modified_upholds (reported : Unit) {known : Prop} :
      Conforming outcome table known (modified reported) := by
    apply Conforming.loop
    intro node
    apply Conforming.andThen
    intro token
    apply Conforming.andThen
    intro shape
    split <;> infer_instance
  clear_value modified
  split
  · infer_instance
  · infer_instance

instance : Conforming outcome table known skipToStatementEnd := by
  unfold skipToStatementEnd
  infer_instance

instance : Conforming outcome table known statementList := by
  unfold statementList statementTurn
  infer_instance

omit served in
instance (items : List NodeId) : Conforming outcome table known (spanOfEnds items) := by
  unfold spanOfEnds
  split <;> infer_instance

instance : Conforming outcome table known statements := by
  unfold statements
  infer_instance

end RubySyntax.Parse
