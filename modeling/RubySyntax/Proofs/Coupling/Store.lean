/-
Nodes, names and operands in two coupled runs.

A node is stored in the same slot in both runs, unless the first one has no
room left for it. What is found in a slot, apart from its place, and how many
slots there are, is the same; other steps see no more of the store.
-/

import RubySyntax.Grammar.Literal
import RubySyntax.Grammar.Target
import RubySyntax.Proofs.Coupling.Lexer

namespace RubySyntax

variable {α : Type}

namespace Scan

variable {coupling : Coupling}

/-! ### The store -/

theorem agrees_set {first second : State} (alike : coupling.Alike first second)
    (between : coupling.Between first) : Agrees coupling (set first) (set second) where
  meets _ _ _ _ := .ok alike between

instance (shape : Shape NodeId) (span : Span) : InStep coupling (alloc shape span) := by
  unfold alloc
  apply Agrees.looking
  intro state report arena maxDepth alike between
  rw [(coupling.map alike.reports).canLocate]
  apply Agrees.andThen
  intro _
  change Agrees coupling
    (match state.arena.alloc (state.report.map.place shape span) with
      | some (id, arena) => _
      | none => _)
    (match arena.alloc (report.map.place shape span) with
      | some (id, arena) => _
      | none => _)
  cases stored : state.arena.alloc (state.report.map.place shape span) with
  | some found =>
      obtain ⟨id, first⟩ := found
      obtain ⟨second, same, arenas⟩ := coupling.store alike.reports alike.arenas stored
      rw [same]
      have reached : coupling.Alike { state with arena := first }
          { state.recast report arena maxDepth with arena := second } :=
        ⟨alike.reports, arenas, alike.depths, rfl, alike.always⟩
      have := agrees_set reached between
      infer_instance
  | none =>
      constructor
      intro _ twin here _
      cases coupling.full alike.arenas stored with
      | inl excused => exact .excused excused
      | inr full =>
          rw [full.1, full.2]
          exact .error here

theorem agrees_change {f : Arena → Arena}
    (same : ∀ first second, coupling.arenas first second → coupling.arenas (f first) (f second)) :
    InStep coupling (modify fun state : State => { state with arena := f state.arena }) where
  meets state twin alike between := by
    have recast := alike.rest
    rw [recast] at alike ⊢
    have reached : coupling.Alike { state with arena := f state.arena }
        { state.recast twin.report twin.arena twin.limits.maxDepth with
          arena := f twin.arena } :=
      ⟨alike.reports, same _ _ alike.arenas, alike.depths, rfl, alike.always⟩
    exact .ok reached between

instance (id : NodeId) : InStep coupling (recycle id) :=
  agrees_change fun _ _ => coupling.recycle id

/-- What follows looks at no more of the node than its shape and its range. -/
theorem inStep_nodeAt (id : NodeId) {next : Node → Scan α}
    (outline : ∀ node other, other.outline = node.outline → next other = next node)
    (follow : ∀ node, InStep coupling (next node)) : InStep coupling (nodeAt id >>= next) := by
  unfold nodeAt
  rw [bind_assoc]
  apply Agrees.looking
  intro state report arena maxDepth alike _
  have found := (coupling.slots alike.arenas).2 id
  dsimp only
  generalize arena.get? id = other at found ⊢
  generalize state.arena.get? id = one at found ⊢
  cases one with
  | none =>
      rw [Option.map_eq_none_iff.mp found]
      infer_instance
  | some node =>
      obtain ⟨like, rfl, same⟩ := Option.map_eq_some_iff.mp found
      dsimp only
      rw [pure_bind, pure_bind, outline node like same]
      exact follow node

theorem inStep_modifyNode (id : NodeId) {f : Node → Node} (lineless : Node.Lineless f) :
    InStep coupling (modifyNode id f) := by
  have changed := agrees_change fun _ _ => coupling.modify id lineless
  apply inStep_nodeAt id fun _ _ _ => rfl
  intro _
  exact changed

instance (id : NodeId) (span : Span) : InStep coupling (widen id span) := by
  exact inStep_modifyNode id fun _ _ => rfl

instance (id : NodeId) (shape : Shape NodeId) : InStep coupling (setShape id shape) := by
  exact inStep_modifyNode id fun _ _ => rfl

instance (id : NodeId) : InStep coupling (shapeOf id) := by
  apply inStep_nodeAt id
  · intro node other same
    rw [show other.shape = node.shape from congrArg Prod.fst same]
  · intro node
    infer_instance

instance (id : NodeId) : InStep coupling (spanOf id) := by
  apply inStep_nodeAt id
  · intro node other same
    rw [show other.span = node.span from congrArg Prod.snd same]
  · intro node
    infer_instance

instance (id : Option NodeId) : InStep coupling (spanOf? id) := by
  cases id with
  | none => exact inferInstanceAs (InStep coupling (pure Span.dummy))
  | some id => exact inferInstanceAs (InStep coupling (spanOf id))

instance (items : List NodeId) : InStep coupling (spanOfAll items) := by
  unfold spanOfAll
  infer_instance

instance (left right : NodeId) : InStep coupling (spanOfBoth left right) := by
  unfold spanOfBoth
  infer_instance

/-! ### Names, scopes and reports -/

instance (span : Span) : InStep coupling (sliceOf span) := by
  unfold sliceOf
  infer_instance

instance (symbol : Symbol) : InStep coupling (nameOf symbol) := by
  unfold nameOf
  infer_instance

instance (name : Symbol) : InStep coupling (declare name) :=
  agrees_modify (fun _ _ _ _ => rfl) fun _ =>
    ⟨rfl, rfl, rfl, rfl, rfl, rfl, .refl _⟩

instance (kind : ScopeKind) : InStep coupling (enterScope kind) :=
  agrees_modify (fun _ _ _ _ => rfl) fun _ =>
    ⟨rfl, rfl, rfl, rfl, rfl, rfl, .refl _⟩

instance (scopes : ScopeStack) :
    InStep coupling (modify fun state : State => { state with scopes }) :=
  agrees_modify (fun _ _ _ _ => rfl) fun _ =>
    ⟨rfl, rfl, rfl, rfl, rfl, rfl, .refl _⟩

instance (body : Option NodeId) (span : Span) : InStep coupling (leaveScope body span) := by
  unfold leaveScope
  infer_instance

instance : InStep coupling enterConstruct := by
  unfold enterConstruct
  infer_instance

instance : InStep coupling leaveConstruct := by
  unfold leaveConstruct
  infer_instance

instance : InStep coupling takeQuotedKey? := by
  apply agrees_modifyGet
  intro state twin alike between
  have recast := alike.rest
  rw [recast] at alike ⊢
  exact ⟨rfl, ⟨alike.reports, alike.arenas, alike.depths, rfl, alike.always⟩, between⟩

instance (token : Token) (expecting : Option String) :
    InStep coupling (unexpected token expecting) := by
  unfold unexpected
  infer_instance

instance (id : NodeId) : InStep coupling (requireValue id) := by
  unfold requireValue
  infer_instance

instance (block : Option NodeId) : InStep coupling (refuseBlock block) := by
  unfold refuseBlock
  split
  · infer_instance
  · infer_instance

/-! ### Operands, conditions and targets -/

instance (operand : Operand) : InStep coupling (operandSpan operand) := by
  unfold operandSpan
  split <;> infer_instance

instance (callee : Callee) (arguments? : Option Arguments) (span : Span) :
    InStep coupling (buildCall callee arguments? span) := by
  unfold buildCall
  split <;> infer_instance

instance (operand : Operand) : InStep coupling (nodeOf operand) := by
  unfold nodeOf
  split <;> infer_instance

instance (operand : Operand) : InStep coupling (calleeOf operand) := by
  unfold calleeOf
  split <;> infer_instance

instance (operand : Operand) (arguments : Arguments) :
    InStep coupling (callWith operand arguments) := by
  unfold callWith
  apply InStep.andThen
  intro span
  split
  · infer_instance
  · infer_instance

instance (operand : Operand) : InStep coupling (callOf operand) := by
  unfold callOf
  split
  · infer_instance
  · infer_instance
  · infer_instance

instance (call block : NodeId) : InStep coupling (giveBlock call block) := by
  unfold giveBlock
  apply InStep.andThen
  intro span
  apply InStep.andThen
  intro shape
  split
  · infer_instance
  · infer_instance
  · infer_instance

instance (operand : NodeId) (name : String) (mark : Span) :
    InStep coupling (unaryCall operand name mark) := by
  unfold unaryCall
  infer_instance

instance (left right : NodeId) (name : Symbol) (span : Span) :
    InStep coupling (binaryCall left right name span) := by
  unfold binaryCall
  infer_instance

instance (depth : Nat) (id : NodeId) : InStep coupling (conditionFrom depth id) := by
  induction depth generalizing id with
  | zero => exact inferInstanceAs (InStep coupling (throw .starved : Scan NodeId))
  | succ depth ih =>
      unfold conditionFrom
      apply InStep.andThen
      intro shape
      split <;> infer_instance

instance (id : NodeId) : InStep coupling (condition id) := by
  unfold condition
  apply Agrees.looking
  intro state report arena maxDepth alike _
  rw [(coupling.slots alike.arenas).1]
  infer_instance

instance (span : Span) : InStep coupling (checkConstantTarget span) := by
  unfold checkConstantTarget
  infer_instance

instance (id : NodeId) : InStep coupling (bareName? id) := by
  unfold bareName?
  apply InStep.andThen
  intro shape
  split
  · infer_instance
  · infer_instance

instance (id : NodeId) : InStep coupling (targetOfNode id) := by
  unfold targetOfNode
  apply InStep.andThen
  intro span
  apply InStep.andThen
  intro name
  split
  · infer_instance
  · apply InStep.andThen
    intro shape
    extract_lets finished checked
    have finished_agrees (passed : Unit) : InStep coupling (finished passed) :=
      inferInstanceAs (InStep coupling (pure id))
    have checked_agrees (passed : Unit) : InStep coupling (checked passed) := by
      unfold checked
      clear_value finished
      apply InStep.andThen
      intro written
      split
      · infer_instance
      · infer_instance
    clear_value checked
    infer_instance

instance (operand : Operand) : InStep coupling (targetOf operand) := by
  unfold targetOf
  split
  · infer_instance
  · infer_instance
  · infer_instance
  · infer_instance

instance (operand : Operand) : InStep coupling (isAssignable operand) := by
  unfold isAssignable
  split <;> infer_instance

/-! ### Literals -/

instance (kind : LiteralKind) (bytes : Bytes) (flags : String) :
    InStep coupling (textShape kind bytes flags) := by
  unfold textShape
  split <;> infer_instance

instance (part : Part) : InStep coupling (partNode part) := by
  cases part with
  | text bytes span _ =>
      exact inferInstanceAs (InStep coupling (alloc (.text .string bytes) span))
  | code node => exact inferInstanceAs (InStep coupling (pure node))

instance (kind : LiteralKind) (parts : List Part) (flags : String) :
    InStep coupling (literalShape kind parts flags) := by
  unfold literalShape
  split
  · infer_instance
  · infer_instance
  · infer_instance

instance (id : NodeId) : InStep coupling (stringParts id) := by
  unfold stringParts
  apply InStep.andThen
  intro shape
  split
  · infer_instance
  · infer_instance

instance (joined : List NodeId) (part : NodeId) : InStep coupling (joinString joined part) := by
  unfold joinString
  split
  · infer_instance
  · apply InStep.andThen
    intro last
    apply InStep.andThen
    intro next
    split
    · infer_instance
    · infer_instance

instance (left right : NodeId) : InStep coupling (joinStrings left right) := by
  unfold joinStrings
  apply InStep.andThen
  intro span
  apply InStep.andThen
  intro leftParts
  apply InStep.andThen
  intro rightParts
  apply InStep.andThen
  intro joined
  extract_lets dynamic
  have dynamic_agrees : InStep coupling dynamic :=
    inferInstanceAs (InStep coupling (alloc (.list .string joined.reverse) span))
  clear_value dynamic
  have moved (only : NodeId) : InStep coupling (modifyNode only fun node => { node with span }) :=
    inStep_modifyNode only fun _ _ => rfl
  split
  · apply InStep.andThen
    intro shape
    split
    · infer_instance
    · infer_instance
  · infer_instance

end Scan

end RubySyntax
