/-
Steps that read no token.

They store and change nodes, declare names, report problems and look at the
state. Found by instance search once their parts are known, they stay within
the brackets and the scope where they start.
-/

import RubySyntax.Grammar.Literal
import RubySyntax.Grammar.Target
import RubySyntax.Proofs.Nesting.Passage

namespace RubySyntax

variable {α β σ : Type}

/-! ### Shapes that are no placeholders -/

namespace Shape

instance (locals : List Symbol) (body : Option α) : Proper (.scope locals body) := ⟨nofun⟩
instance (form : ListForm) (items : List α) : Proper (.list form items) := ⟨nofun⟩
instance (form : OptionalForm) (item : Option α) : Proper (.optional form item) := ⟨nofun⟩
instance (body : Option α) (clauses : List α) (otherwise : Option α) :
    Proper (.rescue body clauses otherwise) := ⟨nofun⟩
instance (exceptions : List α) (target body : Option α) :
    Proper (.rescueClause exceptions target body) := ⟨nofun⟩
instance (body cleanup : Option α) : Proper (.ensure body cleanup) := ⟨nofun⟩
instance (condition : α) (whenTrue whenFalse : Option α) :
    Proper (.conditional condition whenTrue whenFalse) := ⟨nofun⟩
instance (form : LoopForm) (condition : α) (body : Option α) (bodyFirst : Bool) :
    Proper (.loop form condition body bodyFirst) := ⟨nofun⟩
instance (target iterated : α) (body : Option α) : Proper (.forLoop target iterated body) :=
  ⟨nofun⟩
instance (subject : Option α) (clauses : List α) (otherwise : Option α) :
    Proper (.caseOf subject clauses otherwise) := ⟨nofun⟩
instance (conditions : List α) (body : Option α) : Proper (.whenClause conditions body) :=
  ⟨nofun⟩
instance (form : UnaryForm) (operand : α) : Proper (.unary form operand) := ⟨nofun⟩
instance (form : BinaryForm) (left right : α) : Proper (.binary form left right) := ⟨nofun⟩
instance (before : List α) (rest : Option α) (after : List α) :
    Proper (.targets before rest after) := ⟨nofun⟩
instance (target : α) (operator : Symbol) (value : α) :
    Proper (.operatorAssign target operator value) := ⟨nofun⟩
instance (safe : Bool) (receiver : α) (name : Symbol) (arguments : List α) (block : Option α) :
    Proper (.call safe receiver name arguments block) := ⟨nofun⟩
instance (name : Symbol) (arguments : List α) (block : Option α) :
    Proper (.functionCall name arguments block) := ⟨nofun⟩
instance (arguments : List α) (block : Option α) : Proper (.superCall arguments block) :=
  ⟨nofun⟩
instance (block : Option α) : Proper (.bareSuper block) := ⟨nofun⟩
instance (entries : List (HashEntry α)) : Proper (.hash entries) := ⟨nofun⟩
instance (form : NameForm) (name : Symbol) : Proper (.named form name : Shape α) := ⟨nofun⟩
instance (form : RestForm) (name : Option Symbol) :
    Proper (.restParameter form name : Shape α) := ⟨nofun⟩
instance (owner : α) (name : Symbol) : Proper (.scopedConstant owner name) := ⟨nofun⟩
instance (number : Nat) : Proper (.numberedReference number : Shape α) := ⟨nofun⟩
instance (byte : Byte) : Proper (.backReference byte : Shape α) := ⟨nofun⟩
instance : Proper (.leaf .redo : Shape α) := ⟨nofun⟩
instance : Proper (.leaf .retry : Shape α) := ⟨nofun⟩
instance : Proper (.leaf .nilValue : Shape α) := ⟨nofun⟩
instance : Proper (.leaf .trueValue : Shape α) := ⟨nofun⟩
instance : Proper (.leaf .falseValue : Shape α) := ⟨nofun⟩
instance : Proper (.leaf .selfValue : Shape α) := ⟨nofun⟩
instance (value : Int) : Proper (.integer value : Shape α) := ⟨nofun⟩
instance (value : Binary64) : Proper (.float value : Shape α) := ⟨nofun⟩
instance (form : TextForm) (bytes : Bytes) : Proper (.text form bytes : Shape α) := ⟨nofun⟩
instance (source : Bytes) (flags : String) : Proper (.regexp source flags : Shape α) := ⟨nofun⟩
instance (parts : List α) (flags : String) : Proper (.dynamicRegexp parts flags) := ⟨nofun⟩
instance (list : Parameters α) : Proper (.formals list) := ⟨nofun⟩
instance (name : Symbol) (default : α) : Proper (.optionalParameter name default) := ⟨nofun⟩
instance (name : Symbol) (default : Option α) : Proper (.keywordParameter name default) :=
  ⟨nofun⟩
instance (form : ClosureForm) (parameters : Option α) (body : α) :
    Proper (.closure form parameters body) := ⟨nofun⟩
instance (name : Symbol) (parameters : Option α) (body : α) :
    Proper (.method name parameters body) := ⟨nofun⟩
instance (receiver : α) (name : Symbol) (parameters : Option α) (body : α) :
    Proper (.singletonMethod receiver name parameters body) := ⟨nofun⟩
instance (path : α) (superclass : Option α) (body : α) :
    Proper (.classDefinition path superclass body) := ⟨nofun⟩
instance (form : OpeningForm) (target body : α) : Proper (.opening form target body) := ⟨nofun⟩
instance (form : AliasForm) (newName oldName : Symbol) :
    Proper (.alias form newName oldName : Shape α) := ⟨nofun⟩
instance (names : List Symbol) : Proper (.undef names : Shape α) := ⟨nofun⟩

instance {condition : Prop} [Decidable condition] {left right : Shape α} [Proper left]
    [Proper right] : Proper (if condition then left else right) := by
  split
  · infer_instance
  · infer_instance

instance (owner : ConstantOwner) (name : Symbol) : Proper (Scan.constantShape owner name) := by
  cases owner with
  | lexical => exact inferInstanceAs (Proper (.named .constant name))
  | top => exact inferInstanceAs (Proper (.named .topConstant name))
  | under owner => exact inferInstanceAs (Proper (.scopedConstant owner name))

instance (kind : LiteralKind) (parts : List NodeId) (flags : String) :
    Proper (Scan.partsShape kind parts flags) := by
  unfold Scan.partsShape
  split <;> infer_instance

/-- A shape that has room for a block is a call, with the block as without it. -/
theorem proper_withBlock {shape : Shape NodeId} (block : NodeId)
    (takes : (Scan.blockOf? shape).isSome) : Proper (Scan.withBlock block shape) := by
  unfold Scan.blockOf? at takes
  split at takes
  · exact ⟨nofun⟩
  · exact ⟨nofun⟩
  · exact ⟨nofun⟩
  · exact ⟨nofun⟩
  · cases takes

end Shape

namespace Scan

class Quiet (step : Scan α) : Prop where
  returns : ∀ state, Returns step state fun _ after => state.Unmoved after

section

variable {first : Scan α} {next : α → Scan β}

instance (priority := low) {step : Scan α} [Lexical step] : Quiet step where
  returns state := (Lexical.returns state).mono fun _ _ same => same.unmoved

instance Quiet.bind [Quiet first] [∀ value, Quiet (next value)] : Quiet (first >>= next) where
  returns state := (Quiet.returns state).bind fun _ reached before =>
    (Quiet.returns reached).mono fun _ _ later => before.trans later

theorem Quiet.andThen [Quiet first] (rest : ∀ value, Quiet (next value)) :
    Quiet (first >>= next) :=
  inferInstance

instance {condition : Prop} [Decidable condition] {left right : Scan α} [Quiet left]
    [Quiet right] : Quiet (if condition then left else right) := by
  split
  · infer_instance
  · infer_instance

instance {items : List α} {body : α → Scan β} [∀ item, Quiet (body item)] :
    Quiet (items.mapM body) := by
  induction items with
  | nil =>
      rw [List.mapM_nil]
      infer_instance
  | cons item items ih =>
      rw [List.mapM_cons]
      infer_instance

instance {items : List α} {body : β → α → Scan β} {start : β}
    [∀ joined item, Quiet (body joined item)] : Quiet (items.foldlM body start) := by
  induction items generalizing start with
  | nil =>
      rw [List.foldlM_nil]
      infer_instance
  | cons item items ih =>
      rw [List.foldlM_cons]
      infer_instance

end

/-! ### The store -/

theorem alloc_returns {shape : Shape NodeId} {state : State}
    (licensed : shape = .leaf .error → 0 < state.report.errors) (span : Span) :
    Returns (alloc shape span) state fun _ after => state.Unmoved after := by
  apply (alloc_result shape span state).mono
  intro id after allocated
  obtain ⟨node, arena, rfl, stored, rfl⟩ := allocated
  have advances : state.Advances 0 0 { state with arena } :=
    .put (fun sound => (Arena.alloc_spec sound stored).2.1)
      (fun sound => (Arena.alloc_spec sound stored).2.2)
      fun placeholder _ => licensed placeholder
  exact ⟨advances, rfl, rfl⟩

instance (shape : Shape NodeId) (span : Span) [proper : shape.Proper] :
    Quiet (alloc shape span) where
  returns _ := alloc_returns (fun placeholder => absurd placeholder proper.proper) span

instance (id : NodeId) : Quiet (recycle id) where
  returns state := by
    apply returns_modify
    refine ⟨⟨Nat.le_refl _, fun accounted => ?_, .refl 0 _⟩, rfl, rfl⟩
    obtain ⟨free, puts⟩ := Arena.recycle_spec accounted.free id
    refine ⟨free, fun other node found placeholder => ?_⟩
    have held := puts other
    by_cases same : other = id
    · rw [if_pos same, found] at held
      cases held
    · rw [if_neg same, found] at held
      exact accounted.reported other node held.symm placeholder

instance (id : NodeId) : Quiet (nodeAt id) where
  returns state := by
    apply (nodeAt_returns id state).mono
    intro node after looked
    rw [looked.1]
    exact .refl state

theorem quiet_modifyNode {id : NodeId} {f : Node → Node}
    (proper : ∀ node, (f node).shape = .leaf .error → node.shape = .leaf .error) :
    Quiet (modifyNode id f) where
  returns state := by
    apply (nodeAt_returns id state).bind
    intro node reached looked
    obtain ⟨rfl, found⟩ := looked
    apply returns_modify
    have puts := Arena.modify_spec found f
    refine ⟨.put (fun sound => sound.modify id f) (fun _ => puts) ?_, rfl, rfl⟩
    intro placeholder accounted
    exact accounted.reported id node found (proper node placeholder)

instance (id : NodeId) (span : Span) : Quiet (widen id span) :=
  quiet_modifyNode fun _ placeholder => placeholder

instance (id : NodeId) (shape : Shape NodeId) [proper : shape.Proper] :
    Quiet (setShape id shape) :=
  quiet_modifyNode fun _ placeholder => absurd placeholder proper.proper

instance (id : NodeId) : Quiet (shapeOf id) := by
  unfold shapeOf
  infer_instance

instance (id : NodeId) : Quiet (spanOf id) := by
  unfold spanOf
  infer_instance

instance (id : Option NodeId) : Quiet (spanOf? id) := by
  cases id with
  | none => exact inferInstanceAs (Quiet (pure Span.dummy))
  | some id => exact inferInstanceAs (Quiet (spanOf id))

instance (items : List NodeId) : Quiet (spanOfAll items) := by
  unfold spanOfAll
  infer_instance

instance (left right : NodeId) : Quiet (spanOfBoth left right) := by
  unfold spanOfBoth
  infer_instance

/-! ### Names and reports -/

instance (span : Span) : Quiet (sliceOf span) := by
  unfold sliceOf
  infer_instance

instance (symbol : Symbol) : Quiet (nameOf symbol) := by
  unfold nameOf
  infer_instance

instance (name : Symbol) : Quiet (declare name) where
  returns state := by
    apply returns_modify
    exact ⟨.ofSameArena (Nat.le_refl _) rfl (state.scopes.declare_leads name), rfl, rfl⟩

instance : Quiet takeQuotedKey? where
  returns _ := by
    constructor
    intro _ _ run
    cases run
    exact .ofFields rfl rfl rfl rfl (Nat.le_refl _)

instance (token : Token) (expecting : Option String) : Quiet (unexpected token expecting) := by
  unfold unexpected
  infer_instance

instance (id : NodeId) : Quiet (requireValue id) := by
  unfold requireValue
  infer_instance

instance (block : Option NodeId) : Quiet (refuseBlock block) := by
  unfold refuseBlock
  split
  · infer_instance
  · infer_instance

theorem report_returns {problem : Problem} (severity : problem.severity = .error) (span : Span)
    (state : State) :
    Returns (report span problem) state fun _ after => 0 < after.report.errors := by
  apply Returns.get_bind
  apply Returns.relyOn_bind
  exact returns_modify (Report.errors_add_pos _ span severity)

/-! ### Operands, conditions and targets -/

instance (operand : Operand) : Quiet (operandSpan operand) := by
  unfold operandSpan
  split <;> infer_instance

instance (callee : Callee) (arguments? : Option Arguments) (span : Span) :
    Quiet (buildCall callee arguments? span) := by
  unfold buildCall
  split <;> infer_instance

instance (operand : Operand) : Quiet (nodeOf operand) := by
  unfold nodeOf
  split <;> infer_instance

instance (operand : Operand) : Quiet (calleeOf operand) := by
  unfold calleeOf
  split <;> infer_instance

instance (operand : Operand) (arguments : Arguments) : Quiet (callWith operand arguments) := by
  unfold callWith
  apply Quiet.andThen
  intro span
  split
  · infer_instance
  · infer_instance

instance (operand : Operand) : Quiet (callOf operand) := by
  unfold callOf
  split
  · infer_instance
  · infer_instance
  · infer_instance

instance (call block : NodeId) : Quiet (giveBlock call block) := by
  unfold giveBlock
  apply Quiet.andThen
  intro span
  apply Quiet.andThen
  intro shape
  split
  · next takes =>
      have := Shape.proper_withBlock block (Option.isSome_of_eq_some takes)
      infer_instance
  · infer_instance
  · infer_instance

instance (operand : NodeId) (name : String) (mark : Span) :
    Quiet (unaryCall operand name mark) := by
  unfold unaryCall
  infer_instance

instance (left right : NodeId) (name : Symbol) (span : Span) :
    Quiet (binaryCall left right name span) := by
  unfold binaryCall
  infer_instance

instance (depth : Nat) (id : NodeId) : Quiet (conditionFrom depth id) := by
  induction depth generalizing id with
  | zero => exact inferInstanceAs (Quiet (throw .starved : Scan NodeId))
  | succ depth ih =>
      unfold conditionFrom
      apply Quiet.andThen
      intro shape
      split <;> infer_instance

instance (id : NodeId) : Quiet (condition id) := by
  unfold condition
  infer_instance

instance (span : Span) : Quiet (checkConstantTarget span) := by
  unfold checkConstantTarget
  infer_instance

instance (id : NodeId) : Quiet (bareName? id) := by
  unfold bareName?
  apply Quiet.andThen
  intro shape
  split
  · infer_instance
  · infer_instance

instance (id : NodeId) : Quiet (targetOfNode id) := by
  unfold targetOfNode
  apply Quiet.andThen
  intro span
  apply Quiet.andThen
  intro name
  split
  · infer_instance
  · apply Quiet.andThen
    intro shape
    extract_lets finished checked
    have finished_quiet (passed : Unit) : Quiet (finished passed) :=
      inferInstanceAs (Quiet (pure id))
    have checked_quiet (passed : Unit) : Quiet (checked passed) := by
      unfold checked
      clear_value finished
      apply Quiet.andThen
      intro written
      split
      · infer_instance
      · infer_instance
    clear_value checked
    infer_instance

instance (operand : Operand) : Quiet (targetOf operand) := by
  unfold targetOf
  split
  · infer_instance
  · infer_instance
  · infer_instance
  · infer_instance

instance (operand : Operand) : Quiet (isAssignable operand) := by
  unfold isAssignable
  split <;> infer_instance

/-! ### Literals -/

theorem textShape_returns (kind : LiteralKind) (bytes : Bytes) (flags : String) (state : State) :
    Returns (textShape kind bytes flags) state fun shape _ => shape.Proper := by
  unfold textShape
  split
  · exact returns_pure inferInstance
  · exact returns_pure inferInstance
  · exact returns_pure inferInstance
  · exact returns_pure inferInstance
  · exact (returns_any _ state).bind fun _ _ _ => returns_pure inferInstance
  · exact (returns_any _ state).bind fun _ _ _ => returns_pure inferInstance

theorem literalShape_returns (kind : LiteralKind) (parts : List Part) (flags : String)
    (state : State) :
    Returns (literalShape kind parts flags) state fun shape _ => shape.Proper := by
  unfold literalShape
  split
  · exact textShape_returns kind [] flags state
  · exact textShape_returns kind _ flags state
  · exact (returns_any _ state).bind fun _ _ _ => returns_pure inferInstance

instance (kind : LiteralKind) (bytes : Bytes) (flags : String) :
    Quiet (textShape kind bytes flags) := by
  unfold textShape
  split <;> infer_instance

instance (part : Part) : Quiet (partNode part) := by
  cases part with
  | text bytes span _ => exact inferInstanceAs (Quiet (alloc (.text .string bytes) span))
  | code node => exact inferInstanceAs (Quiet (pure node))

instance (kind : LiteralKind) (parts : List Part) (flags : String) :
    Quiet (literalShape kind parts flags) := by
  unfold literalShape
  split
  · infer_instance
  · infer_instance
  · infer_instance

instance (id : NodeId) : Quiet (stringParts id) := by
  unfold stringParts
  apply Quiet.andThen
  intro shape
  split
  · infer_instance
  · infer_instance

instance (joined : List NodeId) (part : NodeId) : Quiet (joinString joined part) := by
  unfold joinString
  split
  · infer_instance
  · apply Quiet.andThen
    intro last
    apply Quiet.andThen
    intro next
    split
    · infer_instance
    · infer_instance

instance (left right : NodeId) : Quiet (joinStrings left right) := by
  unfold joinStrings
  apply Quiet.andThen
  intro span
  apply Quiet.andThen
  intro leftParts
  apply Quiet.andThen
  intro rightParts
  apply Quiet.andThen
  intro joined
  extract_lets dynamic
  have dynamic_quiet : Quiet dynamic :=
    inferInstanceAs (Quiet (alloc (.list .string joined.reverse) span))
  clear_value dynamic
  split
  · next only =>
      have spanned : Quiet (modifyNode only fun node => { node with span }) :=
        quiet_modifyNode fun _ placeholder => placeholder
      apply Quiet.andThen
      intro shape
      split
      · infer_instance
      · infer_instance
  · infer_instance

end Scan

end RubySyntax
