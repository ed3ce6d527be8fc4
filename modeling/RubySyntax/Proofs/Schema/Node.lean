/-
Steps that store and change nodes.

A node is stored with children that the schema allows. It is changed only in
ways in which the nodes that refer to it do not notice: a call gets a block, a
range becomes a flip-flop, a number loses its sign.
-/

import RubySyntax.Grammar.Target
import RubySyntax.Proofs.Lexer.Step
import RubySyntax.Proofs.Schema.Rule

namespace RubySyntax

variable {α : Type} {outcome : Arena} {known : Prop} {loose : NodeId → Prop} {state : State}

instance {shape : Shape NodeId} [free : shape.Free] :
    Entails known (Judged.good outcome shape) :=
  ⟨fun _ => free.conforms outcome⟩

instance {shape : Shape NodeId} [free : shape.Free] : Entails known (shape.Conforms outcome) :=
  ⟨fun _ => free.conforms outcome⟩

namespace Scan

/-! ### Looking -/

instance (span : Span) (problem : Problem) : Idle (report span problem) where
  returns state := by
    apply Returns.get_bind
    apply Returns.relyOn_bind
    apply returns_modify
    exact ⟨rfl, Report.add_map _ _ _, rfl, rfl, rfl, rfl, rfl, rfl, rfl, rfl⟩

instance (name : Bytes) : Idle (intern name) where
  returns _ := by
    constructor
    intro _ _ run
    cases run
    exact ⟨rfl, rfl, rfl, rfl, rfl, rfl, rfl, rfl, rfl, rfl⟩

instance : Idle takeQuotedKey? where
  returns _ := by
    constructor
    intro _ _ run
    cases run
    exact ⟨rfl, rfl, rfl, rfl, rfl, rfl, rfl, rfl, rfl, rfl⟩

instance (holds : Bool) (fault : Fault) : Idle (relyOn holds fault) := by
  unfold relyOn
  infer_instance

instance (mode : LexerState → Mode) (loopFlags commandFlags : LexerState → BitStack)
    (openConstructs : LexerState → Nat) :
    Idle (setLexer fun lexer =>
      { lexer with
        mode := mode lexer
        loopFlags := loopFlags lexer
        commandFlags := commandFlags lexer
        openConstructs := openConstructs lexer }) :=
  idle_modify fun _ => ⟨rfl, rfl, rfl, rfl, rfl, rfl, rfl, rfl, rfl, rfl⟩

instance (mode : Mode) : Idle (setMode mode) := by
  unfold setMode
  infer_instance

instance : Idle enterConstruct := by
  unfold enterConstruct
  infer_instance

instance : Idle leaveConstruct := by
  unfold leaveConstruct
  infer_instance

instance (scopes : State → ScopeStack) :
    Idle (modify fun state => { state with scopes := scopes state } : Scan PUnit) :=
  idle_modify fun _ => ⟨rfl, rfl, rfl, rfl, rfl, rfl, rfl, rfl, rfl, rfl⟩

instance (name : Symbol) : Idle (declare name) := by
  unfold declare
  infer_instance

instance (kind : ScopeKind) : Idle (enterScope kind) := by
  unfold enterScope
  infer_instance

instance (id : NodeId) : Idle (nodeAt id) where
  returns state := by
    apply (nodeAt_returns id state).mono
    intro node after looked
    rw [looked.1]
    exact .refl state

instance (id : NodeId) : Idle (shapeOf id) := by
  unfold shapeOf
  infer_instance

instance (id : NodeId) : Idle (spanOf id) := by
  unfold spanOf
  infer_instance

instance (id : Option NodeId) : Idle (spanOf? id) := by
  cases id with
  | none => exact inferInstanceAs (Idle (pure Span.dummy))
  | some id => exact inferInstanceAs (Idle (spanOf id))

instance (items : List NodeId) : Idle (spanOfAll items) := by
  unfold spanOfAll
  infer_instance

instance (left right : NodeId) : Idle (spanOfBoth left right) := by
  unfold spanOfBoth
  infer_instance

instance (span : Span) : Idle (sliceOf span) := by
  unfold sliceOf
  infer_instance

instance (symbol : Symbol) : Idle (nameOf symbol) := by
  unfold nameOf
  infer_instance

instance (token : Token) (expecting : Option String) : Idle (unexpected token expecting) := by
  unfold unexpected
  infer_instance

instance (id : NodeId) : Idle (requireValue id) := by
  unfold requireValue
  infer_instance

instance (block : Option NodeId) : Idle (refuseBlock block) := by
  unfold refuseBlock
  split
  · infer_instance
  · infer_instance

instance (operand : Operand) : Idle (operandSpan operand) := by
  unfold operandSpan
  split <;> infer_instance

instance (operand : Operand) : Idle (calleeOf operand) := by
  unfold calleeOf
  split <;> infer_instance

instance (span : Span) : Idle (checkConstantTarget span) := by
  unfold checkConstantTarget
  infer_instance

instance (operand : Operand) : Idle (isAssignable operand) := by
  unfold isAssignable
  split <;> infer_instance

/-! ### Storing nodes -/

structure Adds (before : State) (shape : Shape NodeId) (id : NodeId) (after : State) :
    Prop where
  empty : before.arena.get? id = none
  settled : shape.lasts = true → after.Settled id shape
  leads : ∀ {outcome : Arena} {loose : NodeId → Prop} {known : Prop},
    (known → outcome.Follows loose before → before.Conforms outcome → shape.Conforms outcome) →
      Leads outcome loose known before after True

theorem alloc_leads (shape : Shape NodeId) (span : Span) (orderly : state.Orderly) :
    Returns (alloc shape span) state (Adds state shape) := by
  apply (alloc_result shape span state).mono
  intro id after allocated
  obtain ⟨node, arena, rfl, stored, rfl⟩ := allocated
  obtain ⟨empty, free, puts⟩ := Arena.alloc_spec orderly.free stored
  constructor
  · exact empty
  · exact fun kept => ⟨⟨node, puts.at_slot, rfl⟩, kept, orderly.unawaited_of_empty empty⟩
  · intro outcome loose known conforms
    apply Leads.put orderly puts free
    · intro old found
      rw [empty] at found
      cases found
    · intro given conforming follows
      refine ⟨?_, trivial⟩
      intro new same
      cases same
      have lasts : Lasts state { state with arena } :=
        (Lasts.refl state).put (state.not_settled_of_empty empty) puts
      exact conforms given (follows.earlier lasts) conforming

theorem Adds.lasts {shape : Shape NodeId} {id : NodeId} {after : State}
    (adds : Adds state shape id after) : Lasts state after := by
  have leads : Leads state.arena (fun _ => True) False state after True := adds.leads False.elim
  exact leads.lasts

theorem Adds.safely {shape : Shape NodeId} {id : NodeId} {after : State}
    (adds : Adds state shape id after) (free : shape.Free) : Safely state after := by
  have leads (outcome : Arena) : Leads outcome (fun _ => True) True state after True :=
    adds.leads fun _ _ _ => free.conforms outcome
  constructor
  · exact (leads state.arena).orderly
  · exact (leads state.arena).lasts
  · intro outcome conforming
    apply ((leads outcome).conforms trivial ?_ conforming).1
    exact fun id _ _ tight => absurd trivial tight

theorem Adds.tagged {shape : Shape NodeId} {id : NodeId} {after : State} {gained : Prop}
    (adds : Adds state shape id after)
    (leads : Leads outcome loose known state after gained) (holds : state.Holds loose)
    (kept : shape.lasts = true) (single : shape.isBinary = false) {tags : List String}
    (listed : shape.tag ∈ tags) :
    Leads outcome loose known state after (outcome.Tagged tags id) where
  orderly := leads.orderly
  lasts := leads.lasts
  conforms := by
    intro given follows conforming
    refine ⟨(leads.conforms given follows conforming).1, ?_⟩
    refine follows.tagged (adds.settled kept) ?_ single listed
    intro isLoose
    obtain ⟨old, before, -⟩ := holds id isLoose
    exact state.not_settled_of_empty adds.empty old before

theorem alloc_upholds {shape : Shape NodeId} (conforms : known → shape.Conforms outcome)
    (span : Span) : Upholds outcome known (alloc shape span) fun _ => True := by
  intro loose state orderly _
  apply (alloc_leads shape span orderly).mono
  intro id after adds
  exact adds.leads fun given _ _ => conforms given

theorem alloc_tagged {shape : Shape NodeId} {tags : List String} (kept : shape.lasts = true)
    (single : shape.isBinary = false) (listed : shape.tag ∈ tags)
    (conforms : known → shape.Conforms outcome) (span : Span) :
    Upholds outcome known (alloc shape span) (outcome.Tagged tags) := by
  intro loose state orderly holds
  apply (alloc_leads shape span orderly).mono
  intro id after adds
  exact adds.tagged (adds.leads fun given _ _ => conforms given) holds kept single listed

instance {shape : Shape NodeId} [Entails known (shape.Conforms outcome)] (span : Span) :
    Conforming outcome known (alloc shape span) :=
  ⟨alloc_upholds Entails.holds span⟩

theorem leaveScope_upholds (body : Option NodeId) (span : Span) :
    Upholds outcome known (leaveScope body span) (outcome.Tagged ["scope"]) := by
  unfold leaveScope
  apply Upholds.andThen
  intro before
  apply Upholds.andThen
  intro _
  exact alloc_tagged rfl rfl (List.mem_singleton_self _) (fun _ => Shape.Free.conforms outcome) span

/-! ### Changing nodes -/

theorem modifyNode_leads (orderly : state.Orderly) (id : NodeId) {f : Node → Node}
    (remains : ∀ node, state.arena.get? id = some node → node.shape.lasts = true →
      node.shape.Remains (f node).shape)
    (conforms : ∀ node, state.arena.get? id = some node → known → state.Conforms outcome →
      (f node).shape.Conforms outcome) :
    Returns (modifyNode id f) state fun _ after =>
      Leads outcome loose known state after True := by
  apply (nodeAt_returns id state).bind
  intro node reached looked
  obtain ⟨rfl, found⟩ := looked
  apply returns_modify
  apply Leads.put orderly (Arena.modify_spec found f) (orderly.free.modify id f)
  · intro old same kept
    rw [found] at same
    cases same
    exact ⟨f node, rfl, remains node found kept⟩
  · intro given conforming _
    refine ⟨?_, trivial⟩
    intro new same
    cases same
    exact conforms node found given conforming

theorem upholds_respan (id : NodeId) (span : Node → Span) :
    Upholds outcome known (modifyNode id fun node => { node with span := span node })
      fun _ => True :=
  fun _ _ orderly _ => modifyNode_leads orderly id (fun node _ _ => .refl node.shape)
    fun node found _ conforming => conforming id node found

instance (id : NodeId) (span : Span) : Conforming outcome known (widen id span) :=
  ⟨upholds_respan id fun node => node.span.hull span⟩

theorem setShape_leads (orderly : state.Orderly) (id : NodeId) {shape : Shape NodeId}
    (remains : ∀ node, state.arena.get? id = some node → node.shape.lasts = true →
      node.shape.Remains shape)
    (conforms : known → state.Conforms outcome → shape.Conforms outcome) :
    Returns (setShape id shape) state fun _ after =>
      Leads outcome loose known state after True :=
  modifyNode_leads orderly id remains fun _ _ => conforms

theorem setBinary_leads (orderly : state.Orderly) {id : NodeId} {old : Shape NodeId}
    (settled : state.Settled id old) (binary : old.isBinary = true) {form : BinaryForm}
    {left right : NodeId} (free : Shape.Free (.binary form left right)) :
    Returns (setShape id (.binary form left right)) state fun _ after =>
      Leads outcome loose known state after True := by
  apply setShape_leads orderly id
  · intro node found _
    rw [settled.eq_of_found found]
    exact .inr ⟨binary, rfl⟩
  · exact fun _ _ => free.conforms outcome

theorem shapeOf_returns (id : NodeId) (state : State) :
    Returns (shapeOf id) state fun shape after =>
      after = state ∧ ∃ node, state.arena.get? id = some node ∧ node.shape = shape := by
  apply (nodeAt_returns id state).bind
  intro node reached looked
  obtain ⟨rfl, found⟩ := looked
  exact returns_pure ⟨rfl, node, found, rfl⟩

instance (id : NodeId) : Conforming outcome known (shapeOf id) where
  upholds loose state orderly holds := by
    apply (shapeOf_returns id state).mono
    intro shape after looked
    obtain ⟨rfl, node, found, rfl⟩ := looked
    constructor
    · exact orderly
    · exact .refl after
    · exact fun _ _ conforming => ⟨conforming, conforming id node found⟩

theorem spanOf_returns (id : NodeId) (state : State) :
    Returns (spanOf id) state fun _ after => after = state := by
  apply (nodeAt_returns id state).bind
  intro node reached looked
  exact returns_pure looked.1

/-- A node that is given back must be none that keeps its shape. -/
theorem recycle_leads (orderly : state.Orderly) {id : NodeId} {node : Node}
    (found : state.arena.get? id = some node) (dissolves : node.shape.lasts = false) :
    Returns (recycle id) state fun _ after => Leads outcome loose known state after True := by
  apply returns_modify
  obtain ⟨free, puts⟩ := Arena.recycle_spec orderly.free id
  apply Leads.put orderly puts free
  · intro old same kept
    rw [found] at same
    cases same
    rw [dissolves] at kept
    cases kept
  · exact fun _ _ _ => ⟨nofun, trivial⟩

end Scan

end RubySyntax
