/-
Calls, conditions and targets.

The block of a call is a block or a block argument: it comes with the arguments
or is given to the call later. Conditions change the form of ranges and look at
regexps; a bare name that becomes a target is given back.
-/

import RubySyntax.Proofs.Schema.Node

namespace RubySyntax

variable {outcome : Arena} {known : Prop}

namespace Scan

/-! ### Calls -/

theorem conforms_of_blockOf {shape : Shape NodeId} {block : Option NodeId}
    (takes : blockOf? shape = some block)
    (good : outcome.Tagged? ["iter", "block-pass"] block) : shape.Conforms outcome := by
  have only : shape.places = [(block.toList, ["iter", "block-pass"])] ∧ shape.Filled ∧
      shape.pieces = [] := by
    unfold blockOf? at takes
    split at takes
    · cases takes
      exact ⟨rfl, trivial, rfl⟩
    · cases takes
      exact ⟨rfl, trivial, rfl⟩
    · cases takes
      exact ⟨rfl, trivial, rfl⟩
    · cases takes
      exact ⟨rfl, trivial, rfl⟩
    · cases takes
  obtain ⟨place, filled, whole⟩ := only
  exact .of_place place filled whole good.toList

theorem conforms_of_blockless {shape : Shape NodeId} (takes : blockOf? shape = some none) :
    shape.Conforms outcome :=
  conforms_of_blockOf takes fun _ => nofun

theorem blockOf_withBlock {shape : Shape NodeId} {old : Option NodeId} (block : NodeId)
    (takes : blockOf? shape = some old) : blockOf? (withBlock block shape) = some (some block) := by
  unfold blockOf? at takes
  split at takes
  · rfl
  · rfl
  · rfl
  · rfl
  · cases takes

theorem lasts_of_blockOf {shape : Shape NodeId} {block : Option NodeId}
    (takes : blockOf? shape = some block) : shape.lasts = false := by
  unfold blockOf? at takes
  split at takes
  · rfl
  · rfl
  · rfl
  · rfl
  · cases takes

instance (callee : Callee) (arguments? : Option Arguments) (span : Span)
    [given : Entails known (Judged.good outcome arguments?)] :
    Conforming outcome known (buildCall callee arguments? span) := by
  have block (holds : known) :
      outcome.Tagged? ["iter", "block-pass"] (arguments?.getD {}).block := by
    cases arguments? with
    | none => exact nofun
    | some list => exact given.holds holds list rfl
  have stores {shape : Shape NodeId} (conforms : known → shape.Conforms outcome) :
      Upholds outcome known (alloc shape span) (Judged.good outcome) :=
    alloc_upholds conforms span
  constructor
  unfold buildCall
  split
  · exact stores fun holds => conforms_of_blockOf rfl (block holds)
  · exact stores fun holds => conforms_of_blockOf rfl (block holds)
  · split
    · exact stores fun holds => conforms_of_blockOf rfl (block holds)
    · exact stores fun _ => conforms_of_blockless rfl
  · exact Conforming.upholds

instance (list : Arguments) (span : Span) [given : Entails known (Judged.good outcome list)] :
    Entails known (Judged.good outcome { list with span }) :=
  ⟨given.holds⟩

instance : Entails known (Judged.good outcome ({} : Arguments)) := ⟨fun _ => nofun⟩

instance (span : Span) (callee : Callee) (list : Arguments)
    [given : Entails known (Judged.good outcome list)] :
    Entails known (Judged.good outcome (Operand.fullCall span callee list)) :=
  ⟨given.holds⟩

instance (operand : Operand) [given : Entails known (Judged.good outcome operand)] :
    Conforming outcome known (nodeOf operand) := by
  cases operand with
  | node id => exact inferInstanceAs (Conforming outcome known (pure id))
  | identifier span isLocal name =>
      constructor
      apply alloc_upholds
      intro _
      split
      · exact Shape.Free.conforms outcome
      · exact conforms_of_blockless rfl
  | constant span owner name =>
      cases owner with
      | lexical => exact inferInstanceAs (Conforming outcome known (alloc (.named .constant name) span))
      | top => exact inferInstanceAs (Conforming outcome known (alloc (.named .topConstant name) span))
      | under owner =>
          exact inferInstanceAs (Conforming outcome known (alloc (.scopedConstant owner name) span))
  | bareCall span callee => exact inferInstanceAs (Conforming outcome known (buildCall callee none span))
  | fullCall span callee list =>
      have : Entails known (Judged.good outcome list) := ⟨given.holds⟩
      exact inferInstanceAs (Conforming outcome known (buildCall callee (some list) span))

instance (operand : Operand) (list : Arguments) [given : Entails known (Judged.good outcome operand)]
    [more : Entails known (Judged.good outcome list)] :
    Conforming outcome known (callWith operand list) := by
  unfold callWith
  apply Conforming.andThen
  intro span
  split
  · next callee own =>
      have : Entails (Judged.good outcome span ∧ known) (Judged.good outcome
          ({ own with
            items := own.items ++ list.items
            block := own.block.or list.block } : Arguments)) := by
        constructor
        intro holds id member
        cases block : own.block with
        | none =>
            rw [block] at member
            exact more.holds holds.2 id member
        | some first =>
            rw [block] at member
            cases member
            exact given.holds holds.2 _ block
      infer_instance
  · infer_instance

instance (operand : Operand) [Entails known (Judged.good outcome operand)] :
    Conforming outcome known (callOf operand) := by
  unfold callOf
  split
  · infer_instance
  · infer_instance
  · infer_instance

theorem giveBlock_upholds (call block : NodeId)
    (isBlock : known → outcome.Tagged ["iter", "block-pass"] block) :
    Upholds outcome known (giveBlock call block) fun _ => True := by
  unfold giveBlock
  apply Upholds.andThen
  intro span loose state orderly holds
  apply (shapeOf_returns call state).bind
  intro shape reached looked
  obtain ⟨rfl, node, found, rfl⟩ := looked
  split
  · next takes =>
      have given : Upholds outcome (Judged.good outcome span ∧ known)
          (widen call span) fun _ => True := Conforming.upholds
      apply Returns.bind (setShape_leads orderly call ?_ ?_)
      · intro _ changed leads
        apply (given.given And.right loose changed leads.orderly (holds.later leads.lasts)).mono
        intro _ after later
        exact leads.trans later
      · intro other same kept
        rw [found] at same
        cases same
        rw [lasts_of_blockOf takes] at kept
        cases kept
      · intro given _
        apply conforms_of_blockOf (blockOf_withBlock block takes)
        intro id same
        cases same
        exact isBlock given.2
  · next other takes =>
      have rest : Upholds outcome (Judged.good outcome span ∧ known) (do
          report span .twoBlocks
          widen call span) fun _ => True := Conforming.upholds
      exact rest loose reached orderly holds
  · have rest : Upholds outcome (Judged.good outcome span ∧ known) (do
          report span .blockForYield
          widen call span) fun _ => True := Conforming.upholds
    exact rest loose reached orderly holds

instance (operand : NodeId) (name : String) (mark : Span) :
    Conforming outcome known (unaryCall operand name mark) := by
  unfold unaryCall
  apply Conforming.andThen
  intro name
  apply Conforming.andThen
  intro span
  exact ⟨alloc_upholds (fun _ => conforms_of_blockless rfl) _⟩

instance (left right : NodeId) (name : Symbol) (span : Span) :
    Conforming outcome known (binaryCall left right name span) :=
  ⟨alloc_upholds (fun _ => conforms_of_blockless rfl) span⟩

/-! ### Conditions -/

theorem joinedCondition_upholds {depth : Nat}
    (operands : ∀ {known : Prop} (id : NodeId), Upholds outcome known (conditionFrom depth id)
      fun _ => True)
    {loose : NodeId → Prop} {state : State} (orderly : state.Orderly) (holds : state.Holds loose)
    {id : NodeId} {old : Shape NodeId} (settled : state.Settled id old)
    (binary : old.isBinary = true) {form : BinaryForm} (left right : NodeId)
    (free : ∀ left right, Shape.Free (.binary form left right)) :
    Returns (do
      let left ← conditionFrom depth left
      let right ← conditionFrom depth right
      setShape id (.binary form left right)
      return id) state fun _ after => Leads outcome loose known state after True := by
  apply (operands left).then orderly holds
  intro left first leads still
  apply (operands right).then leads.orderly still
  intro right second later held
  obtain ⟨kept, stored, two⟩ := (leads.lasts.trans later.lasts).binary settled binary
  apply (setBinary_leads later.orderly stored two (free left right)).bind
  intro _ after last
  exact returns_pure last

theorem lineMatch_upholds {loose : NodeId → Prop} {state : State} (orderly : state.Orderly)
    (holds : state.Holds loose) {id : NodeId} {shape : Shape NodeId}
    (settled : state.Settled id shape) (regexp : shape.tag ∈ ["regx", "dregx"])
    (single : shape.isBinary = false) (noString : shape.isString = false) :
    Returns (do
      let span ← spanOf id
      alloc (.unary .lineMatch id) span) state fun _ after =>
        Leads outcome loose known state after True := by
  apply (spanOf_returns id state).bind
  intro span reached same
  subst same
  apply (alloc_leads _ span orderly).mono
  intro _ after adds
  apply adds.leads
  intro _ follows _
  have pattern := follows.tagged settled (holds.tight settled noString) single regexp
  exact .of_place rfl trivial rfl pattern.singleton

instance (depth : Nat) (id : NodeId) : Conforming outcome known (conditionFrom depth id) := by
  constructor
  induction depth generalizing known id with
  | zero => exact upholds_throw .starved
  | succ depth ih =>
      intro loose state orderly holds
      apply (shapeOf_returns id state).bind
      intro shape reached looked
      obtain ⟨rfl, node, found, rfl⟩ := looked
      have settled := orderly.settled found
      split
      · next left right shape =>
          rw [shape] at settled
          apply (setBinary_leads orderly (settled rfl rfl) rfl inferInstance).bind
          intro _ after leads
          exact returns_pure leads
      · next left right shape =>
          rw [shape] at settled
          apply (setBinary_leads orderly (settled rfl rfl) rfl inferInstance).bind
          intro _ after leads
          exact returns_pure leads
      · next left right shape =>
          rw [shape] at settled
          exact joinedCondition_upholds ih orderly holds (settled rfl rfl) rfl left right
            inferInstance
      · next left right shape =>
          rw [shape] at settled
          exact joinedCondition_upholds ih orderly holds (settled rfl rfl) rfl left right
            inferInstance
      · next shape =>
          rw [shape] at settled
          exact lineMatch_upholds orderly holds (settled rfl rfl) List.mem_cons_self rfl rfl
      · next shape =>
          rw [shape] at settled
          exact lineMatch_upholds orderly holds (settled rfl rfl)
            (List.mem_cons_of_mem _ List.mem_cons_self) rfl rfl
      · exact returns_pure (.refl orderly fun _ => trivial)

instance (id : NodeId) : Conforming outcome known (condition id) := by
  unfold condition
  infer_instance

/-! ### Targets -/

instance (id : NodeId) : Idle (bareName? id) := by
  unfold bareName?
  apply Idle.andThen
  intro shape
  split <;> infer_instance

/-- A bare name is a call without arguments. -/
theorem bareName_returns (id : NodeId) (state : State) :
    Returns (bareName? id) state fun name? _ =>
      ∀ name ∈ name?, ∃ node, state.arena.get? id = some node ∧
        node.shape = .functionCall name [] none := by
  apply (shapeOf_returns id state).bind
  intro shape reached looked
  obtain ⟨rfl, node, found, rfl⟩ := looked
  split
  · next name shape =>
      apply (returns_any _ reached).bind
      intro span _ _
      apply (returns_any _ _).bind
      intro written _ _
      apply (returns_any _ _).bind
      intro bytes _ _
      split
      · apply returns_pure
        intro other same
        cases same
        exact ⟨node, found, shape⟩
      · exact returns_pure fun _ member => absurd member (Option.not_mem_none _)
  · exact returns_pure fun _ member => absurd member (Option.not_mem_none _)

theorem checkTarget_upholds (id : NodeId) (span : Span) :
    Upholds outcome known (do
      let shape ← shapeOf id
      if isConstant shape then checkConstantTarget span
      match targetProblem? shape (← sliceOf span) with
      | some problem => report span problem
      | none => pure ()
      return id) fun _ => True := by
  apply Upholds.andThen
  intro shape
  extract_lets finished checked
  have finished_upholds {known : Prop} (passed : Unit) :
      Conforming outcome known (finished passed) :=
    inferInstanceAs (Conforming outcome known (pure id))
  have checked_upholds {known : Prop} (passed : Unit) :
      Conforming outcome known (checked passed) := by
    unfold checked
    clear_value finished
    apply Conforming.andThen
    intro written
    split
    · infer_instance
    · infer_instance
  clear_value checked
  exact Conforming.upholds

instance (id : NodeId) : Conforming outcome known (targetOfNode id) := by
  constructor
  unfold targetOfNode
  intro loose state orderly holds
  apply (spanOf_returns id state).bind
  intro span reached same
  subst same
  apply ((Idle.returns reached).and (bareName_returns id reached)).bind
  intro name? looked bare
  obtain ⟨idles, bare⟩ := bare
  have calm : Leads outcome loose known reached looked True :=
    idles.leads orderly fun _ => trivial
  have still : looked.Holds loose := holds.later calm.lasts
  cases name? with
  | some name =>
      obtain ⟨node, found, shape⟩ := bare name rfl
      rw [← idles.arena] at found
      apply (recycle_leads calm.orderly found (by rw [shape]; rfl)).bind
      intro _ freed leads
      have rest : Upholds outcome (True ∧ True ∧ known) (do
          declare name
          alloc (.named .localVariable name) span) fun _ => True := Conforming.upholds
      apply (rest loose freed leads.orderly (still.later leads.lasts)).mono
      intro _ after later
      exact calm.trans (leads.trans later)
  | none =>
      apply (checkTarget_upholds id span loose looked calm.orderly still).mono
      intro _ after leads
      exact calm.trans leads

instance (operand : Operand) [Entails known (Judged.good outcome operand)] :
    Conforming outcome known (targetOf operand) := by
  unfold targetOf
  split
  · infer_instance
  · infer_instance
  · infer_instance
  · infer_instance

end Scan

end RubySyntax
