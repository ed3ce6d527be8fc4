/-
From operands to nodes.
-/

import RubySyntax.Proofs.Grammar.Basic
import RubySyntax.Grammar.Call

namespace RubySyntax

namespace Scan

variable {strict : Prop} {base state : State} {handles : List Handle}

theorem operandSpan_looks (held : Held strict base handles state) {operand : Operand}
    (mine : ∀ handle ∈ handlesOf operand, handle ∈ handles) :
    Looks (operandSpan operand) state fun _ => True := by
  cases operand with
  | node id => exact spanOf_looks (held.live (mine _ List.mem_cons_self))
  | identifier => exact Looks.pure trivial
  | constant => exact Looks.pure trivial
  | bareCall => exact Looks.pure trivial
  | fullCall => exact Looks.pure trivial

structure Made (before : State) (id : NodeId) (after : State) : Prop where
  rooted : after.arena.Rooted id
  new : ¬before.arena.Live id

theorem alloc_makes (held : Held strict base handles state) {shape : Shape NodeId}
    (mine : ∀ handle ∈ handlesOf shape, handle ∈ handles) (span : Span) :
    Builds strict base handles (alloc shape span) state (Made state) :=
  (alloc_stores held mine span).mono fun _ _ built =>
    ⟨built.1, built.2.1, built.2.2.1, built.2.2.2.not_live⟩

theorem Made.since {middle after : State} {id : NodeId} (made : Made middle id after)
    (same : middle.arena = state.arena) : Made state id after :=
  ⟨made.rooted, same ▸ made.new⟩

theorem buildCall_builds (held : Held strict base handles state) {callee : Callee}
    {arguments? : Option Arguments} (called : ∀ handle ∈ handlesOf callee, handle ∈ handles)
    (given : ∀ handle ∈ handlesOf arguments?, handle ∈ handles) (span : Span) :
    Builds strict base handles (buildCall callee arguments? span) state (Made state) := by
  have items : ∀ handle ∈ handlesOf (arguments?.getD {}), handle ∈ handles := by
    cases arguments? with
    | none => nofun
    | some list => simpa using given
  simp only [handlesOf_arguments, List.mem_append, or_imp, forall_and, forall_handlesOf_list,
    forall_handlesOf_option] at items
  cases callee with
  | function name => exact alloc_makes held (by simp_all [or_imp]) span
  | method receiver name safe => exact alloc_makes held (by simp_all [or_imp]) span
  | superMethod =>
      refine Ends.ite (fun _ => ?_) fun _ => ?_
      · exact alloc_makes held (by simp_all [or_imp]) span
      · exact alloc_makes held (by simp) span
  | yielded =>
      refine (refuseBlock_builds held fun id block => held.live (items.2 id block)).bind ?_
      rintro _ reached ⟨held, still, same⟩
      exact ((alloc_makes held (by simp_all) span).since still (by simp)).mono
        fun _ _ built => ⟨built.1, built.2.1, built.2.2.since same⟩

theorem nodeOf_makes (held : Held strict base handles state) {operand : Operand}
    (mine : ∀ handle ∈ handlesOf operand, handle ∈ handles)
    (pending : ∀ id, operand ≠ .node id) :
    Builds strict base handles (nodeOf operand) state (Made state) := by
  cases operand with
  | node id => exact absurd rfl (pending id)
  | identifier span known name =>
      refine alloc_makes held ?_ span
      cases known <;> simp_all
  | constant span owner name =>
      refine alloc_makes held ?_ span
      cases owner <;> simp_all [constantShape, Operand.ownerHandles]
  | bareCall span callee =>
      exact buildCall_builds held mine (by simp) span
  | fullCall span callee list =>
      rw [handlesOf_fullCall] at mine
      refine buildCall_builds held (fun handle member => ?_) (fun handle member => ?_) span
      · exact mine handle (List.mem_append_left _ member)
      · rw [handlesOf_some] at member
        exact mine handle (List.mem_append_right _ member)

theorem nodeOf_builds (held : Held strict base handles state) {operand : Operand}
    (mine : ∀ handle ∈ handlesOf operand, handle ∈ handles)
    (rooted : operand.Rooted state.arena) :
    Builds strict base handles (nodeOf operand) state fun id after =>
      after.arena.Rooted id := by
  by_cases node : ∃ id, operand = .node id
  · obtain ⟨id, rfl⟩ := node
    exact ends_pure ⟨held.weaken (by simpa using mine), Still.refl state, rooted id rfl⟩
  · exact (nodeOf_makes held mine (by simpa using node)).mono fun _ _ built =>
      ⟨built.1, built.2.1, built.2.2.rooted⟩

theorem calleeOf_builds (held : Held strict base handles state) {operand : Operand}
    (mine : ∀ handle ∈ handlesOf operand, handle ∈ handles) :
    Builds strict base handles (calleeOf operand) state fun _ after =>
      after.arena = state.arena := by
  have given {callee : Callee} (named : ∀ handle ∈ handlesOf callee, handle ∈ handles) :
      Builds strict base handles (pure callee) state fun _ after =>
        after.arena = state.arena := by
    refine ends_pure ⟨held.weaken fun handle member => ?_, Still.refl state, rfl⟩
    exact (List.mem_append.mp member).elim (named handle) id
  cases operand with
  | node id =>
      have live := held.live (mine _ List.mem_cons_self)
      refine (spanOf_looks live).bind fun span _ => ?_
      refine (report_builds held span _).bind ?_
      rintro _ reported ⟨held, still, same⟩
      refine (intern_builds held _).bind ?_
      rintro name interned ⟨held, later, again⟩
      refine ends_pure ⟨held.weaken ?_, still.trans later, again.trans same⟩
      simp_all
  | identifier span known name => exact given mine
  | constant span owner name =>
      cases owner <;> exact given (by simp_all [Operand.ownerHandles])
  | bareCall span callee => exact given mine
  | fullCall span callee list =>
      rw [handlesOf_fullCall] at mine
      exact given fun handle member => mine handle (List.mem_append_left _ member)

theorem callWith_builds (held : Held strict base handles state) {operand : Operand}
    {list : Arguments} (mine : ∀ handle ∈ handlesOf operand, handle ∈ handles)
    (given : ∀ handle ∈ handlesOf list, handle ∈ handles) :
    Builds strict base handles (callWith operand list) state (Made state) := by
  refine (operandSpan_looks held mine).bind fun span _ => ?_
  dsimp only
  split
  · next callee before =>
      simp only [handlesOf_fullCall, handlesOf_arguments, List.mem_append, or_imp, forall_and,
        forall_handlesOf_list, forall_handlesOf_option] at mine given
      refine buildCall_builds held mine.1 ?_ _
      simp only [handlesOf_some, handlesOf_arguments, handlesOf_append, List.mem_append, or_imp,
        forall_and, forall_handlesOf_list, forall_handlesOf_option, Option.or_eq_some_iff]
      exact ⟨⟨mine.2.1, given.1⟩, fun id => mine.2.2 id, fun id block => given.2 id block.2⟩
  · refine (calleeOf_builds held mine).bind ?_
    rintro callee reached ⟨held, still, same⟩
    refine ((buildCall_builds held (by simp +contextual) (fun handle member => ?_) _).since still
      (by simp +contextual)).mono fun _ _ built => ⟨built.1, built.2.1, built.2.2.since same⟩
    rw [handlesOf_some] at member
    exact List.mem_append_right _ (given handle member)

theorem callOf_builds (held : Held strict base handles state) {operand : Operand}
    (mine : ∀ handle ∈ handlesOf operand, handle ∈ handles)
    (takes : operand.takesBlock = true) :
    Builds strict base handles (callOf operand) state (Made state) := by
  unfold callOf
  split
  · exact callWith_builds held mine (by rintro _ ⟨⟩)
  · exact callWith_builds held mine (by rintro _ ⟨⟩)
  · refine nodeOf_makes held mine ?_
    rintro id rfl
    cases takes

/-! ### Blocks -/

theorem withBlock_spec {shape : Shape NodeId} (free : blockOf? shape = some none)
    (block : NodeId) :
    ¬shape.IsSymbol ∧ shape ≠ .text .string [] ∧
      (withBlock block shape).children = shape.children ++ [block] ∧
      (withBlock block shape).called = shape.called := by
  unfold blockOf? at free
  split at free <;> cases free <;> simp [withBlock, Shape.IsSymbol]

theorem giveBlock_builds (held : Held strict base handles state) {call block : NodeId}
    (mine : .node call ∈ handles) (given : .node block ∈ handles)
    (rooted : state.arena.Rooted call) (different : block ≠ call) :
    Builds strict base handles (giveBlock call block) state fun _ after =>
      after.arena.Rooted call := by
  refine (spanOf_looks (held.live given)).bind fun span _ => ?_
  refine (shapeOf_looks (held.live mine)).bind ?_
  rintro _ ⟨node, found, rfl⟩
  have finish {reached : State} (held : Held strict base handles reached)
      (still : Still state reached) (rooted : reached.arena.Rooted call) :
      Ends (widen call span) reached fun _ after =>
        Held strict base handles after ∧ Still state after ∧ after.arena.Rooted call :=
    (widen_ends held (held.live mine) span).mono fun _ _ built =>
      ⟨built.1, still.trans built.2.1, built.2.2 call rooted⟩
  dsimp only
  split
  · next free =>
      obtain ⟨plain, filled, children, called⟩ := withBlock_spec free block
      refine (modifyNode_ends found fun arena puts sound => ?_ : Ends (setShape call _) state
        fun _ after => Held strict base handles after ∧ Still state after ∧
          after.arena.Rooted call).bind fun _ reached built =>
        finish built.1 built.2.1 built.2.2
      have family : ∀ child ∈ (withBlock block node.shape).children,
          child ∈ node.shape.children ∨ (.node child ∈ handles ∧ child ≠ call) := by
        intro child member
        rw [children, List.mem_append, List.mem_singleton] at member
        rcases member with old | rfl
        · exact .inl old
        · exact .inr ⟨given, different⟩
      obtain ⟨changed, still⟩ := held.reshape_root mine found plain filled rooted family
        (fun name member => called ▸ member) puts (sound held.sound.store.free)
      exact ⟨changed, ⟨rfl, rfl, rfl⟩, still⟩
  · refine (report_builds held span _).bind ?_
    rintro _ reached ⟨held, still, same⟩
    exact finish held still (same ▸ rooted)
  · refine (report_builds held span _).bind ?_
    rintro _ reached ⟨held, still, same⟩
    exact finish held still (same ▸ rooted)

/-! ### Operators -/

theorem unaryCall_builds (held : Held strict base handles state) {operand : NodeId}
    (mine : .node operand ∈ handles) (name : String) (mark : Span) :
    Builds strict base handles (unaryCall operand name mark) state fun id after =>
      after.arena.Rooted id := by
  refine (intern_builds held _).bind ?_
  rintro symbol interned ⟨held, still, -⟩
  refine (spanOf_looks (held.live (by simp [mine]))).bind fun span _ => ?_
  exact (alloc_ends held (by simp [mine]) _).since still (by simp +contextual)

theorem binaryCall_builds (held : Held strict base handles state) {left right : NodeId}
    (first : .node left ∈ handles) (second : .node right ∈ handles) (name : Symbol)
    (span : Span) :
    Builds strict base handles (binaryCall left right name span) state fun id after =>
      after.arena.Rooted id :=
  alloc_ends held (by simp [first, second]) span

end Scan

end RubySyntax
