/-
Targets of assignments.

A bare name that becomes a local variable is given back as a call. It is the
root of what was read, so no node refers to it.
-/

import RubySyntax.Proofs.Grammar.Argument
import RubySyntax.Grammar.Target

namespace RubySyntax

instance : HasHandles TargetList :=
  ⟨fun list => handlesOf list.before ++ (handlesOf list.rest ++ handlesOf list.after)⟩

theorem handlesOf_targetList (list : TargetList) :
    handlesOf list =
      handlesOf list.before ++ (handlesOf list.rest ++ handlesOf list.after) := rfl

namespace Scan

variable {strict : Prop} {base state : State} {handles : List Handle}

theorem checkConstantTarget_builds (held : Held strict base handles state) (span : Span) :
    Builds strict base handles (checkConstantTarget span) state fun _ after =>
      after.arena = state.arena :=
  Ends.get_bind (Ends.ite (fun _ => report_builds held _ _) fun _ =>
    ends_pure ⟨held, Still.refl state, rfl⟩)

theorem bareName?_looks (sound : state.Sound strict) {id : NodeId}
    (live : state.arena.Live id) :
    Looks (bareName? id) state fun name? => ∀ name, name? = some name →
      ∃ node, state.arena.get? id = some node ∧ node.shape = .functionCall name [] none := by
  refine (shapeOf_looks live).bind ?_
  rintro _ ⟨node, found, rfl⟩
  dsimp only
  split
  · next name shape =>
      have known := sound.called id node found name (by simp [shape])
      refine (spanOf_looks live).bind fun span _ => ?_
      refine (sliceOf_looks span).bind fun written _ => ?_
      refine (nameOf_looks known).bind fun spelled _ => Ends.ite (fun _ => ?_) fun _ => ?_
      · exact Looks.pure (by rintro _ ⟨⟩; exact ⟨node, found, shape⟩)
      · exact Looks.pure (by simp)
  · exact Looks.pure (by simp)

theorem targetOfNode_ends {id : NodeId} (held : Held strict base [.node id] state)
    (rooted : state.arena.Rooted id) :
    Ends (targetOfNode id) state fun result after =>
      Held strict base (handlesOf result) after ∧ Still state after := by
  have live := rooted.live
  refine (spanOf_looks live).bind fun span _ => ?_
  refine (bareName?_looks held.sound live).bind fun name? named => ?_
  cases name? with
  | some name =>
      obtain ⟨node, found, shape⟩ := named name rfl
      have plain : ¬node.shape.IsSymbol := by simp [shape, Shape.IsSymbol]
      refine (recycle_ends held (held.fresh (by simp) found plain)
        (held.sound.not_awaited found (by simp [shape])) (held.sound.not_key found plain)
        (rooted.no_parent found plain) [] (List.forall_mem_nil _) (by simp)).bind ?_
      rintro _ freed ⟨held, still, -⟩
      refine (declare_builds held name).bind ?_
      rintro _ declared ⟨held, later, -⟩
      refine (alloc_ends held (by simp) span).mono fun result after built => ?_
      exact ⟨built.1.weaken (by simp), (still.trans later).trans built.2.1⟩
  | none =>
      refine (shapeOf_looks live).bind fun shape _ => ?_
      refine Ends.when (fun reached => Held strict base [.node id] reached ∧
        Still state reached) (fun _ => ?_) (fun _ => ⟨held, Still.refl state⟩) ?_
      · exact (checkConstantTarget_builds held span).mono fun _ _ built =>
          ⟨built.1, built.2.1⟩
      rintro reached ⟨held, still⟩
      refine (sliceOf_looks span).bind fun written _ => ?_
      dsimp only
      split
      · refine (report_builds held span _).bind ?_
        rintro _ reported ⟨held, later, -⟩
        exact ends_pure ⟨held, still.trans later⟩
      · exact ends_pure ⟨held, still⟩

theorem targetOf_ends {operand : Operand} (held : Held strict base (handlesOf operand) state)
    (rooted : operand.Rooted state.arena) :
    Ends (targetOf operand) state fun result after =>
      Held strict base (handlesOf result) after ∧ Still state after := by
  have node : Builds strict base (handlesOf operand) (nodeOf operand) state fun id after =>
      after.arena.Rooted id := nodeOf_builds held (fun _ => id) rooted
  unfold targetOf
  split
  · next name =>
      refine (declare_builds held name).bind ?_
      rintro _ declared ⟨held, still, -⟩
      exact (alloc_ends held (by simp) _).mono fun _ _ built =>
        ⟨built.1.weaken (by simp), still.trans built.2.1⟩
  · refine node.bind ?_
    rintro id reached ⟨held, still, -⟩
    refine (checkConstantTarget_builds held _).bind ?_
    rintro _ checked ⟨held, later, -⟩
    exact ends_pure ⟨held.weaken (by simp), still.trans later⟩
  · exact node.mono fun _ _ built => ⟨built.1.weaken (by simp), built.2.1⟩
  · refine node.bind ?_
    rintro id reached ⟨held, still, rooted⟩
    exact (targetOfNode_ends (held.weaken (by simp)) rooted).mono fun _ _ made =>
      ⟨made.1, still.trans made.2⟩

theorem isAssignable_looks (held : Held strict base handles state) {operand : Operand}
    (mine : ∀ handle ∈ handlesOf operand, handle ∈ handles) :
    Looks (isAssignable operand) state fun _ => True := by
  cases operand with
  | identifier => exact Looks.pure trivial
  | constant => exact Looks.pure trivial
  | bareCall span callee => cases callee <;> exact Looks.pure trivial
  | fullCall => exact Looks.pure trivial
  | node id =>
      exact (shapeOf_looks (held.live (mine _ List.mem_cons_self))).bind fun _ _ =>
        Looks.pure trivial

end Scan

namespace TargetList

theorem mem_handlesOf_push {list : TargetList} {target : NodeId} {handle : Handle}
    (member : handle ∈ handlesOf (list.push target)) :
    handle ∈ handlesOf list ∨ handle = .node target := by
  unfold push at member
  split at member
  all_goals
    simp only [handlesOf_targetList, handlesOf_append, handlesOf_cons, handlesOf_node,
      handlesOf_nil, List.mem_append, List.mem_singleton, List.not_mem_nil,
      or_false] at member ⊢
    tauto

end TargetList

namespace Parse

variable {tables : Tables} {limit : Nat} {base state : State} {handles : List Handle}

theorem targetSplat_ends (calls : Meets tables limit)
    (held : Held tables.stoppable base handles state) (ahead : state.AtToken)
    (enough : 8 * state.measure ≤ limit) {list : TargetList}
    (mine : ∀ handle ∈ handlesOf list, handle ∈ handles) :
    Extends tables base handles (targetSplat list) state fun _ after => state.Past after := by
  obtain ⟨token, seen, more⟩ := ahead
  refine (take_ends held.sound seen more).bind held ?_
  rintro star taken held - ⟨-, less, -⟩
  refine (peekKind_ends calls held.sound (by omega)).bind held ?_
  rintro kind peeked held made -
  have shorter := made.keeps.onward
  refine Ends.value_or_made (fun target reached =>
    Held tables.stoppable base (handlesOf target ++ handles) reached ∧
      state.Past reached) (fun _ => ?_) (fun _ => ?_) ?_
  · exact ⟨held.weaken (by simp +contextual), by omega⟩
  · refine ((calls.target peeked held.sound (by omega)).extends held).mono ?_
    rintro target reached ⟨held, le, -⟩
    exact ⟨held.weaken (by simp +contextual), by omega⟩
  · rintro target reached ⟨held, less⟩
    refine Ends.look_bind (Scan.spanOf?_looks fun id same => held.live (by simp [same])) ?_
    intro span _
    refine Ends.lift_bind (Scan.alloc_ends held (by simp +contextual) _) ?_
    rintro splat stored ⟨held, still, -⟩
    have calm := still.calm
    refine Ends.ite (fun _ => ?_) fun _ => ?_
    · refine Ends.lift_bind (Scan.unexpected_builds held star none) ?_
      rintro _ reported ⟨held, quiet, -⟩
      have silent := quiet.calm
      refine ends_pure ⟨held.weaken fun handle member => ?_, by omega, by omega⟩
      have old := (List.mem_append.mp member).elim (mine handle) id
      simp [old]
    · refine ends_pure ⟨held.weaken fun handle member => ?_, by omega, by omega⟩
      simp only [handlesOf_targetList, List.mem_append] at mine member ⊢
      rcases member with (before | rest | after) | old
      · exact .inr (.inr (mine handle (.inl before)))
      · exact .inl (by simpa using rest)
      · exact .inr (.inr (mine handle (.inr (.inr after))))
      · exact .inr (.inr old)

theorem targetItem?_ends (calls : Meets tables limit)
    (held : Held tables.stoppable base handles state) (enough : 8 * state.measure + 2 < limit)
    {list : TargetList} (mine : ∀ handle ∈ handlesOf list, handle ∈ handles) :
    Extends tables base handles (targetItem? list) state fun _ after =>
      state.Sees (.punct .splatStar) → state.Past after := by
  refine (peekKind_ends calls held.sound (by omega)).bind held ?_
  rintro _ peeked held made ⟨token, seen, rfl⟩
  have shorter := made.keeps.onward
  have begins : state.Sees (.punct .splatStar) →
      state.Past peeked ∨ token.kind = .punct .splatStar := by
    rintro ⟨first, ahead, kind⟩
    rcases made.keeps.progress first ahead with past | same
    · exact .inl past
    · rw [seen] at same
      cases same
      exact .inr kind
  have own : ∀ handle ∈ handlesOf list, handle ∈ handlesOf token.kind ++ handles :=
    fun handle member => List.mem_append_right _ (mine handle member)
  refine Ends.ite (fun ending => ?_) fun _ => Ends.ite (fun star => ?_) fun plain => ?_
  · refine ends_pure ⟨held.weaken (by simp +contextual), shorter, fun sees => ?_⟩
    refine (begins sees).resolve_right fun kind => ?_
    rw [kind] at ending
    cases ending
  · have more : token.kind ≠ .endOfInput := by
      intro ended
      rw [ended] at star
      cases star
    refine Ends.bind (targetSplat_ends calls held ⟨token, seen, more⟩ (by omega) own) ?_
    rintro list after ⟨held, le, past⟩
    exact ends_pure ⟨held.weaken (by simp +contextual [or_imp]), by omega, fun _ => by omega⟩
  · refine (calls.target peeked held.sound (by omega)).bind held ?_
    rintro target after held made -
    have last := made.keeps.onward
    refine ends_pure ⟨held.weaken fun handle member => ?_, by omega, fun sees => ?_⟩
    · rw [handlesOf_some] at member
      rcases List.mem_append.mp member with new | old
      · rcases TargetList.mem_handlesOf_push new with before | rfl
        · exact List.mem_append_right _ (own handle before)
        · simp
      · simp [old]
    · rcases begins sees with past | kind
      · omega
      · exact absurd (by simp [kind]) plain

/-- A list of targets starts at a splat, or goes on after a comma. -/
theorem targetTurn_ends (calls : Meets tables limit) {start : State} (onward : start.Onward state)
    {list : TargetList} {starting : Bool}
    (held : Held tables.stoppable base (handlesOf list ++ handles) state)
    (begins : starting = true → state.Sees (.punct .splatStar))
    (enough : 8 * state.measure + 2 < limit) :
    Ends tables (targetTurn (list, starting)) state (Turned
      (fun next after => next.2 = false ∧
        Held tables.stoppable base (handlesOf next.1 ++ handles) after)
      (fun list after => Held tables.stoppable base (handlesOf list ++ handles) after ∧
        start.Onward after) state) := by
  unfold targetTurn
  refine Ends.value_or_step (fun continues reached =>
    Held tables.stoppable base (handlesOf list ++ handles) reached ∧ state.Onward reached ∧
      (continues = true → state.Past reached ∨ reached.Sees (.punct .splatStar)))
    (fun first => ?_) (fun _ => ?_) ?_
  · exact ⟨held, .refl _, fun _ => .inr (begins first)⟩
  · refine ((accept_ends calls held.sound (by omega) (by simp)).extends held).mono ?_
    rintro found reached ⟨held, later, past⟩
    exact ⟨held, later, fun again => .inl (past again)⟩
  rintro continues reached ⟨held, later, progress⟩
  refine Ends.ite (fun _ => ends_pure ⟨held, by omega⟩) fun again => ?_
  refine Ends.bind (targetItem?_ends calls held (by omega) (by simp +contextual)) ?_
  rintro list? read ⟨held, last, splat⟩
  cases list? with
  | none => exact ends_pure ⟨held.weaken (by simp +contextual), by omega⟩
  | some list =>
      refine ends_pure ⟨⟨rfl, held.weaken (by simp +contextual [or_imp])⟩, ?_⟩
      rcases progress (by simpa using again) with past | sees
      · omega
      · have past := splat sees
        omega

theorem targetsRest_ends (calls : Meets tables limit)
    (held : Held tables.stoppable base handles state) (enough : 8 * state.measure + 2 < limit)
    {read : List NodeId} (mine : ∀ id ∈ read, .node id ∈ handles)
    (begins : read = [] → state.Sees (.punct .splatStar)) (start : Span) :
    Extends tables base handles (targetsRest read start) state fun id after =>
      after.arena.Rooted id := by
  refine Ends.bind (loop_ends (fun progress reached =>
    Held tables.stoppable base (handlesOf progress.1 ++ handles) reached ∧
      (progress.2 = true → reached.Sees (.punct .splatStar))) held.sound
    ⟨held.weaken ?_, fun empty => begins (by simpa using empty)⟩ ?_ :
    Ends tables _ state fun list reached =>
      Held tables.stoppable base (handlesOf list ++ handles) reached ∧ state.Onward reached) ?_
  · simpa [handlesOf_targetList, or_imp, forall_and] using mine
  · rintro ⟨list, starting⟩ current ⟨held, begins⟩ onward
    refine (targetTurn_ends calls onward held begins (by omega)).mono ?_
    rintro (next | list) after turned
    · exact ⟨⟨turned.1.2, by simp [turned.1.1]⟩, turned.2⟩
    · exact turned
  · rintro list reached ⟨held, onward⟩
    refine Ends.spanSince_bind fun span => ?_
    refine (extends_lift (Scan.alloc_ends held ?_ _)).since onward (by simp +contextual)
      fun _ _ _ rooted => rooted
    simp +contextual [handlesOf_targetList, or_imp]

theorem nestedTargets_ends (calls : Meets tables limit) (sound : state.Sound tables.stoppable)
    (enough : 8 * state.measure + 2 < limit) (opening : Span) :
    Makes tables (nestedTargets opening) state fun id after => after.arena.Rooted id := by
  refine Ends.bind (peekKind_ends calls sound (by omega)) ?_
  rintro kind peeked ⟨held, sees⟩
  have shorter := held.keeps.onward
  refine Ends.ite (fun splat => ?_) fun _ => ?_
  · exact (targetsRest_ends calls held (by omega) (by simp) (fun _ => splat ▸ sees)
      opening).makes
      fun _ _ _ rooted => rooted
  · refine (calls.target peeked held.sound (by omega)).bind held ?_
    rintro first reached held made -
    have later := made.keeps.onward
    exact (targetsRest_ends calls held (by omega) (by simp) (by simp) opening).makes
      fun _ _ _ rooted => rooted

theorem target_ends (calls : Meets tables limit) (sound : state.Sound tables.stoppable)
    (enough : 8 * state.measure + 2 ≤ limit) :
    Makes tables target state fun _ _ => True := by
  refine Ends.bind (peekToken_ends calls sound (by omega)) ?_
  rintro token peeked ⟨held, seen, -⟩
  have shorter := held.keeps.onward
  refine Ends.ite (fun paren => ?_) fun _ => ?_
  · have more : token.kind ≠ .endOfInput := by
      intro ended
      rw [ended] at paren
      cases paren
    refine (skip_ends held.sound ⟨token, seen, more⟩).bind held ?_
    rintro _ skipped held - ⟨less, -⟩
    refine Ends.bind (deeper_ends _ held (fun _ after => skipped.Onward after)
      (fun _ _ _ onward => onward) ?_) ?_
    · intro deep held still _
      have calm := still.calm
      refine ((nestedTargets_ends calls held.sound (by omega) token.span).extends held).mono ?_
      rintro targets after ⟨held, le, -⟩
      exact ⟨held, by omega⟩
    rintro targets reached ⟨held, le⟩
    refine (expect_ends calls held.sound (by omega) (by simp)).bind held ?_
    rintro close closed held - -
    refine Ends.lift_bind (Scan.widen_ends held (held.live (by simp)) close) ?_
    rintro _ after ⟨held, -⟩
    exact makes_pure (held.weaken (by simp)) trivial
  · refine (calls.chain peeked held.sound (by omega)).bind held ?_
    rintro operand reached held - read
    refine (ends_lift (Scan.targetOf_ends (held.weaken (by simp +contextual)) read.rooted)).mono
      fun _ _ made => ⟨made.1, trivial⟩

end Parse

end RubySyntax
