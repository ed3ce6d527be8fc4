/-
Statements: modifiers, assignments of several values, and lists of statements.
-/

import RubySyntax.Proofs.Grammar.Definition
import RubySyntax.Grammar.Statement

namespace RubySyntax

namespace Parse

variable {tables : Tables} {limit : Nat} {base state : State} {handles : List Handle}

/-! ### Assignments of several values -/

theorem rescueShape_ends (held : Held tables.stoppable base handles state)
    {inner value : NodeId} (mine : .node inner ∈ handles) (given : .node value ∈ handles) :
    Extends tables base handles (rescueShape inner value) state fun _ _ => True := by
  refine Ends.look_bind (Scan.spanOf_looks (held.live given)) fun span _ => ?_
  refine Ends.lift_bind (Scan.alloc_ends held (by simp [given]) span) ?_
  rintro clause stored ⟨held, still, -⟩
  refine ends_pure ⟨held.weaken ?_, still.onward, trivial⟩
  simp [handlesOf, mine]

theorem valueArray_ends (held : Held tables.stoppable base handles state)
    {items : List NodeId} (mine : ∀ id ∈ items, .node id ∈ handles) :
    Extends tables base handles (valueArray items) state fun _ _ => True := by
  refine Ends.look_bind (Scan.spanOfAll_looks fun id member => held.live (mine id member)) ?_
  intro span _
  exact (extends_lift (Scan.alloc_ends held (by simpa using mine) span)).mono
    fun _ _ made => ⟨made.1, made.2.1, trivial⟩

theorem moreValues_ends (calls : Meets tables limit) (sound : state.Sound tables.stoppable)
    (enough : 8 * state.measure < limit) :
    Makes tables moreValues state fun _ _ => True := by
  refine Ends.bind (accept_ends calls sound enough (by simp)) ?_
  rintro found accepted ⟨held, less⟩
  refine Ends.ite (fun yes => ?_) fun _ => makes_pure held.forget trivial
  have less := less yes
  exact ((commaList_ends calls held.sound (by omega) (fun _ => listItem_ends calls)
    false).extends held).makes fun _ _ _ _ => trivial

theorem firstValue_ends (calls : Meets tables limit) (sound : state.Sound tables.stoppable)
    (enough : 8 * state.measure + 5 < limit) :
    Makes tables firstValue state fun _ _ => True := by
  refine Ends.bind (peekKind_ends calls sound (by omega)) ?_
  rintro _ peeked ⟨held, token, seen, rfl⟩
  have shorter := held.keeps.onward
  refine Ends.ite (fun star => ?_) fun _ => ?_
  · exact ((splatItem_ends calls held.sound ⟨token, seen, by simp [star]⟩
      (by omega)).extends held).makes fun _ _ _ _ => trivial
  · refine (calls.argument .accepted peeked held.sound (by omega)).bind held ?_
    rintro operand read held made ⟨rooted, progress⟩
    have later := made.keeps.onward
    refine Ends.bind (finishCommand_ends calls held (by simp +contextual) rooted (by omega)
      (fun takes => ?_) .accepted true) ?_
    · have less := progress takes
      omega
    rintro node finished ⟨held, -⟩
    refine Ends.lift_bind (Scan.requireValue_builds held (held.live (by simp))) ?_
    rintro _ required ⟨held, -⟩
    exact makes_pure (held.weaken (by simp)) trivial

theorem values_ends (calls : Meets tables limit) (sound : state.Sound tables.stoppable)
    (enough : 8 * state.measure + 5 < limit) :
    Makes tables values state fun _ _ => True := by
  refine Ends.bind (firstValue_ends calls sound enough) ?_
  rintro first read ⟨held, -⟩
  have shorter := held.keeps.onward
  have rest {reached : State} (held : Held tables.stoppable state (handlesOf first) reached)
      (le : state.Onward reached) :
      Ends tables (do valueArray (first :: (← moreValues))) reached fun id after =>
        Held tables.stoppable state (handlesOf id) after ∧ True := by
    refine (moreValues_ends calls held.sound (by omega)).bind held ?_
    rintro more listed held - -
    exact (valueArray_ends held (by simp +contextual)).makes fun _ _ _ _ => trivial
  refine Ends.look_bind (Scan.shapeOf_looks (held.live (by simp))) fun shape _ => ?_
  dsimp only
  split
  · exact rest held shorter
  · refine (peekKind_ends calls held.sound (by omega)).bind held ?_
    rintro kind peeked held made -
    have later := made.keeps.onward
    refine Ends.ite (fun _ => makes_pure (held.weaken (by simp)) trivial) fun _ => ?_
    exact rest (held.weaken (by simp)) (by omega)

theorem multipleAssign_ends (calls : Meets tables limit)
    (held : Held tables.stoppable base handles state) (enough : 8 * state.measure + 5 < limit)
    {targets : NodeId} (mine : .node targets ∈ handles) :
    Extends tables base handles (multipleAssign targets) state fun id after =>
      after.arena.Rooted id := by
  refine (expect_ends calls held.sound (by omega) (by simp)).bind held ?_
  rintro _ expected held made -
  have shorter := made.keeps.onward
  refine (values_ends calls held.sound (by omega)).bind held ?_
  rintro assigned read held made -
  have later := made.keeps.onward
  refine Ends.look_bind (Scan.spanOfBoth_looks (held.live (by simp [mine]))
    (held.live (by simp))) fun span _ => ?_
  exact (extends_lift (Scan.alloc_ends held (by simp [mine]) span)).since (by omega)
    (by simp +contextual) fun _ _ _ rooted => rooted

theorem assignMore_ends (calls : Meets tables limit) {node : NodeId}
    (held : Held tables.stoppable base [.node node] state) (ahead : state.AtToken)
    (enough : 8 * state.measure ≤ limit) (rooted : state.arena.Rooted node)
    {stored : Node} (found : state.arena.get? node = some stored) {assigned value : NodeId}
    (shape : stored.shape = .binary .assign assigned value) :
    Ends tables (assignMore node assigned value) state fun id after =>
      Held tables.stoppable base (handlesOf id) after ∧ after.arena.Rooted id := by
  have plain : ¬stored.shape.IsSymbol := by
    rw [shape]
    nofun
  have filled : stored.shape ≠ .text .string [] := by
    rw [shape]
    nofun
  have own := Owned.of_rooted held.sound rooted found plain filled
  have linked : ∀ child ∈ [assigned, value], state.arena.Child node child :=
    fun child member => ⟨stored, found, by rw [shape]; exact member⟩
  have family := held.child (held.fresh (by simp) found plain) linked
  refine (skip_ends family.sound ahead).bind family ?_
  rintro _ skipped held first ⟨less, -⟩
  obtain ⟨kept, found, same⟩ := own.shape first found
  have own := own.keeps first
  refine (commaList_ends calls held.sound (by omega) (fun _ => listItem_ends calls)
    false).bind held ?_
  rintro items listed held second -
  have apart : node ∉ value :: items := by
    rintro member
    rcases List.mem_cons.mp member with rfl | member
    · exact rooted.no_parent ‹_› plain node (linked node (by simp))
    · exact own.not_key second.start
        ((second.valid (.node node) (node_mem_list.mpr member)).2 own.live)
  obtain ⟨last, found, again⟩ := own.shape second found
  have own := own.keeps second
  dsimp only
  refine Ends.look_bind (Scan.spanOfAll_looks fun id member => held.live ?_) fun span _ => ?_
  · rcases List.mem_cons.mp member with rfl | member
    · simp
    · simp [member]
  refine Ends.lift_bind (Scan.alloc_stores held (by simp +contextual) span) ?_
  rintro array placed ⟨held, -, -, storing⟩
  have own := own.store storing apart
  have different : array ≠ node := by
    rintro rfl
    exact storing.not_live ⟨last, found⟩
  obtain ⟨_, -, puts⟩ := storing.puts
  have found := (puts.apart different.symm).trans found
  have binary : last.shape = .binary .assign assigned value := (again.trans same).trans shape
  have widened : Scan.Ends (Scan.setShape node (.binary .assign assigned array)) placed
      fun _ after => Held tables.stoppable base [.node node] after ∧
        after.arena.Rooted node := by
    refine Scan.modifyNode_ends found fun arena puts free => ?_
    have reshaped := held.reshape_root (by simp) found (by rw [binary]; rintro ⟨⟩)
      (by simp [binary]) own.rooted ?_ (by simp) puts (free held.sound.store.free)
    · exact ⟨reshaped.1.weaken (by simp), reshaped.2⟩
    · intro child member
      rcases List.mem_cons.mp member with rfl | member
      · exact .inl (by rw [binary]; exact List.mem_cons_self)
      · rw [List.mem_singleton.mp member]
        exact .inr ⟨by simp, different⟩
  refine Ends.lift_bind widened ?_
  rintro _ shaped ⟨held, rooted⟩
  refine Ends.lift_bind (Scan.widen_ends held rooted.live span) ?_
  rintro _ widened ⟨held, -, roots⟩
  exact ends_pure ⟨held.weaken (by simp), roots node rooted⟩

theorem targetsAfter_ends (calls : Meets tables limit) {node : NodeId}
    (held : Held tables.stoppable base [.node node] state)
    (enough : 8 * state.measure + 5 < limit) (rooted : state.arena.Rooted node)
    (start : Span) :
    Ends tables (targetsAfter node start) state fun id after =>
      Held tables.stoppable base (handlesOf id) after ∧ after.arena.Rooted id := by
  refine Ends.lift_bind (Scan.targetOfNode_ends held rooted) ?_
  rintro first made ⟨held, still⟩
  have calm := still.calm
  refine Ends.bind (targetsRest_ends calls held (by omega) (by simp) (by simp) start) ?_
  rintro targets listed ⟨held, shorter, rooted⟩
  refine (peekKind_ends calls held.sound (by omega)).bind held ?_
  rintro kind peeked held made -
  have later := made.keeps.onward
  refine Ends.ite (fun _ => ?_) fun _ => ?_
  · exact makes_pure (held.weaken (by simp)) (made.rooted rooted)
  · exact (multipleAssign_ends calls held (by omega) (by simp)).makes fun _ _ _ rooted => rooted

theorem expressionStatement_ends (calls : Meets tables limit)
    (sound : state.Sound tables.stoppable) (enough : 8 * state.measure + 6 < limit) :
    Makes tables expressionStatement state fun id after => after.arena.Rooted id := by
  refine Ends.bind (peekToken_ends calls sound (by omega)) ?_
  rintro token started ⟨held, -⟩
  have shorter := held.keeps.onward
  refine (expression_ends calls held.sound (by omega) .accepted).bind held ?_
  rintro node read held made rooted
  have later := made.keeps.onward
  refine (peekKind_ends calls held.sound (by omega)).bind held ?_
  rintro _ peeked held made ⟨next, seen, rfl⟩
  have further := made.keeps.onward
  have rooted := made.rooted rooted
  have own : Held tables.stoppable state [.node node] peeked := held.weaken (by simp)
  refine Ends.look_bind (Scan.shapeOf_looks rooted.live) ?_
  rintro _ ⟨stored, found, rfl⟩
  have done : Ends tables (pure node) peeked fun id after =>
      Held tables.stoppable state (handlesOf id) after ∧ after.arena.Rooted id :=
    makes_pure own rooted
  split
  · next assigned value shape =>
      refine Ends.ite (fun comma => ?_) fun _ => done
      exact assignMore_ends calls own ⟨next, seen, by simp [comma]⟩ (by omega) rooted found
        shape
  · refine Ends.ite (fun _ => targetsAfter_ends calls own (by omega) rooted token.span)
      fun _ => Ends.ite (fun _ => ?_) fun _ => done
    exact (multipleAssign_ends calls own (by omega) (by simp)).makes fun _ _ _ rooted => rooted
  · exact Ends.ite (fun _ => targetsAfter_ends calls own (by omega) rooted token.span)
      fun _ => done

/-! ### Statements with modifiers -/

theorem plainStatement_ends (calls : Meets tables limit) (sound : state.Sound tables.stoppable)
    (enough : 8 * state.measure + 6 < limit) {first : Token}
    (seen : state.lookahead = some first) :
    Makes tables (plainStatement first) state fun id after => after.arena.Rooted id := by
  unfold plainStatement
  split
  case h_1 kind =>
    exact aliasStatement_ends calls sound ⟨first, seen, by simp [kind]⟩ (by omega)
  case h_2 kind =>
    exact undefStatement_ends calls sound ⟨first, seen, by simp [kind]⟩ (by omega)
  case h_3 kind =>
    exact atStart_ends calls sound ⟨first, seen, by simp [kind]⟩ (by omega)
  case h_4 kind =>
    exact atExit_ends calls sound ⟨first, seen, by simp [kind]⟩ (by omega)
  case h_5 kind =>
    refine Ends.bind (targetsRest_ends calls (Held.refl sound) (by omega) (by simp)
      (fun _ => ⟨first, seen, kind⟩) _) ?_
    rintro targets listed ⟨held, shorter, -⟩
    exact (multipleAssign_ends calls held (by omega) (by simp)).makes fun _ _ _ rooted => rooted
  case h_6 => exact expressionStatement_ends calls sound enough

theorem loopModifier_ends (calls : Meets tables limit)
    (held : Held tables.stoppable base handles state) (ahead : state.AtToken)
    (enough : 8 * state.measure ≤ limit) {node : NodeId} (mine : .node node ∈ handles)
    (form : LoopForm) (first : Token) :
    Extends tables base handles (loopModifier form first node) state fun _ after =>
      state.Past after := by
  refine (skip_ends held.sound ahead).bind held ?_
  rintro _ skipped held - ⟨less, -⟩
  refine (conditionValue_ends calls held.sound (by omega)).bind held ?_
  rintro condition tested held made -
  have later := made.keeps.onward
  refine Ends.bind (?_ : Ends tables (runsBodyFirst first node) tested fun _ reached =>
    reached = tested) ?_
  · refine Ends.look_bind (Scan.shapeOf_looks (held.live (by simp [mine]))) fun shape _ => ?_
    split <;> exact ends_pure rfl
  rintro bodyFirst _ rfl
  exact ends_pure ⟨held.weaken (by simp +contextual [or_imp, mine]), by omega, by omega⟩

theorem modifier?_ends (calls : Meets tables limit)
    (held : Held tables.stoppable base handles state) (enough : 8 * state.measure < limit)
    {node : NodeId} (mine : .node node ∈ handles) (first : Token) :
    Extends tables base handles (modifier? first node) state fun shape? after =>
      match shape? with
      | some _ => state.Past after
      | none => ∀ id, state.arena.Rooted id → after.arena.Rooted id := by
  refine (peekKind_ends calls held.sound enough).bind held ?_
  rintro _ peeked held made ⟨token, seen, rfl⟩
  have shorter := made.keeps.onward
  split
  case h_1 kind | h_2 kind =>
    refine (skip_ends held.sound ⟨token, seen, by simp [kind]⟩).bind held ?_
    rintro _ skipped held - ⟨less, -⟩
    refine (conditionValue_ends calls held.sound (by omega)).bind held ?_
    rintro condition tested held made -
    have later := made.keeps.onward
    exact ends_pure ⟨held.weaken (by simp +contextual [or_imp, mine]), by omega, by omega⟩
  case h_3 kind | h_4 kind =>
    refine Ends.bind (loopModifier_ends calls held ⟨token, seen, by simp [kind]⟩
      (by omega) (by simp [mine]) _ first) ?_
    rintro shape tested ⟨held, later, less⟩
    exact ends_pure ⟨held.weaken (by simp +contextual [or_imp]), by omega, by omega⟩
  case h_5 kind =>
    refine (skip_ends held.sound ⟨token, seen, by simp [kind]⟩).bind held ?_
    rintro _ skipped held - ⟨less, -⟩
    refine (expressionValue_ends calls held.sound (by omega)).bind held ?_
    rintro value read held made -
    have later := made.keeps.onward
    refine Ends.bind (rescueShape_ends held (by simp [mine]) (by simp)) ?_
    rintro shape stored ⟨held, fewer, -⟩
    exact ends_pure ⟨held.weaken (by simp +contextual [or_imp]), by omega, by omega⟩
  case h_6 => exact ends_pure ⟨held.weaken (by simp +contextual), by omega,
    fun _ => made.rooted⟩

theorem modifierTurn_ends (calls : Meets tables limit) {node : NodeId}
    (held : Held tables.stoppable base (handlesOf node) state)
    (rooted : state.arena.Rooted node) (enough : 8 * state.measure + 6 < limit)
    (first : Token) :
    Ends tables (modifierTurn first node) state (Turned
      (fun node after => Held tables.stoppable base (handlesOf node) after ∧
        after.arena.Rooted node)
      (fun node after => Held tables.stoppable base (handlesOf node) after ∧
        after.arena.Rooted node) state) := by
  refine (peekToken_ends calls held.sound (by omega)).bind held ?_
  rintro token peeked held made -
  have shorter := made.keeps.onward
  refine Ends.bind (modifier?_ends calls held (by omega) (by simp) first) ?_
  rintro shape? modified ⟨held, later, post⟩
  cases shape? with
  | none => exact ends_pure ⟨held.weaken (by simp), post node (made.rooted rooted)⟩
  | some shape =>
      refine Ends.look_bind (Scan.spanOf_looks (held.live (by simp))) fun span _ => ?_
      refine Ends.spanSince_bind fun whole => ?_
      refine Ends.lift_bind (Scan.alloc_ends held (by simp +contextual) _) ?_
      rintro id stored ⟨held, still, rooted⟩
      have calm := still.calm
      exact ends_pure ⟨⟨held.weaken (by simp), rooted⟩, by omega⟩

theorem modifiers_ends (calls : Meets tables limit) {plain : NodeId}
    (held : Held tables.stoppable base (handlesOf plain) state)
    (rooted : state.arena.Rooted plain) (enough : 8 * state.measure + 6 < limit)
    (first : Token) :
    Ends tables (repeatUntil plain (modifierTurn first)) state fun id after =>
      Held tables.stoppable base (handlesOf id) after ∧ after.arena.Rooted id :=
  loop_ends (fun node current => Held tables.stoppable base (handlesOf node) current ∧
    current.arena.Rooted node) held.sound ⟨held, rooted⟩ fun _ _ made onward =>
      modifierTurn_ends calls made.1 made.2 (by omega) first

theorem statement_ends (calls : Meets tables limit) (sound : state.Sound tables.stoppable)
    (enough : 8 * state.measure + 6 < limit) :
    Makes tables statement state fun id after => after.arena.Rooted id := by
  refine Ends.bind (peekToken_ends calls sound (by omega)) ?_
  rintro first started ⟨held, seen, -⟩
  have shorter := held.keeps.onward
  refine (plainStatement_ends calls held.sound (by omega) seen).bind held ?_
  rintro plain read held made rooted
  have later := made.keeps.onward
  refine Ends.lift_bind (Scan.takeQuotedKey?_builds held) ?_
  rintro label? taken ⟨held, still, same, -⟩
  have calm := still.calm
  cases label? with
  | none => exact modifiers_ends calls (held.weaken (by simp)) (same ▸ rooted) (by omega) first
  | some label =>
      refine Ends.look_bind (Scan.spanOf_looks (held.live (by simp))) fun span _ => ?_
      refine Ends.lift_bind (Scan.report_builds held span _) ?_
      rintro _ reported ⟨held, quiet, again⟩
      have silent := quiet.calm
      exact modifiers_ends calls (held.weaken (by simp)) (again ▸ same ▸ rooted) (by omega) first

/-! ### Lists of statements -/

theorem skipToStatementEnd_ends (calls : Meets tables limit)
    (sound : state.Sound tables.stoppable) (enough : 8 * state.measure < limit) :
    Makes tables skipToStatementEnd state fun _ after =>
      ∀ token, state.lookahead = some token →
        (!token.kind.isTerminator && !token.kind.endsStatements) = true →
        state.Past after :=
  (skipWhile_ends calls sound enough (by decide)).mono fun _ _ _ done => done.1

/-- A statement that takes no token is followed by the rest of its line, which
has one. -/
theorem statementTurn_ends (calls : Meets tables limit) {items : Array NodeId}
    (held : Held tables.stoppable base (handlesOf items) state)
    (rooted : ∀ id ∈ items.toList, state.arena.Rooted id)
    (enough : 8 * state.measure + 6 < limit) :
    Ends tables (statementTurn items) state (Turned
      (fun items after => Held tables.stoppable base (handlesOf items) after ∧
        ∀ id ∈ items.toList, after.arena.Rooted id)
      (fun items after => Held tables.stoppable base (handlesOf items) after ∧
        ∀ id ∈ items.toList, after.arena.Rooted id) state) := by
  refine (skipTerminators_ends calls held.sound (by omega)).bind held ?_
  rintro _ skipped held made ⟨first, ahead, started⟩
  have before := made.keeps.onward
  have rooted := fun id member => made.rooted (rooted id member)
  refine Ends.bind (peekKind_again ahead) ?_
  rintro _ skipped ⟨rfl, rfl⟩
  refine Ends.ite (fun _ => ends_pure ⟨held.weaken (by simp +contextual), rooted⟩) fun goes => ?_
  refine (statement_ends calls held.sound (by omega)).bind held ?_
  rintro id read held own newRooted
  have later := own.keeps.onward
  have rooted := fun id member => own.rooted (rooted id member)
  refine (peekToken_ends calls held.sound (by omega)).bind held ?_
  rintro token peeked held made ⟨seen, -⟩
  have further := made.keeps.onward
  have rooted : ∀ other ∈ (items.push id).toList, peeked.arena.Rooted other := by
    intro other member
    rw [Array.toList_push, List.mem_append, List.mem_singleton] at member
    rcases member with old | rfl
    · exact made.rooted (rooted other old)
    · exact made.rooted newRooted
  dsimp only
  refine Ends.ite (fun stuck => ?_) fun ended => ?_
  · refine Ends.lift_bind (Scan.unexpected_builds held token none) ?_
    rintro _ reported ⟨held, still, same⟩
    have calm := still.calm
    refine (skipToStatementEnd_ends calls held.sound (by omega)).bind held ?_
    rintro _ last held made progress
    have past := progress token (still.lookahead.trans seen) stuck
    refine ends_pure ⟨⟨held.weaken (by simp +contextual [or_imp]), fun other member => ?_⟩,
      by omega⟩
    exact made.rooted (same ▸ rooted other member)
  · have past : skipped.Past peeked := by
      rcases (own.trans made).keeps.progress first ahead with past | kept
      · exact past
      · rw [seen] at kept
        cases kept
        rw [started] at ended
        simp [goes] at ended
    exact ends_pure ⟨⟨held.weaken (by simp +contextual [or_imp]), rooted⟩, by omega⟩

/-- The nodes of a list are roots of what was read. -/
theorem statementList_ends (calls : Meets tables limit) (sound : state.Sound tables.stoppable)
    (enough : 8 * state.measure + 6 < limit) :
    Makes tables statementList state fun items after =>
      ∀ id ∈ items, after.arena.Rooted id :=
  Ends.bind (loop_ends (fun (items : Array NodeId) current =>
    Held tables.stoppable state (handlesOf items) current ∧
      ∀ id ∈ items.toList, current.arena.Rooted id) sound ⟨Held.refl sound, nofun⟩
    fun _ _ made onward => statementTurn_ends calls made.1 made.2 (by omega))
    fun _ _ done => makes_pure done.1 done.2

theorem spanOfEnds_looks {items : List NodeId} (live : ∀ id ∈ items, state.arena.Live id) :
    Ends tables (spanOfEnds items) state fun _ after => after = state := by
  unfold spanOfEnds
  split
  · next first last atHead atLast =>
      exact (ends_lift (Scan.spanOfBoth_looks (live first (List.mem_of_mem_head? atHead))
        (live last (List.mem_of_getLast? atLast)))).mono fun _ _ looked => looked.1
  · exact ends_pure rfl

theorem statements_ends (calls : Meets tables limit) (sound : state.Sound tables.stoppable)
    (enough : 8 * state.measure + 7 ≤ limit) :
    Makes tables statements state RootedIfAny := by
  refine Ends.bind (statementList_ends calls sound (by omega)) ?_
  rintro items read ⟨held, rooted⟩
  refine Ends.bind (spanOfEnds_looks fun id member => (rooted id member).live) ?_
  rintro span _ rfl
  refine (sequence_ends held (by simp) span).mono ?_
  rintro result after ⟨held, -, roots⟩
  exact ⟨held.weaken (by simp +contextual), roots rooted⟩

end Parse

end RubySyntax
