/-
Bodies with handlers, conditionals and loops.
-/

import RubySyntax.Proofs.Grammar.Target
import RubySyntax.Grammar.Control

namespace RubySyntax

namespace Parse

variable {tables : Tables} {limit : Nat} {base state : State} {handles : List Handle}

/-! ### Handlers -/

theorem rescuedClasses_ends (calls : Meets tables limit) (sound : state.Sound tables.stoppable)
    (enough : 8 * state.measure + 5 < limit) :
    Makes tables rescuedClasses state fun _ _ => True := by
  refine Ends.bind (peekKind_ends calls sound (by omega)) ?_
  rintro kind peeked ⟨held, -⟩
  have shorter := held.keeps.onward
  split
  case h_5 =>
    refine ((commaList_ends calls held.sound (by omega)
      (fun _ => listItem_ends calls) true).extends held).makes fun _ _ _ _ => trivial
  all_goals exact makes_pure held.forget trivial

theorem rescueClause_ends (calls : Meets tables limit) (sound : state.Sound tables.stoppable)
    (ahead : state.AtToken) (enough : 8 * state.measure ≤ limit) :
    Makes tables rescueClause state fun _ after => state.Past after := by
  obtain ⟨token, seen, more⟩ := ahead
  refine Ends.bind (take_ends sound seen more) ?_
  rintro word taken ⟨held, -, less, -⟩
  refine (rescuedClasses_ends calls held.sound (by omega)).bind held ?_
  rintro exceptions listed held made -
  have shorter := made.keeps.onward
  refine (accept_ends calls held.sound (by omega) (by simp)).bind held ?_
  rintro found accepted held made -
  have later := made.keeps.onward
  refine Ends.made_or_value (fun variableTarget reached =>
    Held tables.stoppable state (handlesOf variableTarget ++ handlesOf exceptions) reached ∧
      state.Past reached) (fun _ => ?_) (fun _ => ?_) ?_
  · refine ((calls.target accepted held.sound (by omega)).extends held).mono ?_
    rintro target reached ⟨held, le, -⟩
    exact ⟨held.weaken (by simp +contextual), by omega⟩
  · exact ⟨held.weaken (by simp +contextual), by omega⟩
  rintro variableTarget reached ⟨held, less⟩
  refine (skipSeparator_ends calls held.sound (by omega) .thenWord).bind held ?_
  rintro _ separated held made -
  have last := made.keeps.onward
  refine (calls.statements separated held.sound (by omega)).bind held ?_
  rintro body read held made -
  have done := made.keeps.onward
  refine Ends.spanSince_bind fun span => ?_
  exact (extends_lift (Scan.alloc_ends held (by simp +contextual [or_imp]) span)).makes
    fun _ _ le _ => by omega

theorem rescueTurn_ends (calls : Meets tables limit) {clauses : Array NodeId}
    (held : Held tables.stoppable base (handlesOf clauses) state)
    (enough : 8 * state.measure < limit) :
    Ends tables (rescueTurn clauses) state (TurnHeld tables.stoppable base state) := by
  refine (peekKind_ends calls held.sound enough).bind held ?_
  rintro _ peeked held made ⟨token, seen, rfl⟩
  have before := made.keeps.onward
  refine Ends.ite (fun word => ?_) fun _ => ends_pure (held.weaken (by simp +contextual))
  refine (rescueClause_ends calls held.sound ⟨token, seen, by simp [word]⟩
    (by omega)).bind held ?_
  rintro clause read held - past
  exact ends_pure ⟨held.weaken (by simp +contextual [or_imp]), by omega⟩

theorem rescueClauses_ends (calls : Meets tables limit) (sound : state.Sound tables.stoppable)
    (enough : 8 * state.measure < limit) :
    Makes tables rescueClauses state fun _ _ => True :=
  Ends.bind (loop_makes sound rfl fun _ _ held onward =>
    rescueTurn_ends calls held (by omega)) fun _ _ made => makes_pure made.1 trivial

theorem uselessElse_ends (held : Held tables.stoppable base handles state)
    {body otherwise : Option NodeId} (first : ∀ id, body = some id → .node id ∈ handles)
    (second : ∀ id, otherwise = some id → .node id ∈ handles)
    (firstRooted : RootedIfAny body state) (secondRooted : RootedIfAny otherwise state) :
    Extends tables base handles (uselessElse body otherwise) state RootedIfAny := by
  have mine : ∀ id ∈ body.toList ++ otherwise.toList, .node id ∈ handles := by
    simpa [or_imp, forall_and] using ⟨first, second⟩
  refine Ends.look_bind (Scan.spanOfAll_looks fun id member => held.live (mine id member)) ?_
  intro span _
  refine (sequence_ends held mine span).mono fun _ _ made =>
    ⟨made.1, made.2.1.onward, made.2.2 ?_⟩
  simp only [List.mem_append, Option.mem_toList, or_imp, forall_and]
  exact ⟨firstRooted, secondRooted⟩

theorem handledBody_ends (calls : Meets tables limit)
    (held : Held tables.stoppable base handles state) (enough : 8 * state.measure < limit)
    {body : Option NodeId} (mine : ∀ id, body = some id → .node id ∈ handles)
    (rooted : RootedIfAny body state) :
    Extends tables base handles (handledBody body) state RootedIfAny := by
  refine (rescueClauses_ends calls held.sound enough).bind held ?_
  rintro clauses read held made -
  have shorter := made.keeps.onward
  have rooted : RootedIfAny body read := fun id same => made.rooted (rooted id same)
  refine (accept?_ends calls held.sound (by omega) (by simp)).bind held ?_
  rintro word? accepted held made less
  have later := made.keeps.onward
  have rooted : RootedIfAny body accepted := fun id same => made.rooted (rooted id same)
  refine Ends.step_or_value (fun otherwise reached =>
    Held tables.stoppable base (handlesOf otherwise ++ (handlesOf clauses ++ handles)) reached ∧
      accepted.Onward reached ∧ RootedIfAny otherwise reached ∧
      RootedIfAny body reached) (fun found => ?_) (fun _ => ?_) ?_
  · have less := less found
    refine Ends.mono (calls.statements accepted held.sound (by omega)) ?_
    rintro otherwise reached ⟨made, last⟩
    exact ⟨(held.trans made).weaken (by simp +contextual [or_imp]), made.keeps.onward, last,
      fun id same => made.rooted (rooted id same)⟩
  · exact ⟨held.weaken (by simp +contextual), .refl _, nofun, rooted⟩
  rintro otherwise reached ⟨own, le, otherRooted, bodyRooted⟩
  cases clauses with
  | nil =>
      cases word? with
      | none =>
          refine ends_pure ⟨own.weaken ?_, by omega, bodyRooted⟩
          simp +contextual [or_imp, mine]
      | some word =>
          refine Ends.lift_bind (Scan.report_builds own word.span _) ?_
          rintro _ reported ⟨held, still, same⟩
          have calm := still.calm
          refine (uselessElse_ends held (by simp +contextual [mine]) (by simp +contextual)
            ?_ ?_).since
            (by omega) (by simp +contextual) fun _ _ _ rooted => rooted
          · unfold RootedIfAny
            rw [same]
            exact bodyRooted
          · unfold RootedIfAny
            rw [same]
            exact otherRooted
  | cons clause clauses =>
      refine Ends.look_bind (Scan.spanOf?_looks fun id same => own.live (by simp [mine id same]))
        fun _ _ => ?_
      refine Ends.look_bind (Scan.spanOfAll_looks fun id member => own.live ?_) fun _ _ => ?_
      · exact List.mem_append_right _ (List.mem_append_left _ (node_mem_list.mpr member))
      refine Ends.look_bind (Scan.spanOf?_looks fun id same => own.live (by simp [same]))
        fun _ _ => ?_
      refine Ends.lift_bind (Scan.alloc_ends own (by simp +contextual [or_imp, mine]) _) ?_
      rintro id stored ⟨held, still, rooted⟩
      have calm := still.calm
      refine ends_pure ⟨held.weaken (by simp +contextual [or_imp]), by omega, ?_⟩
      rintro _ ⟨⟩
      exact rooted

theorem body_ends (calls : Meets tables limit) (sound : state.Sound tables.stoppable)
    (enough : 8 * state.measure + 7 < limit) :
    Makes tables body state fun _ _ => True := by
  refine Ends.bind (calls.statements state sound enough) ?_
  rintro statements read ⟨held, rooted⟩
  have shorter := held.keeps.onward
  refine Ends.bind (handledBody_ends calls held (by omega) (by simp) rooted) ?_
  rintro handled reached ⟨held, le, -⟩
  refine (accept?_ends calls held.sound (by omega) (by simp)).bind held ?_
  rintro word? accepted held made less
  cases word? with
  | none => exact makes_pure (held.weaken (by simp +contextual)) trivial
  | some word =>
      have less := less rfl
      refine (calls.statements accepted held.sound (by omega)).bind held ?_
      rintro cleanup cleaned held - -
      refine Ends.look_bind (Scan.spanOf?_looks fun id same => held.live (by simp [same]))
        fun _ _ => ?_
      refine Ends.look_bind (Scan.spanOf?_looks fun id same => held.live (by simp [same]))
        fun _ _ => ?_
      refine Ends.lift_bind (Scan.alloc_ends held (by simp +contextual [or_imp]) _) ?_
      rintro id stored ⟨held, -⟩
      exact makes_pure (held.weaken (by simp)) trivial

/-! ### Constructs that `end` closes -/

theorem openConstruct_bind {β : Type} (sound : state.Sound tables.stoppable)
    (ahead : state.AtToken) {next : Token → Parse β} {goal : β → State → Prop}
    (follow : ∀ word entered, Held tables.stoppable state [] entered →
      state.Past entered → Ends tables (next word) entered goal) :
    Ends tables (do let word ← take; Scan.enterConstruct; next word) state goal := by
  obtain ⟨token, seen, more⟩ := ahead
  refine Ends.bind (take_ends sound seen more) ?_
  rintro word taken ⟨held, -, less, -⟩
  refine Ends.lift_bind (Scan.enterConstruct_builds held) ?_
  rintro _ entered ⟨held, still, -⟩
  have calm := still.calm
  exact follow word entered held.forget (by omega)

theorem closeConstruct_ends (calls : Meets tables limit)
    (held : Held tables.stoppable base handles state) (enough : 8 * state.measure < limit)
    {shape : Shape NodeId} (mine : ∀ handle ∈ handlesOf shape, handle ∈ handles)
    (span : Span → Span) :
    Ends tables (do
      let close ← expectEnd
      Scan.leaveConstruct
      Scan.alloc shape (span close)) state fun id after =>
      Held tables.stoppable base (handlesOf id) after ∧ after.arena.Rooted id := by
  refine (expectEnd_ends calls held.sound enough).bind held ?_
  rintro close closed held - -
  refine Ends.lift_bind (Scan.leaveConstruct_builds held) ?_
  rintro _ left ⟨held, -⟩
  exact (extends_lift (Scan.alloc_ends held (by simpa using mine) _)).makes
    fun _ _ _ rooted => rooted

theorem beginBlock_ends (calls : Meets tables limit) (sound : state.Sound tables.stoppable)
    (ahead : state.AtToken) (enough : 8 * state.measure ≤ limit) :
    Makes tables beginBlock state fun id after => after.arena.Rooted id := by
  refine openConstruct_bind sound ahead fun word entered held less => ?_
  refine (body_ends calls held.sound (by omega)).bind held ?_
  rintro inner read held made -
  have shorter := made.keeps.onward
  exact closeConstruct_ends calls held (by omega) (by simp +contextual) _

/-! ### Conditionals -/

theorem elseBranch_ends (calls : Meets tables limit) (sound : state.Sound tables.stoppable)
    (enough : 8 * state.measure < limit) :
    Makes tables elseBranch state fun _ _ => True := by
  refine Ends.bind (accept_ends calls sound enough (by simp)) ?_
  rintro found accepted ⟨held, less⟩
  refine Ends.ite (fun yes => ?_) fun _ => makes_pure (held.weaken (by simp)) trivial
  have less := less yes
  exact ((calls.statements accepted held.sound (by omega)).extends held).makes
    fun _ _ _ _ => trivial

theorem elseClose_ends (calls : Meets tables limit)
    (held : Held tables.stoppable base handles state) (enough : 8 * state.measure < limit)
    {shape : Option NodeId → Shape NodeId}
    (mine : ∀ otherwise, ∀ handle ∈ handlesOf (shape otherwise),
      handle ∈ handlesOf otherwise ++ handles) (span : Span → Span) :
    Ends tables (do
      let otherwise ← elseBranch
      let close ← expectEnd
      Scan.leaveConstruct
      Scan.alloc (shape otherwise) (span close)) state fun id after =>
      Held tables.stoppable base (handlesOf id) after ∧ after.arena.Rooted id := by
  refine (elseBranch_ends calls held.sound enough).bind held ?_
  rintro otherwise read held made -
  have shorter := made.keeps.onward
  exact closeConstruct_ends calls held (by omega) (mine otherwise) span

theorem ifTail_ends (calls : Meets tables limit) (sound : state.Sound tables.stoppable)
    (enough : 8 * state.measure + 1 ≤ limit) :
    Makes tables ifTail state fun _ _ => True := by
  refine Ends.bind (peekToken_ends calls sound (by omega)) ?_
  rintro token peeked ⟨held, seen, -⟩
  have shorter := held.keeps.onward
  refine Ends.ite (fun word => ?_) fun _ =>
    ((elseBranch_ends calls held.sound (by omega)).extends held).makes fun _ _ _ _ => trivial
  refine (skip_ends held.sound ⟨token, seen, by simp [word]⟩).bind held ?_
  rintro _ skipped held made ⟨less, -⟩
  refine (conditionValue_ends calls held.sound (by omega)).bind held ?_
  rintro condition tested held made -
  have later := made.keeps.onward
  refine (skipSeparator_ends calls held.sound (by omega) .thenWord).bind held ?_
  rintro _ separated held made -
  have further := made.keeps.onward
  refine (calls.statements separated held.sound (by omega)).bind held ?_
  rintro whenTrue read held made -
  have fewer := made.keeps.onward
  refine Ends.bind (deeper_ends token.span.start held (fun _ _ => True) (fun _ _ _ => id)
    fun deep held still _ => ?_) ?_
  · have calm := still.calm
    exact ((calls.ifTail deep held.sound (by omega)).extends held).mono
      fun _ _ made => ⟨made.1, trivial⟩
  rintro whenFalse tail ⟨held, -⟩
  refine Ends.spanSince_bind fun span => ?_
  refine Ends.lift_bind (Scan.alloc_ends held (by simp +contextual [or_imp]) span) ?_
  rintro id stored ⟨held, -⟩
  exact makes_pure (held.weaken (by simp)) trivial

theorem ifBlock_ends (calls : Meets tables limit) (sound : state.Sound tables.stoppable)
    (ahead : state.AtToken) (enough : 8 * state.measure ≤ limit) :
    Makes tables ifBlock state fun id after => after.arena.Rooted id := by
  refine openConstruct_bind sound ahead fun word entered held less => ?_
  refine (conditionValue_ends calls held.sound (by omega)).bind held ?_
  rintro condition tested held made -
  have shorter := made.keeps.onward
  refine (skipSeparator_ends calls held.sound (by omega) .thenWord).bind held ?_
  rintro _ separated held made -
  have later := made.keeps.onward
  refine (calls.statements separated held.sound (by omega)).bind held ?_
  rintro whenTrue read held made -
  have further := made.keeps.onward
  refine (ifTail_ends calls held.sound (by omega)).bind held ?_
  rintro whenFalse tail held made -
  have fewer := made.keeps.onward
  exact closeConstruct_ends calls held (by omega) (by simp +contextual [or_imp]) _

theorem unlessBlock_ends (calls : Meets tables limit) (sound : state.Sound tables.stoppable)
    (ahead : state.AtToken) (enough : 8 * state.measure ≤ limit) :
    Makes tables unlessBlock state fun id after => after.arena.Rooted id := by
  refine openConstruct_bind sound ahead fun word entered held less => ?_
  refine (conditionValue_ends calls held.sound (by omega)).bind held ?_
  rintro condition tested held made -
  have shorter := made.keeps.onward
  refine (skipSeparator_ends calls held.sound (by omega) .thenWord).bind held ?_
  rintro _ separated held made -
  have later := made.keeps.onward
  refine (calls.statements separated held.sound (by omega)).bind held ?_
  rintro whenFalse read held made -
  have further := made.keeps.onward
  refine (accept?_ends calls held.sound (by omega) (by simp)).bind held ?_
  rintro token? accepted held made -
  have fewer := made.keeps.onward
  cases token? with
  | none => exact elseClose_ends calls held (by omega) (by simp +contextual [or_imp]) _
  | some token =>
      refine Ends.lift_bind (Scan.unexpected_builds held token none) ?_
      rintro _ reported ⟨held, still, -⟩
      have calm := still.calm
      exact elseClose_ends calls held (by omega) (by simp +contextual [or_imp]) _

/-! ### Loops -/

theorem loopHead_ends (calls : Meets tables limit) (sound : state.Sound tables.stoppable)
    (enough : 8 * state.measure + 6 < limit) :
    Makes tables loopHead state fun _ _ => True := by
  refine Ends.lift_bind (Scan.setFlags_builds (Held.refl sound) rfl rfl rfl rfl rfl) ?_
  rintro _ flagged ⟨held, still, -⟩
  have calm := still.calm
  refine (expressionValue_ends calls held.sound (by omega)).bind held ?_
  rintro head read held made -
  refine Ends.lift_bind (Scan.setFlags_builds held rfl rfl rfl rfl rfl) ?_
  rintro _ cleared ⟨held, -⟩
  exact makes_pure (held.weaken (by simp)) trivial

theorem loopBlock_ends (calls : Meets tables limit) (sound : state.Sound tables.stoppable)
    (ahead : state.AtToken) (enough : 8 * state.measure ≤ limit) (form : LoopForm) :
    Makes tables (loopBlock form) state fun id after => after.arena.Rooted id := by
  refine openConstruct_bind sound ahead fun word entered held less => ?_
  refine (loopHead_ends calls held.sound (by omega)).bind held ?_
  rintro head read held made -
  have shorter := made.keeps.onward
  refine Ends.lift_bind (Scan.condition_builds held (by simp)) ?_
  rintro condition tested ⟨held, still, -⟩
  have calm := still.calm
  refine (skipSeparator_ends calls held.sound (by omega) .doLoop).bind held ?_
  rintro _ separated held made -
  have later := made.keeps.onward
  refine (calls.statements separated held.sound (by omega)).bind held ?_
  rintro inner last held made -
  have further := made.keeps.onward
  exact closeConstruct_ends calls held (by omega) (by simp +contextual [or_imp]) _

theorem forTarget_ends (calls : Meets tables limit) (sound : state.Sound tables.stoppable)
    (enough : 8 * state.measure + 2 < limit) :
    Makes tables forTarget state fun _ _ => True := by
  refine Ends.bind (calls.target state sound enough) ?_
  rintro first read ⟨held, -⟩
  have shorter := held.keeps.onward
  refine (peekKind_ends calls held.sound (by omega)).bind held ?_
  rintro kind peeked held made -
  have later := made.keeps.onward
  refine Ends.ite (fun _ => ?_) fun _ => makes_pure (held.weaken (by simp)) trivial
  refine Ends.look_bind (Scan.spanOf_looks (held.live (by simp))) fun span _ => ?_
  exact (targetsRest_ends calls held (by omega) (by simp) (by simp) span).makes fun _ _ _ _ => trivial

theorem forBlock_ends (calls : Meets tables limit) (sound : state.Sound tables.stoppable)
    (ahead : state.AtToken) (enough : 8 * state.measure ≤ limit) :
    Makes tables forBlock state fun id after => after.arena.Rooted id := by
  refine openConstruct_bind sound ahead fun word entered held less => ?_
  refine (forTarget_ends calls held.sound (by omega)).bind held ?_
  rintro target read held made -
  have shorter := made.keeps.onward
  refine (expect_ends calls held.sound (by omega) (by simp)).bind held ?_
  rintro _ expected held made -
  have later := made.keeps.onward
  refine (loopHead_ends calls held.sound (by omega)).bind held ?_
  rintro iterated headed held made -
  have further := made.keeps.onward
  refine (skipSeparator_ends calls held.sound (by omega) .doLoop).bind held ?_
  rintro _ separated held made -
  have fewer := made.keeps.onward
  refine (calls.statements separated held.sound (by omega)).bind held ?_
  rintro inner last held made -
  have least := made.keeps.onward
  exact closeConstruct_ends calls held (by omega) (by simp +contextual [or_imp]) _

/-! ### Cases -/

theorem whenClause_ends (calls : Meets tables limit) (sound : state.Sound tables.stoppable)
    (enough : 8 * state.measure + 7 < limit) (word : Token) :
    Makes tables (whenClause word) state fun _ _ => True := by
  refine Ends.bind (commaList_ends calls sound (by omega) (fun _ => listItem_ends calls) true) ?_
  rintro conditions read ⟨held, -⟩
  have shorter := held.keeps.onward
  refine (skipSeparator_ends calls held.sound (by omega) .thenWord).bind held ?_
  rintro _ separated held made -
  have later := made.keeps.onward
  refine (calls.statements separated held.sound (by omega)).bind held ?_
  rintro inner last held made -
  refine Ends.spanSince_bind fun span => ?_
  exact (extends_lift (Scan.alloc_ends held (by simp +contextual [or_imp]) span)).makes
    fun _ _ _ _ => trivial

theorem whenTurn_ends (calls : Meets tables limit) {clauses : Array NodeId}
    (held : Held tables.stoppable base (handlesOf clauses) state)
    (enough : 8 * state.measure < limit) :
    Ends tables (whenTurn clauses) state (TurnHeld tables.stoppable base state) := by
  refine (accept?_ends calls held.sound enough (by simp)).bind held ?_
  rintro word? accepted held made past
  cases word? with
  | none => exact ends_pure (held.weaken (by simp +contextual))
  | some word =>
      have past := past rfl
      refine (whenClause_ends calls held.sound (by omega) word).bind held ?_
      rintro clause read held made -
      have later := made.keeps.onward
      exact ends_pure ⟨held.weaken (by simp +contextual [or_imp]), by omega⟩

theorem whenClauses_ends (calls : Meets tables limit) (sound : state.Sound tables.stoppable)
    (enough : 8 * state.measure < limit) :
    Makes tables whenClauses state fun _ _ => True :=
  Ends.bind (loop_makes sound rfl fun _ _ held onward =>
    whenTurn_ends calls held (by omega)) fun _ _ made => makes_pure made.1 trivial

theorem caseBlock_ends (calls : Meets tables limit) (sound : state.Sound tables.stoppable)
    (ahead : state.AtToken) (enough : 8 * state.measure ≤ limit) :
    Makes tables caseBlock state fun id after => after.arena.Rooted id := by
  refine openConstruct_bind sound ahead fun word entered held less => ?_
  refine (peekKind_ends calls held.sound (by omega)).bind held ?_
  rintro kind peeked held made -
  have shorter := made.keeps.onward
  refine Ends.value_or_made (fun subject reached =>
    Held tables.stoppable state (handlesOf subject) reached ∧
      state.Past reached) (fun _ => ?_) (fun _ => ?_) ?_
  · exact ⟨held.weaken (by simp), by omega⟩
  · refine ((expressionValue_ends calls held.sound (by omega)).extends held).mono ?_
    rintro subject read ⟨held, later, -⟩
    exact ⟨held.weaken (by simp), by omega⟩
  rintro subject reached ⟨held, less⟩
  refine (skipTerminators_ends calls held.sound (by omega)).bind held ?_
  rintro _ skipped held made -
  have later := made.keeps.onward
  refine (whenClauses_ends calls held.sound (by omega)).bind held ?_
  rintro clauses listed held made -
  have further := made.keeps.onward
  refine Ends.ite (fun _ => ?_) fun _ =>
    elseClose_ends calls held (by omega) (by simp +contextual [or_imp]) _
  refine (peekToken_ends calls held.sound (by omega)).bind held ?_
  rintro token peeked held made -
  have fewer := made.keeps.onward
  refine Ends.lift_bind (Scan.unexpected_builds held token _) ?_
  rintro _ reported ⟨held, still, -⟩
  have calm := still.calm
  exact elseClose_ends calls held (by omega) (by simp +contextual [or_imp]) _

end Parse

end RubySyntax
