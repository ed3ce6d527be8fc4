/-
Primary expressions: literals, names, brackets and the constructs that start
with a word.
-/

import RubySyntax.Proofs.Grammar.Heredoc
import RubySyntax.Proofs.Grammar.Statement
import RubySyntax.Grammar.Primary

namespace RubySyntax

namespace Parse

variable {tables : Tables} {limit : Nat} {base state : State} {handles : List Handle}

/-! ### Tokens -/

theorem misplaced_ends (sound : state.Sound tables.stoppable) {token : Token}
    (seen : state.lookahead = some token) :
    Makes tables (misplaced token) state fun id after => after.arena.Rooted id := by
  refine Ends.lift_bind (Scan.unexpected_builds (Held.refl sound) token none) ?_
  rintro _ reported ⟨held, still, -⟩
  refine Ends.when (Held tables.stoppable state []) (fun passed => ?_) (fun _ => held)
    fun reached held => (extends_lift (Scan.alloc_ends held (by simp) _)).makes
      fun _ _ _ rooted => rooted
  have more : token.kind ≠ .endOfInput := by
    intro ended
    rw [ended] at passed
    exact absurd passed (by decide)
  exact Ends.mono ((skip_ends held.sound ⟨token, still.lookahead.trans seen, more⟩).extends held)
    fun _ _ made => made.1.forget

theorem negativeNumber_ends (calls : Meets tables limit) (sound : state.Sound tables.stoppable)
    (ahead : state.AtToken) (enough : 8 * state.measure ≤ limit) :
    Makes tables negativeNumber state fun id after => after.arena.Rooted id := by
  obtain ⟨first, seen, more⟩ := ahead
  refine Ends.bind (take_ends sound seen more) ?_
  rintro minus taken ⟨held, -, less, -⟩
  refine (peekToken_ends calls held.sound (by omega)).bind held ?_
  rintro token peeked held made ⟨seen, -⟩
  split
  case h_1 kind | h_2 kind =>
    refine (skip_ends held.sound ⟨token, seen, by simp [kind]⟩).bind held ?_
    rintro _ skipped held - -
    exact (extends_lift (Scan.alloc_ends held (by simp) _)).makes fun _ _ _ rooted => rooted
  case h_3 =>
    refine Ends.lift_bind (Scan.unexpected_builds held token _) ?_
    rintro _ reported ⟨held, -⟩
    exact (extends_lift (Scan.alloc_ends held (by simp) _)).makes fun _ _ _ rooted => rooted

theorem topConstant_ends (calls : Meets tables limit) (sound : state.Sound tables.stoppable)
    (ahead : state.AtToken) (enough : 8 * state.measure ≤ limit) :
    Makes tables topConstant state (OperandRead state) := by
  obtain ⟨first, seen, more⟩ := ahead
  refine Ends.bind (take_ends sound seen more) ?_
  rintro mark taken ⟨held, -, less, -⟩
  refine (peekToken_ends calls held.sound (by omega)).bind held ?_
  rintro token peeked held made ⟨seen, -⟩
  have shorter := made.keeps.onward
  split
  case h_1 name kind =>
    refine (skip_ends held.sound ⟨token, seen, by simp [kind]⟩).bind held ?_
    rintro _ skipped held - ⟨later, -⟩
    refine makes_pure (held.weaken ?_) ⟨by rintro _ ⟨⟩, fun _ => by omega⟩
    simp [kind, handlesOf, TokenKind.names, Operand.ownerHandles]
  case h_2 =>
    refine Ends.lift_bind (Scan.unexpected_builds held token _) ?_
    rintro _ reported ⟨held, -⟩
    refine Ends.lift_bind (Scan.alloc_ends held (by simp) _) ?_
    rintro id stored ⟨held, -, rooted⟩
    exact makes_pure (held.weaken (by simp)) (.of_node rooted)

/-! ### Parentheses -/

/-- The list of the statements is given back, as none but the rule that made
it refers to it. -/
theorem moreStatements_ends (calls : Meets tables limit) (sound : state.Sound tables.stoppable)
    (enough : 8 * state.measure + 7 < limit) :
    Makes tables moreStatements state fun _ _ => True := by
  refine Ends.bind (peekKind_ends calls sound (by omega)) ?_
  rintro kind peeked ⟨held, -⟩
  have shorter := held.keeps.onward
  refine Ends.ite (fun _ => makes_pure held.forget trivial) fun _ => ?_
  refine (calls.statements peeked held.sound (by omega)).bind held ?_
  rintro rest? read held made rooted
  cases rest? with
  | none => exact makes_pure held.forget trivial
  | some rest =>
      have rooted := rooted rest rfl
      refine Ends.look_bind (Scan.shapeOf_looks rooted.live) ?_
      rintro _ ⟨node, found, rfl⟩
      split
      · next items list =>
          have plain : ¬node.shape.IsSymbol := by simp [list, Shape.IsSymbol]
          have noParent := rooted.no_parent found plain
          have fresh := held.fresh (by simp) found plain
          have child : ∀ item ∈ items, read.arena.Child rest item := fun item member =>
            ⟨node, found, by rw [list]; exact member⟩
          refine Ends.lift_bind (Scan.recycle_ends (held.child fresh child) fresh
            (held.sound.not_awaited found (by simp [list])) (held.sound.not_key found plain)
            noParent (handlesOf items) ?_ ?_) ?_
          · rw [forall_handlesOf_list]
            exact fun item member => List.mem_append_left _ (List.mem_map_of_mem member)
          · rw [node_mem_list]
            exact fun member => noParent rest (child rest member)
          rintro _ after ⟨held, -⟩
          exact makes_pure held trivial
      · exact makes_pure (held.weaken (by simp)) trivial

theorem groupRest_ends (calls : Meets tables limit)
    (held : Held tables.stoppable base handles state) (enough : 8 * state.measure + 7 < limit)
    {first : NodeId} (mine : .node first ∈ handles) (opening : Token) :
    Extends tables base handles (groupRest opening first) state fun id after =>
      after.arena.Rooted id := by
  refine (moreStatements_ends calls held.sound enough).bind held ?_
  rintro more read held made -
  have shorter := made.keeps.onward
  dsimp only
  refine (expect_ends calls held.sound (by omega) (by simp)).bind held ?_
  rintro close closed held made -
  have later := made.keeps.onward
  refine Ends.when (fun reached => Held tables.stoppable base (handlesOf more ++ handles) reached ∧
    state.Onward reached) (fun _ => ?_) (fun _ => ?_) ?_
  · refine (ends_lift (Scan.setFlags_builds held rfl rfl rfl rfl rfl)).mono ?_
    rintro _ reached ⟨held, still, -⟩
    have calm := still.calm
    exact ⟨held.weaken (by simp +contextual), by omega⟩
  · exact ⟨held.weaken (by simp +contextual), by omega⟩
  rintro reached ⟨held, le⟩
  have own : ∀ id ∈ first :: more, .node id ∈ handlesOf more ++ handles := by
    intro id member
    rcases List.mem_cons.mp member with rfl | member
    · exact List.mem_append_right _ mine
    · simp [member]
  refine Ends.look_bind (Scan.spanOfAll_looks fun id member => held.live (own id member)) ?_
  intro span _
  refine Ends.bind (sequence_ends held own span) ?_
  rintro inner listed ⟨held, still, -⟩
  have calm := still.calm
  exact (extends_lift (Scan.alloc_ends held (by simp +contextual) _)).since (by omega)
    (by simp +contextual) fun _ _ _ rooted => rooted

theorem group_ends (calls : Meets tables limit) (sound : state.Sound tables.stoppable)
    (ahead : state.AtToken) (enough : 8 * state.measure ≤ limit) :
    Makes tables group state fun id after => after.arena.Rooted id := by
  obtain ⟨token, seen, more⟩ := ahead
  refine Ends.bind (take_ends sound seen more) ?_
  rintro opening taken ⟨held, -, less, -⟩
  refine (skipTerminators_ends calls held.sound (by omega)).bind held ?_
  rintro _ skipped held made -
  have shorter := made.keeps.onward
  refine (peekKind_ends calls held.sound (by omega)).bind held ?_
  rintro _ peeked held made ⟨next, seen, rfl⟩
  have later := made.keeps.onward
  split
  case h_1 kind =>
    refine Ends.bind (targetsRest_ends calls held (by omega) (by simp)
      (fun _ => ⟨next, seen, kind⟩) _) ?_
    rintro targets listed ⟨held, further, rooted⟩
    refine (expect_ends calls held.sound (by omega) (by simp)).bind held ?_
    rintro close closed held made -
    refine Ends.lift_bind (Scan.widen_ends held (held.live (by simp)) close) ?_
    rintro _ widened ⟨held, -, roots⟩
    exact makes_pure (held.weaken (by simp)) (roots targets (made.rooted rooted))
  case h_2 kind =>
    refine (take_ends held.sound seen (by simp [kind])).bind held ?_
    rintro close closed held - -
    exact (extends_lift (Scan.alloc_ends held (by simp) _)).makes fun _ _ _ rooted => rooted
  case h_3 =>
    refine (statement_ends calls held.sound (by omega)).bind held ?_
    rintro first read held made rooted
    have further := made.keeps.onward
    refine Ends.look_bind (Scan.shapeOf_looks rooted.live) fun shape _ => ?_
    split
    · refine (peekToken_ends calls held.sound (by omega)).bind held ?_
      rintro token followed held made ⟨seen, -⟩
      have fewer := made.keeps.onward
      have rooted := made.rooted rooted
      refine Ends.ite (fun paren => ?_) fun _ => ?_
      · refine (skip_ends held.sound ⟨token, seen, by simp [paren]⟩).bind held ?_
        rintro _ passed held made -
        refine Ends.lift_bind (Scan.widen_ends held (held.live (by simp)) _) ?_
        rintro _ widened ⟨held, -, roots⟩
        exact makes_pure (held.weaken (by simp)) (roots first (made.rooted rooted))
      · exact (groupRest_ends calls held (by omega) (by simp) opening).makes
          fun _ _ _ rooted => rooted
    · exact (groupRest_ends calls held (by omega) (by simp) opening).makes
        fun _ _ _ rooted => rooted

/-! ### Arrays and hashes -/

theorem array_ends (calls : Meets tables limit) (sound : state.Sound tables.stoppable)
    (ahead : state.AtToken) (enough : 8 * state.measure ≤ limit) :
    Makes tables array state fun id after => after.arena.Rooted id := by
  obtain ⟨token, seen, more⟩ := ahead
  refine Ends.bind (take_ends sound seen more) ?_
  rintro opening taken ⟨held, -, less, -⟩
  refine (arguments_ends calls held.sound (by omega) _).bind held ?_
  rintro list read held made -
  have shorter := made.keeps.onward
  refine (expect_ends calls held.sound (by omega) (by simp)).bind held ?_
  rintro close closed held - -
  refine Ends.lift_bind (Scan.refuseBlock_builds held fun id block => held.live ?_) ?_
  · simp [handlesOf_arguments, block]
  rintro _ refused ⟨held, -⟩
  exact (extends_lift (Scan.alloc_ends held (by simp +contextual [handlesOf_arguments]) _)).makes
    fun _ _ _ rooted => rooted

theorem hashKey_ends (calls : Meets tables limit) (sound : state.Sound tables.stoppable)
    (enough : 8 * state.measure + 5 < limit) :
    Makes tables hashKey state fun _ _ => True := by
  refine Ends.bind (argument_ends calls sound enough .accepted) ?_
  rintro key read ⟨held, -⟩
  have shorter := held.keeps.onward
  refine Ends.lift_bind (Scan.takeQuotedKey?_builds held) ?_
  rintro label? taken ⟨held, still, -⟩
  have calm := still.calm
  cases label? with
  | some label => exact makes_pure (held.weaken (by simp)) trivial
  | none =>
      refine Ends.lift_bind (Scan.requireValue_builds held (held.live (by simp))) ?_
      rintro _ required ⟨held, quiet, -⟩
      have silent := quiet.calm
      refine (skipNewlines_ends calls held.sound (by omega)).bind held ?_
      rintro _ skipped held made -
      have later := made.keeps.onward
      refine (expect_ends calls held.sound (by omega) (by simp)).bind held ?_
      rintro _ expected held - -
      exact makes_pure (held.weaken (by simp)) trivial

theorem hashEntry_ends (calls : Meets tables limit) (sound : state.Sound tables.stoppable)
    (enough : 8 * state.measure + 5 < limit) :
    Makes tables hashEntry state fun _ _ => True := by
  refine Ends.bind (peekToken_ends calls sound (by omega)) ?_
  rintro token peeked ⟨held, seen, -⟩
  have shorter := held.keeps.onward
  have valued {reached : State} {key : NodeId}
      (held : Held tables.stoppable state (handlesOf key) reached)
      (le : state.Onward reached) :
      Ends tables (do
        skipNewlines
        return HashEntry.pair key (← argumentValue)) reached fun entry after =>
          Held tables.stoppable state (handlesOf entry) after ∧ True := by
    refine (skipNewlines_ends calls held.sound (by omega)).bind held ?_
    rintro _ skipped held made -
    have later := made.keeps.onward
    refine (argumentValue_ends calls held.sound (by omega)).bind held ?_
    rintro value read held - -
    exact makes_pure (held.weaken (by simp)) trivial
  split
  case h_1 kind =>
    refine (skip_ends held.sound ⟨token, seen, by simp [kind]⟩).bind held ?_
    rintro _ skipped held - ⟨less, -⟩
    refine (argumentValue_ends calls held.sound (by omega)).bind held ?_
    rintro value read held - -
    exact makes_pure (held.weaken (by simp)) trivial
  case h_2 name kind =>
    refine (skip_ends held.sound ⟨token, seen, by simp [kind]⟩).bind held ?_
    rintro _ skipped held - ⟨less, -⟩
    refine Ends.bind (labelKey_ends held name token.span) ?_
    rintro key labelled ⟨held, le, -⟩
    exact valued (held.weaken (by simp)) (by omega)
  case h_3 =>
    refine (hashKey_ends calls held.sound (by omega)).bind held ?_
    rintro key read held made -
    have later := made.keeps.onward
    exact valued (held.weaken (by simp)) (by omega)

theorem hashTurn_ends (calls : Meets tables limit) {entries : Array (HashEntry NodeId)}
    (held : Held tables.stoppable base (handlesOf entries) state)
    (enough : 8 * state.measure + 5 < limit) :
    Ends tables (hashTurn entries) state (TurnHeld tables.stoppable base state) := by
  refine (skipNewlines_ends calls held.sound (by omega)).bind held ?_
  rintro _ skipped held made -
  have shorter := made.keeps.onward
  refine (peekKind_ends calls held.sound (by omega)).bind held ?_
  rintro kind peeked held made -
  have later := made.keeps.onward
  refine Ends.ite (fun _ => ends_pure (held.weaken (by simp +contextual))) fun _ => ?_
  refine (hashEntry_ends calls held.sound (by omega)).bind held ?_
  rintro entry read held made -
  have further := made.keeps.onward
  dsimp only
  refine (skipNewlines_ends calls held.sound (by omega)).bind held ?_
  rintro _ passed held made -
  have fewer := made.keeps.onward
  refine (accept_ends calls held.sound (by omega) (by simp)).bind held ?_
  rintro found accepted held made past
  have grown : Held tables.stoppable base (handlesOf (entries.push entry)) accepted :=
    held.weaken (by simp; tauto)
  refine Ends.ite (fun again => ?_) fun _ => ends_pure grown
  have past := past again
  exact ends_pure ⟨grown, by omega⟩

theorem hash_ends (calls : Meets tables limit) (sound : state.Sound tables.stoppable)
    (ahead : state.AtToken) (enough : 8 * state.measure ≤ limit) :
    Makes tables hash state fun id after => after.arena.Rooted id := by
  obtain ⟨token, seen, more⟩ := ahead
  refine Ends.bind (take_ends sound seen more) ?_
  rintro opening taken ⟨held, -, past, -⟩
  refine Makes.bind (loop_makes held.sound rfl fun _ _ held onward =>
    hashTurn_ends calls held (by omega)) held.forget ?_
  rintro entries read held made -
  have onward := made.keeps.onward
  refine (skipNewlines_ends calls held.sound (by omega)).bind held ?_
  rintro _ skipped held made -
  have shorter := made.keeps.onward
  refine (expect_ends calls held.sound (by omega) (by simp)).bind held ?_
  rintro close closed held - -
  have own : ∀ handle ∈ handlesOf (Shape.hash entries.toList),
      handle ∈ handlesOf close ++ (handlesOf () ++ (handlesOf entries ++ [])) :=
    forall_handlesOf_shape.mpr ⟨forall_handlesOf_entries.mp (by simp), nofun⟩
  exact (extends_lift (Scan.alloc_ends held own _)).makes fun _ _ _ rooted => rooted

/-! ### Words -/

theorem jumpValue_ends (calls : Meets tables limit) (sound : state.Sound tables.stoppable)
    (enough : 8 * state.measure + 5 < limit) :
    Makes tables jumpValue state fun _ _ => True := by
  refine Ends.bind (peekKind_ends calls sound (by omega)) ?_
  rintro kind peeked ⟨held, -⟩
  have shorter := held.keeps.onward
  refine Ends.ite (fun _ => makes_pure held.forget trivial) fun _ => ?_
  refine (arguments_ends calls held.sound (by omega) none).bind held ?_
  rintro list read held - -
  refine Ends.lift_bind (Scan.refuseBlock_builds held fun id block => held.live ?_) ?_
  · simp [handlesOf_arguments, block]
  rintro _ refused ⟨held, -⟩
  have own : ∀ id ∈ list.items, .node id ∈ handlesOf () ++ (handlesOf list ++ handlesOf kind) :=
    fun id member => by simp [handlesOf_arguments, member]
  have array : Ends tables (do
      return some (← Scan.alloc (.list .array list.items) (← Scan.spanOfAll list.items)))
      refused fun value after => Held tables.stoppable state (handlesOf value) after ∧ True := by
    refine Ends.look_bind (Scan.spanOfAll_looks fun id member => held.live (own id member)) ?_
    intro span _
    refine Ends.lift_bind (Scan.alloc_ends held (by simpa using own) span) ?_
    rintro id stored ⟨held, -⟩
    exact makes_pure (held.weaken (by simp)) trivial
  dsimp only
  split
  · exact makes_pure held.forget trivial
  · next item items =>
      have mine := own item (by simp [items])
      refine Ends.look_bind (Scan.shapeOf_looks (held.live mine)) fun shape _ => ?_
      split
      · exact array
      · exact makes_pure (held.weaken (by simpa using mine)) trivial
  · exact array

theorem jump_ends (calls : Meets tables limit) (sound : state.Sound tables.stoppable)
    (ahead : state.AtToken) (enough : 8 * state.measure ≤ limit) (form : OptionalForm) :
    Makes tables (jump form) state fun id after => after.arena.Rooted id := by
  obtain ⟨token, seen, more⟩ := ahead
  refine Ends.bind (take_ends sound seen more) ?_
  rintro word taken ⟨held, -, less, -⟩
  refine (jumpValue_ends calls held.sound (by omega)).bind held ?_
  rintro value read held - -
  refine Ends.look_bind (Scan.spanOf?_looks fun id given => held.live (by simp [given])) ?_
  intro span _
  exact (extends_lift (Scan.alloc_ends held (by simp +contextual) _)).makes
    fun _ _ _ rooted => rooted

theorem definedTest_ends (calls : Meets tables limit) (sound : state.Sound tables.stoppable)
    (ahead : state.AtToken) (enough : 8 * state.measure ≤ limit) :
    Makes tables definedTest state fun id after => after.arena.Rooted id := by
  obtain ⟨token, seen, more⟩ := ahead
  refine Ends.bind (take_ends sound seen more) ?_
  rintro word taken ⟨held, -, less, -⟩
  refine (accept_ends calls held.sound (by omega) (by simp)).bind held ?_
  rintro paren accepted held made -
  have shorter := made.keeps.onward
  refine Ends.ite (fun _ => ?_) fun _ => ?_
  · refine (skipNewlines_ends calls held.sound (by omega)).bind held ?_
    rintro _ skipped held made -
    have later := made.keeps.onward
    refine (expression_ends calls held.sound (by omega) .accepted).bind held ?_
    rintro operand read held made -
    have further := made.keeps.onward
    refine (skipNewlines_ends calls held.sound (by omega)).bind held ?_
    rintro _ passed held made -
    have fewer := made.keeps.onward
    refine (expect_ends calls held.sound (by omega) (by simp)).bind held ?_
    rintro close closed held - -
    exact (extends_lift (Scan.alloc_ends held (by simp) _)).makes fun _ _ _ rooted => rooted
  · refine (argument_ends calls held.sound (by omega) .reported).bind held ?_
    rintro operand read held made rooted
    refine Ends.look_bind (Scan.spanOf_looks rooted.live) fun span _ => ?_
    exact (extends_lift (Scan.alloc_ends held (by simp) _)).makes fun _ _ _ rooted => rooted

theorem negatedOperand_ends (calls : Meets tables limit) (sound : state.Sound tables.stoppable)
    (enough : 8 * state.measure + 6 < limit) (opening : Span) :
    Makes tables (negatedOperand opening) state fun _ _ => True := by
  refine Ends.bind (peekKind_ends calls sound (by omega)) ?_
  rintro kind peeked ⟨held, -⟩
  have shorter := held.keeps.onward
  refine Ends.ite (fun _ => ?_) fun _ => ?_
  · exact (extends_lift (Scan.alloc_ends held (by simp) _)).makes fun _ _ _ _ => trivial
  · exact ((conditionValue_ends calls held.sound (by omega)).extends held).makes
      fun _ _ _ _ => trivial

theorem negationCall_ends (calls : Meets tables limit) (sound : state.Sound tables.stoppable)
    (ahead : state.AtToken) (enough : 8 * state.measure ≤ limit) :
    Makes tables negationCall state fun id after => after.arena.Rooted id := by
  obtain ⟨token, seen, more⟩ := ahead
  refine Ends.bind (take_ends sound seen more) ?_
  rintro word taken ⟨held, -, less, -⟩
  refine (peekToken_ends calls held.sound (by omega)).bind held ?_
  rintro token peeked held made ⟨seen, -⟩
  have shorter := made.keeps.onward
  refine Ends.ite (fun paren => ?_) fun _ => ?_
  · refine (skip_ends held.sound ⟨token, seen, by simp [paren]⟩).bind held ?_
    rintro _ passed held made -
    have later := made.keeps.onward
    refine (skipNewlines_ends calls held.sound (by omega)).bind held ?_
    rintro _ skipped held made -
    have further := made.keeps.onward
    refine (negatedOperand_ends calls held.sound (by omega) token.span).bind held ?_
    rintro operand read held made -
    have fewer := made.keeps.onward
    refine (skipNewlines_ends calls held.sound (by omega)).bind held ?_
    rintro _ skipped held made -
    have last := made.keeps.onward
    refine (expect_ends calls held.sound (by omega) (by simp)).bind held ?_
    rintro close closed held - -
    exact (extends_lift (Scan.alloc_ends held (by simp) _)).makes fun _ _ _ rooted => rooted
  · refine Ends.lift_bind (Scan.unexpected_builds held token _) ?_
    rintro _ reported ⟨held, still, -⟩
    have calm := still.calm
    refine (argumentValue_ends calls held.sound (by omega)).bind held ?_
    rintro value read held - -
    refine Ends.lift_bind (Scan.condition_builds held (by simp)) ?_
    rintro operand conditioned ⟨held, -⟩
    refine Ends.look_bind (Scan.spanOf_looks (held.live (by simp))) fun span _ => ?_
    exact (extends_lift (Scan.alloc_ends held (by simp) _)).makes fun _ _ _ rooted => rooted

theorem wordConstruct?_ends (calls : Meets tables limit) (sound : state.Sound tables.stoppable)
    (ahead : state.AtToken) (enough : 8 * state.measure ≤ limit) (word : Keyword) :
    Makes tables (wordConstruct? word) state fun node? after =>
      match node? with
      | some id => after.arena.Rooted id
      | none => after = state := by
  have built {step : Parse NodeId}
      (makes : Makes tables step state fun id after => after.arena.Rooted id) :
      Makes tables (do return some (← step)) state fun node? after =>
        match node? with
        | some id => after.arena.Rooted id
        | none => after = state :=
    Ends.bind makes fun id after made =>
      makes_pure (made.1.weaken (by simp)) made.2
  unfold wordConstruct?
  split
  case h_1 | h_2 | h_3 => exact built (jump_ends calls sound ahead enough _)
  case h_4 => exact built (definedTest_ends calls sound ahead enough)
  case h_5 => exact built (negationCall_ends calls sound ahead enough)
  case h_6 => exact built (beginBlock_ends calls sound ahead enough)
  case h_7 => exact built (ifBlock_ends calls sound ahead enough)
  case h_8 => exact built (unlessBlock_ends calls sound ahead enough)
  case h_9 | h_10 => exact built (loopBlock_ends calls sound ahead enough _)
  case h_11 => exact built (caseBlock_ends calls sound ahead enough)
  case h_12 => exact built (forBlock_ends calls sound ahead enough)
  case h_13 => exact built (methodDefinition_ends calls sound ahead enough)
  case h_14 => exact built (classDefinition_ends calls sound ahead enough)
  case h_15 => exact built (moduleDefinition_ends calls sound ahead enough)
  case h_16 => exact makes_pure (Held.refl sound) rfl

/-! ### Primary expressions -/

theorem primaryNode_ends (calls : Meets tables limit) (sound : state.Sound tables.stoppable)
    {token : Token} (seen : state.lookahead = some token) (enough : 8 * state.measure ≤ limit) :
    Makes tables (primaryNode token) state fun id after => after.arena.Rooted id := by
  have ahead (more : token.kind ≠ .endOfInput) : state.AtToken := ⟨token, seen, more⟩
  unfold primaryNode
  split
  case h_1 kind => exact negativeNumber_ends calls sound (ahead (by simp [kind])) enough
  case h_2 kind => exact literal_ends calls sound (ahead (by simp [kind])) enough _
  case h_3 kind => exact heredoc_ends sound (ahead (by simp [kind]))
  case h_4 kind | h_5 kind => exact group_ends calls sound (ahead (by simp [kind])) enough
  case h_6 kind => exact array_ends calls sound (ahead (by simp [kind])) enough
  case h_7 kind => exact hash_ends calls sound (ahead (by simp [kind])) enough
  case h_8 kind => exact lambda_ends calls sound (ahead (by simp [kind])) enough
  case h_9 word kind =>
    refine Ends.bind (wordConstruct?_ends calls sound (ahead (by simp [kind])) enough word) ?_
    rintro node? after ⟨held, read⟩
    cases node? with
    | some node => exact makes_pure (held.weaken (by simp)) read
    | none =>
        subst read
        exact misplaced_ends sound seen
  case h_10 => exact misplaced_ends sound seen

theorem primary_ends (calls : Meets tables limit) (sound : state.Sound tables.stoppable)
    (enough : 8 * state.measure + 1 ≤ limit) :
    Makes tables primary state (OperandRead state) := by
  refine Ends.bind (peekToken_ends calls sound (by omega)) ?_
  rintro token peeked ⟨held, seen, -⟩
  have shorter := held.keeps.onward
  have word {operand : Operand} {after : State}
      (held : Held tables.stoppable state (handlesOf token) after)
      (less : peeked.Past after)
      (mine : ∀ handle ∈ handlesOf operand, handle ∈ handlesOf token)
      (pending : ∀ id, operand ≠ .node id) :
      Ends tables (pure operand) after fun result after =>
        Held tables.stoppable state (handlesOf result) after ∧ OperandRead state result after :=
    makes_pure (held.weaken mine)
      ⟨fun id same => absurd same (pending id), fun _ => by omega⟩
  have taken {next : Parse Operand} (more : token.kind ≠ .endOfInput)
      (follow : ∀ after, Held tables.stoppable state (handlesOf token) after →
        peeked.Past after → Ends tables next after fun result after =>
          Held tables.stoppable state (handlesOf result) after ∧ OperandRead state result after) :
      Ends tables (skip >>= fun _ => next) peeked fun result after =>
        Held tables.stoppable state (handlesOf result) after ∧ OperandRead state result after := by
    refine (skip_ends held.sound ⟨token, seen, more⟩).bind held ?_
    rintro _ after held - ⟨less, -⟩
    exact follow after held less
  split
  case h_1 name kind =>
    refine taken (by simp [kind]) fun after held less => Ends.get_bind ?_
    exact word held less (by simp [kind, handlesOf, TokenKind.names]) (by simp)
  case h_2 name kind | h_3 name kind =>
    refine taken (by simp [kind]) fun after held less => ?_
    exact word held less (by simp [kind, handlesOf, TokenKind.names, Operand.ownerHandles,
      Operand.calleeHandles]) (by simp)
  case h_4 kind | h_5 kind =>
    refine taken (by simp [kind]) fun after held less => ?_
    exact word held less (by simp) (by simp)
  case h_6 kind =>
    refine Ends.mono (topConstant_ends calls held.sound ⟨token, seen, by simp [kind]⟩
      (by omega)) fun operand after made => ?_
    exact ⟨(held.trans made.1).weaken (by simp +contextual), made.2.since shorter⟩
  case h_7 =>
    refine Ends.bind (atomShape?_ends held token) ?_
    rintro shape? shaped ⟨held, still, atom⟩
    have calm := still.calm
    have seen := still.lookahead.trans seen
    cases shape? with
    | some shape =>
        have more : token.kind ≠ .endOfInput := atom.more rfl
        refine (skip_ends held.sound ⟨token, seen, more⟩).bind held ?_
        rintro _ skipped held - -
        refine Ends.lift_bind (Scan.alloc_ends held (fun _ member => by simp [member]) _) ?_
        rintro id stored ⟨held, -, rooted⟩
        exact makes_pure (held.weaken (by simp)) (.of_node rooted)
    | none =>
        refine (primaryNode_ends calls held.sound seen (by omega)).bind held ?_
        rintro id read held - rooted
        exact makes_pure (held.weaken (by simp)) (.of_node rooted)

end Parse

end RubySyntax
