/-
What follows a primary expression: method calls, indexing, constants and
blocks.

Every link takes a token, so a chain comes to an end. What it gives is held
besides what was held before it.
-/

import RubySyntax.Proofs.Grammar.Primary
import RubySyntax.Grammar.Chain

namespace RubySyntax

theorem Operand.Rooted.keeps {strict : Prop} {base state : State} {handles : List Handle}
    {operand : Operand} (rooted : operand.Rooted base.arena)
    (held : Held strict base handles state) : operand.Rooted state.arena :=
  fun id same => held.rooted (rooted id same)

theorem Operand.Rooted.of_node {arena : Arena} {id : NodeId} (rooted : arena.Rooted id) :
    (Operand.node id).Rooted arena :=
  fun _ same => Operand.node.inj same ▸ rooted

namespace Parse

variable {tables : Tables} {limit : Nat} {base state : State} {handles : List Handle}

/-! ### Links -/

theorem afterDot_ends (calls : Meets tables limit)
    (held : Held tables.stoppable base handles state) (enough : 8 * state.measure < limit)
    {receiver : NodeId} (mine : .node receiver ∈ handles)
    (rooted : state.arena.Rooted receiver) (safe : Bool) :
    Extends tables base handles (afterDot receiver safe) state fun operand after =>
      operand.Rooted after.arena := by
  refine (peekToken_ends calls held.sound enough).bind held ?_
  rintro token peeked held made ⟨seen, -⟩
  have shorter := made.keeps.onward
  have rooted := made.rooted rooted
  let ready : State → Prop := fun reached =>
    Held tables.stoppable base handles reached ∧ state.Onward reached ∧
      reached.arena.Rooted receiver
  have here : ready peeked := ⟨held.weaken (by simp +contextual), shorter, rooted⟩
  have passed (more : token.kind ≠ .endOfInput) :
      Ends tables skip peeked fun _ after => ready after := by
    refine Ends.mono (skip_ends held.sound ⟨token, seen, more⟩) ?_
    rintro _ after ⟨passed, less, -⟩
    exact ⟨here.1.next passed, by omega, passed.rooted rooted⟩
  have interned {reached : State} (now : ready reached) (text : Bytes) :
      Scan.Ends (Scan.intern text) reached fun _ after => ready after := by
    refine (Scan.intern_builds now.1 text).mono ?_
    rintro name after ⟨held, still, same⟩
    exact ⟨held.weaken (by simp +contextual), now.2.1.trans still.onward, same ▸ now.2.2⟩
  have bare {reached : State} (now : ready reached) (name : Symbol) :
      Ends tables (do
        let span := (← Scan.spanOf receiver).hull (← spanSince token.span.start)
        return Operand.bareCall span (.method receiver name safe)) reached fun operand after =>
          Held tables.stoppable base (handlesOf operand ++ handles) after ∧
            state.Onward after ∧ operand.Rooted after.arena := by
    refine Ends.look_bind (Scan.spanOf_looks (now.1.live mine)) fun span _ => ?_
    refine Ends.spanSince_bind fun _ => ends_pure ⟨now.1.weaken ?_, now.2.1, by rintro _ ⟨⟩⟩
    simpa using mine
  have alone : Ends tables (do
      Scan.unexpected token (some "method name")
      return Operand.node receiver) peeked fun operand after =>
        Held tables.stoppable base (handlesOf operand ++ handles) after ∧
          state.Onward after ∧ operand.Rooted after.arena := by
    refine Ends.lift_bind (Scan.unexpected_builds here.1 token _) ?_
    rintro _ reported ⟨held, still, same⟩
    refine ends_pure ⟨held.weaken (by simpa using mine), shorter.trans still.onward, ?_⟩
    exact .of_node (same ▸ rooted)
  dsimp only
  split
  case h_1 name kind | h_2 name kind | h_3 name kind =>
    exact Ends.bind (passed (by simp [kind])) fun _ _ now => bare now name
  case h_4 mark kind =>
    refine Ends.ite (fun _ => ?_) fun _ => Ends.ite (fun _ => ?_) fun _ => alone
    · exact Ends.lift_bind (interned here _) fun name _ now => bare now name
    · refine Ends.bind (passed (by simp [kind])) fun _ _ now => ?_
      exact Ends.lift_bind (interned now _) fun name _ now => bare now name
  case h_5 => exact alone

theorem afterColons_ends (calls : Meets tables limit)
    (held : Held tables.stoppable base handles state) (enough : 8 * state.measure < limit)
    {receiver : NodeId} (mine : .node receiver ∈ handles)
    (rooted : state.arena.Rooted receiver) :
    Extends tables base handles (afterColons receiver) state fun operand after =>
      operand.Rooted after.arena := by
  refine (peekToken_ends calls held.sound enough).bind held ?_
  rintro token peeked held made ⟨seen, -⟩
  have shorter := made.keeps.onward
  have rooted := made.rooted rooted
  split
  case h_1 name kind =>
    refine (skip_ends held.sound ⟨token, seen, by simp [kind]⟩).bind held ?_
    rintro _ skipped held made ⟨less, -⟩
    refine Ends.look_bind (Scan.spanOf_looks (made.rooted rooted).live) fun span _ => ?_
    refine (peekKind_ends calls held.sound (by omega)).bind held ?_
    rintro next followed held made -
    have later := made.keeps.onward
    refine Ends.ite (fun _ => ends_pure ⟨held.weaken ?_, by omega, by rintro _ ⟨⟩⟩)
      fun _ => ends_pure ⟨held.weaken ?_, by omega, by rintro _ ⟨⟩⟩
    · simpa [mine] using fun handle member => .inr (.inr member)
    · simp +contextual [kind, handlesOf, TokenKind.names, Operand.ownerHandles, mine]
  case h_2 name kind | h_3 name kind =>
    refine (skip_ends held.sound ⟨token, seen, by simp [kind]⟩).bind held ?_
    rintro _ skipped held made ⟨less, -⟩
    refine Ends.look_bind (Scan.spanOf_looks (made.rooted rooted).live) fun span _ => ?_
    exact ends_pure ⟨held.weaken (by simp +contextual [mine]), by omega, by rintro _ ⟨⟩⟩
  case h_4 =>
    refine Ends.lift_bind (Scan.unexpected_builds held token _) ?_
    rintro _ reported ⟨held, still, same⟩
    refine ends_pure ⟨held.weaken (by simp +contextual [mine]), shorter.trans still.onward, ?_⟩
    exact .of_node (same ▸ rooted)

theorem callArguments_ends (calls : Meets tables limit)
    (held : Held tables.stoppable base handles state) (ahead : state.AtToken)
    (enough : 8 * state.measure ≤ limit) {operand : Operand}
    (mine : ∀ handle ∈ handlesOf operand, handle ∈ handles) :
    Extends tables base handles (callArguments operand) state fun call after =>
      call.Rooted after.arena ∧ state.Past after := by
  refine (parenthesized_ends calls held.sound ahead enough).bind held ?_
  rintro list read held made less
  have own : ∀ handle ∈ handlesOf operand, handle ∈ handlesOf list ++ handles :=
    fun handle member => List.mem_append_right _ (mine handle member)
  refine Ends.look_bind (Scan.operandSpan_looks held own) fun span _ => ?_
  refine Ends.lift_bind (Scan.calleeOf_builds held own) ?_
  rintro callee called ⟨held, still, -⟩
  have calm := still.calm
  exact ends_pure ⟨held.weaken (by simp), by omega, nofun, by omega⟩

theorem element_ends (calls : Meets tables limit)
    (held : Held tables.stoppable base handles state) (ahead : state.AtToken)
    (enough : 8 * state.measure ≤ limit) {operand : Operand}
    (mine : ∀ handle ∈ handlesOf operand, handle ∈ handles)
    (rooted : operand.Rooted state.arena) :
    Extends tables base handles (element operand) state fun found after =>
      found.Rooted after.arena ∧ state.Past after := by
  refine (skip_ends held.sound ahead).bind held ?_
  rintro _ skipped held made ⟨less, -⟩
  refine Ends.lift_bind (Scan.nodeOf_builds held (by simpa using mine) (rooted.keeps made)) ?_
  rintro receiver built ⟨held, still, -⟩
  have calm := still.calm
  refine (arguments_ends calls held.sound (by omega) _).bind held ?_
  rintro list read held made -
  have shorter := made.keeps.onward
  refine (expect_ends calls held.sound (by omega) (by simp)).bind held ?_
  rintro close closed held made -
  have later := made.keeps.onward
  refine Ends.lift_bind (Scan.intern_builds held _) ?_
  rintro name interned ⟨held, quiet, -⟩
  have silent := quiet.calm
  refine Ends.look_bind (Scan.spanOf_looks (held.live (by simp))) fun span _ => ?_
  refine Ends.lift_bind (Scan.alloc_ends held ?_ _) ?_
  · simp +contextual [handlesOf_arguments, or_imp]
  rintro id stored ⟨held, settled, rooted⟩
  have rest := settled.calm
  exact ends_pure ⟨held.weaken (by simp +contextual), by omega, .of_node rooted, by omega⟩

theorem blockCall_ends (calls : Meets tables limit)
    (held : Held tables.stoppable base handles state) (ahead : state.AtToken)
    (enough : 8 * state.measure ≤ limit) {operand : Operand}
    (mine : ∀ handle ∈ handlesOf operand, handle ∈ handles)
    (takes : operand.takesBlock = true) :
    Extends tables base handles (blockCall operand) state fun call after =>
      call.Rooted after.arena ∧ state.Past after := by
  refine (block_ends calls held.sound ahead enough).bind held ?_
  rintro closure read held made ⟨less, -⟩
  refine Ends.lift_bind (Scan.callOf_builds held (fun handle member =>
    List.mem_append_right _ (mine handle member)) takes) ?_
  rintro call built ⟨later, still, fresh⟩
  have calm := still.calm
  have different : closure ≠ call := by
    rintro rfl
    exact fresh.new (held.live (by simp))
  refine Ends.lift_bind (Scan.giveBlock_builds later (by simp) (by simp) fresh.rooted
    different) ?_
  rintro _ given ⟨held, quiet, rooted⟩
  have silent := quiet.calm
  exact ends_pure ⟨held.weaken (by simp +contextual), by omega, .of_node rooted, by omega⟩

/-! ### Chains -/

/-- A link takes a token, or the operand stays as it is. -/
theorem link?_ends (calls : Meets tables limit) {operand : Operand}
    (held : Held tables.stoppable base (handlesOf operand ++ handles) state)
    (rooted : operand.Rooted state.arena) (enough : 8 * state.measure < limit) :
    Ends tables (link? operand) state fun next? after =>
      match next? with
      | some next => Held tables.stoppable base (handlesOf next ++ handles) after ∧
          next.Rooted after.arena ∧ state.Past after
      | none => Held tables.stoppable base (handlesOf operand ++ handles) after ∧
          operand.Rooted after.arena ∧ state.Onward after := by
  refine (peekKind_ends calls held.sound enough).bind held ?_
  rintro _ peeked held made ⟨token, seen, rfl⟩
  have shorter := made.keeps.onward
  have rooted := rooted.keeps made
  have held : Held tables.stoppable base (handlesOf operand ++ handles) peeked :=
    held.weaken (by simp +contextual)
  have mine : ∀ handle ∈ handlesOf operand, handle ∈ handlesOf operand ++ handles :=
    fun _ => List.mem_append_left _
  let linked : Operand → State → Prop := fun next after =>
    Held tables.stoppable base (handlesOf next ++ handles) after ∧
      next.Rooted after.arena ∧ state.Past after
  let stays : State → Prop := fun after =>
    Held tables.stoppable base (handlesOf operand ++ handles) after ∧
      operand.Rooted after.arena ∧ state.Onward after
  have here : stays peeked := ⟨held, rooted, shorter⟩
  have taking {takes : Bool} {rule : Operand → Parse Operand}
      (makes : takes = true → Extends tables base (handlesOf operand ++ handles) (rule operand)
        peeked fun next after => next.Rooted after.arena ∧ peeked.Past after) :
      Ends tables (do if takes then return some (← rule operand) else return none) peeked
        fun next? after => match next? with
        | some next => linked next after
        | none => stays after := by
    refine Ends.ite (fun holds => Ends.bind (makes holds) ?_) fun _ => ends_pure here
    rintro next after ⟨held, -, rooted, less⟩
    exact ends_pure ⟨held.weaken (by simp +contextual [or_imp]), rooted, by omega⟩
  have dotted (more : token.kind ≠ .endOfInput) {rule : NodeId → Parse Operand}
      (makes : ∀ receiver reached,
        Held tables.stoppable base (.node receiver :: handles) reached →
        8 * reached.measure < limit → reached.arena.Rooted receiver →
        Extends tables base (.node receiver :: handles) (rule receiver) reached
          fun next after => next.Rooted after.arena) :
      Ends tables (do
        skip
        return some (← rule (← Scan.nodeOf operand))) peeked
        fun next? after => match next? with
        | some next => linked next after
        | none => stays after := by
    refine (skip_ends held.sound ⟨token, seen, more⟩).bind held ?_
    rintro _ skipped held made ⟨less, -⟩
    refine Ends.lift_bind (Scan.nodeOf_builds held (fun handle member =>
      List.mem_append_right _ (mine handle member)) (rooted.keeps made)) ?_
    rintro receiver built ⟨held, still, rooted⟩
    have calm := still.calm
    refine Ends.bind (makes receiver built (held.weaken (by simp +contextual)) (by omega)
      rooted) ?_
    rintro next after ⟨held, le, rooted⟩
    exact ends_pure ⟨held.weaken (by simp +contextual [or_imp]), rooted, by omega⟩
  dsimp only
  split
  case h_1 kind =>
    exact taking fun _ => callArguments_ends calls held ⟨token, seen, by simp [kind]⟩
      (by omega) mine
  case h_2 kind =>
    exact taking fun _ => element_ends calls held ⟨token, seen, by simp [kind]⟩ (by omega)
      mine rooted
  case h_3 kind | h_4 kind =>
    exact dotted (by simp [kind]) fun receiver reached held enough rooted =>
      afterDot_ends calls held enough List.mem_cons_self rooted _
  case h_5 kind =>
    exact dotted (by simp [kind]) fun receiver reached held enough rooted =>
      afterColons_ends calls held enough List.mem_cons_self rooted
  case h_6 kind | h_7 kind =>
    exact taking fun takes => blockCall_ends calls held ⟨token, seen, by simp [kind]⟩
      (by omega) mine takes
  case h_8 => exact ends_pure here

theorem chainTurn_ends (calls : Meets tables limit) {operand : Operand}
    (held : Held tables.stoppable base (handlesOf operand ++ handles) state)
    (rooted : operand.Rooted state.arena) (enough : 8 * state.measure < limit) :
    Ends tables (chainTurn operand) state (Turned
      (fun next after => Held tables.stoppable base (handlesOf next ++ handles) after ∧
        next.Rooted after.arena)
      (fun result after => Held tables.stoppable base (handlesOf result ++ handles) after ∧
        result.Rooted after.arena ∧ result = operand ∧ state.Onward after) state) := by
  refine Ends.bind (link?_ends calls held rooted enough) ?_
  rintro next? after linked
  cases next? with
  | some next => exact ends_pure ⟨⟨linked.1, linked.2.1⟩, linked.2.2⟩
  | none => exact ends_pure ⟨linked.1, linked.2.1, rfl, linked.2.2⟩

theorem chainFrom_ends (calls : Meets tables limit) {first : Operand}
    (held : Held tables.stoppable base (handlesOf first ++ handles) state)
    (rooted : first.Rooted state.arena) (enough : 8 * state.measure < limit) :
    Extends tables base handles (chainFrom first) state fun operand after =>
      operand.Rooted after.arena ∧
        (operand.takesArguments = true →
          first.takesArguments = true ∨ state.Past after) := by
  refine loop_ends
    (fun operand current => (Held tables.stoppable base (handlesOf operand ++ handles) current ∧
      operand.Rooted current.arena) ∧
      (operand.takesArguments = true →
        first.takesArguments = true ∨ state.Past current))
    held.sound ⟨⟨held, rooted⟩, .inl⟩ ?_
  rintro operand current ⟨⟨held, rooted⟩, progress⟩ onward
  refine (chainTurn_ends calls held rooted (by omega)).mono ?_
  rintro (next | result) after turned
  · exact ⟨⟨turned.1, fun _ => .inr (onward.past turned.2)⟩, turned.2⟩
  · obtain ⟨kept, root, rfl, later⟩ := turned
    exact ⟨kept, onward.trans later, root, fun takes =>
      (progress takes).imp_right fun past => by omega⟩

theorem chain_ends (calls : Meets tables limit) (sound : state.Sound tables.stoppable)
    (enough : 8 * state.measure + 1 ≤ limit) :
    Makes tables chain state (OperandRead state) := by
  refine Ends.bind (primary_ends calls sound enough) ?_
  rintro operand read ⟨held, first⟩
  have shorter := held.keeps.onward
  have own : Held tables.stoppable state (handlesOf operand ++ []) read := held.weaken (by simp)
  refine Ends.mono (chainFrom_ends calls own first.rooted (by omega)) ?_
  rintro result after ⟨held, le, rooted, progress⟩
  refine ⟨held.weaken (by simp), rooted, fun takes => ?_⟩
  rcases progress takes with before | less
  · have past := first.progress before
    omega
  · omega

/-! ### Commands -/

theorem commandArguments_ends (calls : Meets tables limit)
    (sound : state.Sound tables.stoppable) (enough : 8 * state.measure + 5 < limit) :
    Makes tables commandArguments state fun _ _ => True := by
  refine Ends.get_bind ?_
  refine Ends.lift_bind (Scan.setFlags_builds (Held.refl sound) rfl rfl rfl rfl rfl) ?_
  rintro _ pushed ⟨held, still, -⟩
  have calm := still.calm
  refine (arguments_ends calls held.sound (by omega) none).bind held ?_
  rintro list read held - -
  refine Ends.lift_bind (Scan.setFlags_builds held rfl rfl rfl rfl rfl) ?_
  rintro _ popped ⟨held, -⟩
  exact makes_pure (held.weaken (by simp)) trivial

theorem commandBlock_ends (calls : Meets tables limit)
    (held : Held tables.stoppable base handles state) (ahead : state.AtToken)
    (enough : 8 * state.measure ≤ limit) {call : NodeId} (mine : .node call ∈ handles)
    (rooted : state.arena.Rooted call) :
    Extends tables base handles (commandBlock call) state fun id after =>
      after.arena.Rooted id := by
  refine (block_ends calls held.sound ahead enough).bind held ?_
  rintro closure read held made ⟨less, new⟩
  have different : closure ≠ call := by
    rintro rfl
    exact new rooted.live
  refine Ends.lift_bind (Scan.giveBlock_builds held (by simp [mine]) (by simp)
    (made.rooted rooted) different) ?_
  rintro _ given ⟨held, still, rooted⟩
  have calm := still.calm
  have own : Held tables.stoppable base (handlesOf (Operand.node call) ++ handles) given :=
    held.weaken (by simp +contextual [mine])
  refine Ends.bind (chainFrom_ends calls own (.of_node rooted) (by omega)) ?_
  rintro operand chained ⟨held, le, rooted, progress⟩
  refine (finishCommand_ends calls held (by simp +contextual) rooted (by omega) ?_ .accepted
    false).since (by omega) (by simp +contextual) fun _ _ _ rooted => rooted
  intro takes
  rcases progress takes with first | fewer
  · cases first
  · omega

theorem command_ends (calls : Meets tables limit)
    (held : Held tables.stoppable base handles state) {head : Operand}
    (mine : ∀ handle ∈ handlesOf head, handle ∈ handles)
    (enough : 8 * state.measure + 6 ≤ limit) (allowBlock : Bool) :
    Extends tables base handles (command head allowBlock) state fun id after =>
      after.arena.Rooted id := by
  refine Ends.look_bind (Scan.operandSpan_looks held mine) fun span _ => ?_
  refine Ends.mono (deeper_ends span.start held
    (fun id after => state.Onward after ∧ after.arena.Rooted id) (fun _ _ _ => id) ?_)
    fun _ _ made => made
  rintro deep held still -
  have calm := still.calm
  refine (commandArguments_ends calls held.sound (by omega)).bind held ?_
  rintro list read held made -
  have shorter := made.keeps.onward
  refine Ends.lift_bind (Scan.callWith_builds held (fun handle member =>
    List.mem_append_right _ (mine handle member)) (by simp +contextual)) ?_
  rintro call built ⟨held, quiet, made⟩
  have silent := quiet.calm
  have done : Held tables.stoppable base (handlesOf call ++ handles) built :=
    held.weaken (by simp +contextual [or_imp])
  refine Ends.ite (fun _ => ends_pure ⟨done, by omega, made.rooted⟩) fun _ => ?_
  refine (peekKind_ends calls held.sound (by omega)).bind done ?_
  rintro _ peeked held looked ⟨token, seen, rfl⟩
  have later := looked.keeps.onward
  have rooted := looked.rooted made.rooted
  split
  case h_1 kind | h_2 kind =>
    exact (commandBlock_ends calls held ⟨token, seen, by simp [kind]⟩ (by omega) (by simp)
      rooted).since (by omega) (by simp +contextual) fun _ _ _ rooted => rooted
  case h_3 => exact ends_pure ⟨held.weaken (by simp +contextual), by omega, rooted⟩

end Parse

end RubySyntax
