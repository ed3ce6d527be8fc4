/-
Operators, from the unary ones that bind most tightly to the conditional
operator, and assignments.

An operand that arguments can still follow took a token, which pays for the
command that it may become.
-/

import RubySyntax.Proofs.Grammar.Chain
import RubySyntax.Grammar.Operator

namespace RubySyntax

namespace Parse

variable {tables : Tables} {limit : Nat} {base state : State} {handles : List Handle}

/-! ### Assignments -/

theorem splatValues_ends (calls : Meets tables limit) (sound : state.Sound tables.stoppable)
    (ahead : state.AtToken) (enough : 8 * state.measure < limit) :
    Makes tables splatValues state fun _ _ => True := by
  refine Ends.bind (splatItem_ends calls sound ahead (by omega)) ?_
  rintro first read ⟨held, -⟩
  have shorter := held.keeps.onward
  refine (moreValues_ends calls held.sound (by omega)).bind held ?_
  rintro others followed held - -
  exact (valueArray_ends held (by simp +contextual)).makes fun _ _ _ _ => trivial

theorem assignedValue_ends (calls : Meets tables limit) (sound : state.Sound tables.stoppable)
    (enough : 8 * state.measure + 5 < limit) (rule : CommandRule) :
    Makes tables (assignedValue rule) state fun _ _ => True := by
  refine Ends.bind (peekKind_ends calls sound (by omega)) ?_
  rintro _ peeked ⟨held, token, seen, rfl⟩
  have shorter := held.keeps.onward
  refine Ends.ite (fun star => ?_) fun _ => ?_
  · exact ((splatValues_ends calls held.sound ⟨token, seen, by simp [star]⟩
      (by omega)).extends held).makes fun _ _ _ _ => trivial
  refine (calls.argument rule peeked held.sound (by omega)).bind held ?_
  rintro operand read held made ⟨rooted, progress⟩
  have later := made.keeps.onward
  have rescued {value : NodeId} {isCommand : Bool} {reached : State}
      (held : Held tables.stoppable state [.node value] reached)
      (le : state.Onward reached) :
      Ends tables (do
        Scan.requireValue value
        if (← peekKind) = .keyword .rescueModifier && !isCommand then
          skip
          let fallback ← argumentValue
          let shape ← rescueShape value fallback
          Scan.alloc shape (← Scan.spanOfBoth value fallback)
        else return value) reached fun id after =>
          Held tables.stoppable state (handlesOf id) after ∧ True := by
    refine Ends.lift_bind (Scan.requireValue_builds held (held.live (by simp))) ?_
    rintro _ required ⟨held, still, -⟩
    have calm := still.calm
    refine (peekKind_ends calls held.sound (by omega)).bind held ?_
    rintro _ followed held made ⟨token, seen, rfl⟩
    have fewer := made.keeps.onward
    refine Ends.ite (fun found => ?_) fun _ => makes_pure (held.weaken (by simp)) trivial
    rw [Bool.and_eq_true, decide_eq_true_eq] at found
    refine (skip_ends held.sound ⟨token, seen, by simp [found.1]⟩).bind held ?_
    rintro _ skipped held - ⟨less, -⟩
    refine (argumentValue_ends calls held.sound (by omega)).bind held ?_
    rintro fallback read held - -
    refine Ends.bind (rescueShape_ends held (by simp) (by simp)) ?_
    rintro shape shaped ⟨held, -⟩
    refine Ends.look_bind (Scan.spanOfBoth_looks (held.live (by simp)) (held.live (by simp))) ?_
    intro span _
    exact (extends_lift (Scan.alloc_ends held (by simp +contextual) span)).makes
      fun _ _ _ _ => trivial
  refine Ends.made_or_value (fun _ reached => Held tables.stoppable state (handlesOf operand)
    reached ∧ operand.Rooted reached.arena ∧ read.Onward reached)
    (fun _ => ?_) (fun _ => ⟨held.weaken (by simp +contextual), rooted, .refl _⟩) ?_
  · refine Ends.mono (peekKind_ends calls held.sound (by omega)) ?_
    rintro kind looked ⟨made, -⟩
    exact ⟨(held.trans made).weaken (by simp +contextual), rooted.keeps made, made.keeps.onward⟩
  rintro isCommand looked ⟨held, rooted, le⟩
  refine Ends.ite (fun _ => ?_) fun _ => ?_
  · refine Ends.lift_bind (Scan.nodeOf_builds held (by simp) rooted) ?_
    rintro value built ⟨held, still, -⟩
    have calm := still.calm
    exact rescued (held.weaken (by simp)) (by omega)
  · refine Ends.bind (finishCommand_ends calls held (by simp) rooted (by omega)
      (fun takes => ?_) rule true) ?_
    · have less := progress takes
      omega
    rintro value finished ⟨held, fewer, -⟩
    exact rescued (held.weaken (by simp)) (by omega)

theorem assignment_ends (calls : Meets tables limit) {operand : Operand}
    (held : Held tables.stoppable base (handlesOf operand) state) (ahead : state.AtToken)
    (enough : 8 * state.measure ≤ limit) (rooted : operand.Rooted state.arena)
    (rule : CommandRule) {shape : NodeId → NodeId → Shape NodeId}
    (mine : ∀ target value, ∀ handle ∈ handlesOf (shape target value),
      handle = .node target ∨ handle = .node value) :
    Ends tables (do
      skip
      let target ← Scan.targetOf operand
      let value ← assignedValue rule
      return Operand.node (← Scan.alloc (shape target value) (← Scan.spanOfBoth target value)))
      state fun result after =>
        Held tables.stoppable base (handlesOf result) after ∧ OperandRead state result after := by
  refine (skip_ends held.sound ahead).bind held ?_
  rintro _ skipped held made ⟨less, -⟩
  refine Ends.lift_bind (Scan.targetOf_ends (held.weaken (by simp)) (rooted.keeps made)) ?_
  rintro target aimed ⟨held, still⟩
  have calm := still.calm
  refine (assignedValue_ends calls held.sound (by omega) rule).bind held ?_
  rintro value read held - -
  refine Ends.look_bind (Scan.spanOfBoth_looks (held.live (by simp)) (held.live (by simp))) ?_
  intro span _
  refine Ends.lift_bind (Scan.alloc_ends held (fun handle member => ?_) span) ?_
  · rcases mine target value handle member with rfl | rfl <;> simp
  rintro id stored ⟨held, -, rooted⟩
  exact makes_pure (held.weaken (by simp)) (.of_node rooted)

theorem operand_ends (calls : Meets tables limit) (sound : state.Sound tables.stoppable)
    (enough : 8 * state.measure + 2 ≤ limit) (rule : CommandRule) :
    Makes tables (operand rule) state (OperandRead state) := by
  refine Ends.bind (calls.chain state sound (by omega)) ?_
  rintro operand read ⟨held, first⟩
  have shorter := held.keeps.onward
  refine (peekToken_ends calls held.sound (by omega)).bind held ?_
  rintro token peeked held made ⟨seen, -⟩
  have later := made.keeps.onward
  have rooted := first.rooted.keeps made
  have read : OperandRead state operand peeked :=
    ⟨rooted, fun takes => by have past := first.progress takes; omega⟩
  refine Ends.look_bind (Scan.isAssignable_looks held (by simp +contextual)) fun assignable _ => ?_
  have stays : Ends tables (pure operand) peeked fun result after =>
      Held tables.stoppable state (handlesOf result) after ∧ OperandRead state result after :=
    makes_pure (held.weaken (by simp +contextual)) read
  split
  case h_1 kind | h_2 kind =>
    refine Ends.ite (fun _ => stays) fun _ => ?_
    refine Ends.mono (assignment_ends calls (held.weaken (by simp +contextual))
      ⟨token, seen, by simp [kind]⟩ (by omega) rooted rule (by simp)) ?_
    exact fun _ _ made => ⟨made.1, made.2.since (by omega)⟩
  case h_3 =>
    refine Ends.ite (fun found => ?_) fun _ => stays
    have takes : operand.takesArguments = true := by
      simp only [Bool.and_eq_true] at found
      exact found.1.2
    have less := first.progress takes
    refine Ends.lift_bind (Scan.report_builds held _ _) ?_
    rintro _ reported ⟨held, still, -⟩
    have calm := still.calm
    refine Ends.bind (calls.command operand false state _ reported held (by simp +contextual)
      (by omega)) ?_
    rintro id called ⟨held, -, rooted⟩
    exact makes_pure (held.weaken (by simp)) (.of_node rooted)

/-! ### Unary operators -/

theorem deeper_makes {α : Type} [HasHandles α] {step : Parse α} (position : Nat)
    (sound : state.Sound tables.stoppable) (post : α → State → Prop)
    (level : ∀ result after depth, post result after → post result { after with depth })
    (makes : ∀ deep, deep.Sound tables.stoppable →
      deep.measure = state.measure ∧ deep.ordinal = state.ordinal →
      Makes tables step deep post) :
    Makes tables (deeper position step) state post := by
  refine Ends.mono (deeper_ends position (Held.refl sound) post level
    fun deep held still _ => ?_) fun result after made => ⟨made.1.weaken (by simp), made.2⟩
  exact Ends.mono (makes deep held.sound still.calm) fun result after made =>
    ⟨held.trans made.1, made.2⟩

theorem deeperOperand_ends {step : Parse Operand} (position : Nat)
    (sound : state.Sound tables.stoppable)
    (makes : ∀ deep, deep.Sound tables.stoppable →
      deep.measure = state.measure ∧ deep.ordinal = state.ordinal →
      Makes tables step deep (OperandRead deep)) :
    Makes tables (deeper position step) state (OperandRead state) :=
  deeper_makes position sound (OperandRead state)
    (fun _ _ _ read => ⟨read.rooted, read.progress⟩) fun deep sound same =>
      (makes deep sound same).mono fun _ _ _ read => read.since (by omega)

theorem bangOperand_ends (calls : Meets tables limit) {read : Operand}
    (held : Held tables.stoppable base (handlesOf read) state)
    (rooted : read.Rooted state.arena) (enough : 8 * state.measure < limit)
    (room : read.takesArguments = true → 8 * state.measure + 6 < limit)
    (rule : CommandRule) (mark : Span) :
    Ends tables (bangOperand rule mark read) state fun result after =>
      Held tables.stoppable base (handlesOf result) after ∧ OperandRead state result after := by
  refine Ends.bind (finishCommand_ends calls held (by simp) rooted enough room rule false) ?_
  rintro node finished ⟨held, -⟩
  refine Ends.lift_bind (Scan.requireValue_builds held (held.live (by simp))) ?_
  rintro _ required ⟨held, -⟩
  refine Ends.lift_bind (Scan.condition_builds held (by simp)) ?_
  rintro negated conditioned ⟨held, -⟩
  refine Ends.look_bind (Scan.spanOf_looks (held.live (by simp))) fun span _ => ?_
  refine Ends.lift_bind (Scan.alloc_ends held (by simp) _) ?_
  rintro id stored ⟨held, -, rooted⟩
  exact makes_pure (held.weaken (by simp)) (.of_node rooted)

theorem unary_ends (calls : Meets tables limit) (sound : state.Sound tables.stoppable)
    (enough : 8 * state.measure + 2 ≤ limit) (rule : CommandRule) :
    Makes tables (unary rule) state (OperandRead state) := by
  refine Ends.bind (peekToken_ends calls sound (by omega)) ?_
  rintro token peeked ⟨held, seen, -⟩
  have shorter := held.keeps.onward
  refine Ends.ite (fun bang => ?_) fun _ => ?_
  · refine (skip_ends held.sound ⟨token, seen, by simp [bang]⟩).bind held ?_
    rintro _ skipped held - ⟨less, -⟩
    refine (deeperOperand_ends _ held.sound fun deep sound same =>
      calls.unary rule deep sound (by omega)).bind held ?_
    rintro operand read held made ⟨rooted, progress⟩
    have later := made.keeps.onward
    refine Ends.mono (bangOperand_ends calls (held.weaken (by simp +contextual)) rooted (by omega)
      (fun takes => ?_) rule token.span) fun _ _ made => ⟨made.1, made.2.since (by omega)⟩
    have fewer := progress takes
    omega
  split
  · refine Ends.mono (operand_ends calls held.sound (by omega) rule) fun _ _ made => ?_
    exact ⟨(held.trans made.1).weaken (by simp +contextual), made.2.since shorter⟩
  · next name named =>
      have more : token.kind ≠ .endOfInput := by
        intro ended
        rw [ended] at named
        cases named
      refine (skip_ends held.sound ⟨token, seen, more⟩).bind held ?_
      rintro _ skipped held - ⟨less, -⟩
      refine (deeperOperand_ends _ held.sound fun deep sound same =>
        calls.unary rule deep sound (by omega)).bind held ?_
      rintro operand read held - ⟨rooted, -⟩
      refine Ends.lift_bind (Scan.nodeOf_builds held (by simp +contextual) rooted) ?_
      rintro node built ⟨held, -⟩
      refine Ends.lift_bind (Scan.requireValue_builds held (held.live (by simp))) ?_
      rintro _ required ⟨held, -⟩
      refine Ends.lift_bind (Scan.unaryCall_builds held (by simp) name token.span) ?_
      rintro id stored ⟨held, -, rooted⟩
      exact makes_pure (held.weaken (by simp)) (.of_node rooted)

/-! ### Powers -/

theorem takeSignOf_ends (held : Held tables.stoppable base handles state) {id : NodeId}
    (mine : .node id ∈ handles) (first : Token) :
    Ends tables (takeSignOf first id) state fun _ after =>
      Held tables.stoppable base handles after ∧ Still state after := by
  have unsigned {node : Node} (found : state.arena.get? id = some node) {shape : Shape NodeId}
      (plain : ¬node.shape.IsSymbol) (filled : node.shape ≠ .text .string [])
      (children : shape.children = node.shape.children)
      (joined : shape.joined = node.shape.joined) (called : shape.called = node.shape.called) :
      Ends tables (do
        Scan.modifyNode id fun node =>
          { node with shape, span := { node.span with start := node.span.start + 1 } }
        return true) state fun _ after =>
          Held tables.stoppable base handles after ∧ Still state after := by
    have changed : Scan.Ends (Scan.modifyNode id fun node =>
        { node with shape, span := { node.span with start := node.span.start + 1 } }) state
        fun _ after => Held tables.stoppable base handles after ∧ Still state after :=
      Scan.modifyNode_ends found fun arena puts free =>
        ⟨held.reshape_same mine found plain filled children joined called puts
          (free held.sound.store.free), rfl, rfl, rfl⟩
    exact Ends.lift_bind changed fun _ _ done => ends_pure done
  have live := held.live mine
  refine Ends.look_bind (Scan.spanOf_looks live) fun span _ => ?_
  refine Ends.ite (fun _ => ?_) fun _ => ends_pure ⟨held, Still.refl state⟩
  refine Ends.look_bind (Scan.shapeOf_looks live) ?_
  rintro _ ⟨node, found, rfl⟩
  split
  case h_1 value shape | h_2 value shape =>
    exact unsigned found (by rw [shape]; rintro ⟨⟩) (by rw [shape]; rintro ⟨⟩) (by rw [shape]; rfl)
      (by rw [shape]; rfl) (by rw [shape]; rfl)
  case h_3 => exact ends_pure ⟨held, Still.refl state⟩

theorem power_ends (calls : Meets tables limit) (sound : state.Sound tables.stoppable)
    (enough : 8 * state.measure + 2 ≤ limit) (rule : CommandRule) :
    Makes tables (power rule) state (OperandRead state) := by
  refine Ends.bind (peekToken_ends calls sound (by omega)) ?_
  rintro first peeked ⟨held, -⟩
  have shorter := held.keeps.onward
  refine (unary_ends calls held.sound (by omega) rule).bind held ?_
  rintro operand read held made ⟨rooted, progress⟩
  have later := made.keeps.onward
  refine (peekToken_ends calls held.sound (by omega)).bind held ?_
  rintro token followed held made ⟨seen, -⟩
  have further := made.keeps.onward
  have rooted := rooted.keeps made
  refine Ends.ite (fun _ => ?_) fun other => ?_
  · refine makes_pure (held.weaken (by simp +contextual)) ⟨rooted, fun takes => ?_⟩
    have less := progress takes
    omega
  have kind : token.kind = .punct .power := by simpa using other
  refine (skip_ends held.sound ⟨token, seen, by simp [kind]⟩).bind held ?_
  rintro _ skipped held made ⟨less, -⟩
  refine Ends.lift_bind (Scan.nodeOf_builds held (by simp +contextual) (rooted.keeps made)) ?_
  rintro base built ⟨held, still, -⟩
  have calm := still.calm
  refine Ends.bind (takeSignOf_ends held (by simp) first) ?_
  rintro negated unsigned ⟨held, quiet⟩
  have silent := quiet.calm
  refine (deeperOperand_ends _ held.sound fun deep sound same =>
    calls.minus .reported deep sound (by omega)).bind held ?_
  rintro raisedTo read held - ⟨rooted, -⟩
  refine Ends.lift_bind (Scan.nodeOf_builds held (by simp +contextual) rooted) ?_
  rintro exponent built ⟨held, -⟩
  refine Ends.lift_bind (Scan.requireValue_builds held (held.live (by simp))) ?_
  rintro _ required ⟨held, -⟩
  refine Ends.lift_bind (Scan.requireValue_builds held (held.live (by simp))) ?_
  rintro _ required ⟨held, -⟩
  refine Ends.lift_bind (Scan.intern_builds held _) ?_
  rintro name interned ⟨held, -⟩
  refine Ends.look_bind (Scan.spanOfBoth_looks (held.live (by simp)) (held.live (by simp))) ?_
  intro span _
  refine Ends.lift_bind (Scan.binaryCall_builds held (by simp) (by simp) name span) ?_
  rintro raised stored ⟨held, -, rooted⟩
  refine Ends.ite (fun _ => ?_) fun _ => makes_pure (held.weaken (by simp)) (.of_node rooted)
  refine Ends.lift_bind (Scan.unaryCall_builds held (by simp) "-@" first.span) ?_
  rintro id stored ⟨held, -, rooted⟩
  exact makes_pure (held.weaken (by simp)) (.of_node rooted)

theorem minus_ends (calls : Meets tables limit) (sound : state.Sound tables.stoppable)
    (enough : 8 * state.measure + 2 ≤ limit) (rule : CommandRule) :
    Makes tables (minus rule) state (OperandRead state) := by
  refine Ends.bind (peekToken_ends calls sound (by omega)) ?_
  rintro token peeked ⟨held, seen, -⟩
  have shorter := held.keeps.onward
  refine Ends.ite (fun sign => ?_) fun _ => ?_
  · refine (skip_ends held.sound ⟨token, seen, by simp [sign]⟩).bind held ?_
    rintro _ skipped held - ⟨less, -⟩
    refine (deeperOperand_ends _ held.sound fun deep sound same =>
      calls.minus rule deep sound (by omega)).bind held ?_
    rintro operand read held - ⟨rooted, -⟩
    refine Ends.lift_bind (Scan.nodeOf_builds held (by simp +contextual) rooted) ?_
    rintro node built ⟨held, -⟩
    refine Ends.lift_bind (Scan.unaryCall_builds held (by simp) "-@" token.span) ?_
    rintro id stored ⟨held, -, rooted⟩
    exact makes_pure (held.weaken (by simp)) (.of_node rooted)
  · refine Ends.mono (power_ends calls held.sound (by omega) rule) fun _ _ made => ?_
    exact ⟨(held.trans made.1).weaken (by simp +contextual), made.2.since shorter⟩

/-! ### Operators between two operands -/

theorem binaryNode_ends (held : Held tables.stoppable base handles state) {left right : NodeId}
    (first : .node left ∈ handles) (second : .node right ∈ handles) (mark : Punct) :
    Extends tables base handles (binaryNode mark left right) state fun id after =>
      after.arena.Rooted id := by
  refine Ends.look_bind (Scan.spanOfBoth_looks (held.live first) (held.live second)) ?_
  intro span _
  split
  case h_1 | h_2 => exact extends_lift (Scan.alloc_ends held (by simp [first, second]) span)
  case h_3 =>
    refine Ends.lift_bind (Scan.requireValue_builds held (held.live first)) ?_
    rintro _ required ⟨held, still, -⟩
    refine Ends.lift_bind (Scan.requireValue_builds held (held.live (by simp [second]))) ?_
    rintro _ again ⟨held, quiet, -⟩
    refine Ends.lift_bind (Scan.intern_builds held _) ?_
    rintro name interned ⟨held, silent, -⟩
    exact (extends_lift (Scan.binaryCall_builds held (by simp [first]) (by simp [second]) name
      span)).since ((still.trans quiet).trans silent).onward (by simp +contextual)
      fun _ _ _ rooted => rooted

theorem binaryTurn_ends (calls : Meets tables limit) {left : Operand}
    (held : Held tables.stoppable base (handlesOf left) state)
    (rooted : left.Rooted state.arena) (enough : 8 * state.measure + 2 ≤ limit)
    (least : Nat) (previous : Option Nat) :
    Ends tables (binaryTurn least (left, previous)) state (Turned
      (fun next after => Held tables.stoppable base (handlesOf next.1) after ∧
        OperandRead state next.1 after)
      (fun result after => Held tables.stoppable base (handlesOf result) after ∧
        result.Rooted after.arena ∧ result = left ∧ state.Onward after) state) := by
  refine (peekToken_ends calls held.sound (by omega)).bind held ?_
  rintro token peeked held made ⟨seen, -⟩
  have later := made.keeps.onward
  have rooted := rooted.keeps made
  have own : Held tables.stoppable base (handlesOf left) peeked :=
    held.weaken (by simp +contextual)
  split
  · exact ends_pure ⟨own, rooted, rfl, later⟩
  · next mark level found =>
      have more : token.kind ≠ .endOfInput := by
        intro ended
        rw [ended] at found
        cases found
      refine Ends.ite (fun _ => ends_pure ⟨own, rooted, rfl, later⟩) fun _ => ?_
      refine Ends.when (fun reached => Held tables.stoppable base (handlesOf left) reached ∧
        left.Rooted reached.arena ∧ Still peeked reached) (fun _ => ?_)
        (fun _ => ⟨own, rooted, Still.refl peeked⟩) ?_
      · refine (ends_lift (Scan.report_builds own _ _)).mono ?_
        rintro _ reported ⟨held, still, same⟩
        exact ⟨held, same ▸ rooted, still⟩
      rintro reached ⟨held, rooted, still⟩
      have calm := still.calm
      refine (skip_ends held.sound ⟨token, still.lookahead.trans seen, more⟩).bind held ?_
      rintro _ skipped held made ⟨past, -⟩
      refine Ends.lift_bind (Scan.nodeOf_builds held (by simp) (rooted.keeps made)) ?_
      rintro leftNode built ⟨held, quiet, -⟩
      have silent := quiet.calm
      refine (calls.binary .reported (level + 1) built held.sound (by omega)).bind held ?_
      rintro right read held made ⟨rooted, -⟩
      have further := made.keeps.onward
      refine Ends.lift_bind (Scan.nodeOf_builds held (by simp +contextual) rooted) ?_
      rintro rightNode built ⟨held, settled, -⟩
      have rest := settled.calm
      refine Ends.bind (binaryNode_ends held (by simp) (by simp) mark) ?_
      rintro id stored ⟨held, onward, rooted⟩
      exact ends_pure ⟨⟨held.weaken (by simp), .of_node rooted⟩, by omega⟩

theorem binary_ends (calls : Meets tables limit) (sound : state.Sound tables.stoppable)
    (enough : 8 * state.measure + 2 ≤ limit) (rule : CommandRule) (least : Nat) :
    Makes tables (binary rule least) state (OperandRead state) := by
  refine Ends.bind (minus_ends calls sound enough rule) ?_
  rintro first read ⟨held, start⟩
  have shorter := held.keeps.onward
  refine loop_ends
    (fun (operand : Operand × Option Nat) current =>
      Held tables.stoppable state (handlesOf operand.1) current ∧
        OperandRead state operand.1 current) held.sound ⟨held, start⟩ ?_
  rintro ⟨left, previous⟩ current ⟨held, read⟩ onward
  refine (binaryTurn_ends calls held read.rooted (by omega) least previous).mono ?_
  rintro (next | result) after turned
  · exact ⟨⟨turned.1.1, turned.1.2.since (by omega)⟩, turned.2⟩
  · obtain ⟨kept, root, rfl, later⟩ := turned
    refine ⟨kept, root, fun takes => ?_⟩
    have past := read.progress takes
    omega

theorem range_ends (calls : Meets tables limit) (sound : state.Sound tables.stoppable)
    (enough : 8 * state.measure + 2 ≤ limit) (rule : CommandRule) :
    Makes tables (range rule) state (OperandRead state) := by
  refine Ends.bind (binary_ends calls sound enough rule 1) ?_
  rintro first read ⟨held, rooted, progress⟩
  have shorter := held.keeps.onward
  refine (peekKind_ends calls held.sound (by omega)).bind held ?_
  rintro _ peeked held made ⟨token, seen, rfl⟩
  have later := made.keeps.onward
  have rooted := rooted.keeps made
  have both (more : token.kind ≠ .endOfInput) (form : BinaryForm) : Ends tables (do
      skip
      let left ← Scan.nodeOf first
      let right ← Scan.nodeOf (← binary .reported 1)
      Scan.requireValue left
      Scan.requireValue right
      return Operand.node
        (← Scan.alloc (.binary form left right) (← Scan.spanOfBoth left right))) peeked
      fun result after =>
        Held tables.stoppable state (handlesOf result) after ∧ OperandRead state result after := by
    refine (skip_ends held.sound ⟨token, seen, more⟩).bind held ?_
    rintro _ skipped held made ⟨less, -⟩
    refine Ends.lift_bind (Scan.nodeOf_builds held (by simp +contextual) (rooted.keeps made)) ?_
    rintro left built ⟨held, still, -⟩
    have calm := still.calm
    refine (binary_ends calls held.sound (by omega) .reported 1).bind held ?_
    rintro operand read held - ⟨rooted, -⟩
    refine Ends.lift_bind (Scan.nodeOf_builds held (by simp +contextual) rooted) ?_
    rintro right built ⟨held, -⟩
    refine Ends.lift_bind (Scan.requireValue_builds held (held.live (by simp))) ?_
    rintro _ required ⟨held, -⟩
    refine Ends.lift_bind (Scan.requireValue_builds held (held.live (by simp))) ?_
    rintro _ required ⟨held, -⟩
    refine Ends.look_bind (Scan.spanOfBoth_looks (held.live (by simp)) (held.live (by simp))) ?_
    intro span _
    refine Ends.lift_bind (Scan.alloc_ends held (by simp) span) ?_
    rintro id stored ⟨held, -, rooted⟩
    exact makes_pure (held.weaken (by simp)) (.of_node rooted)
  dsimp only
  split
  · refine makes_pure (held.weaken (by simp +contextual)) ⟨rooted, fun takes => ?_⟩
    have less := progress takes
    omega
  · next form found =>
      refine both ?_ form
      intro ended
      rw [ended] at found
      cases found

theorem branches_ends (calls : Meets tables limit) {read : Operand}
    (held : Held tables.stoppable base (handlesOf read) state)
    (rooted : read.Rooted state.arena) (enough : 8 * state.measure + 5 < limit) :
    Ends tables (branches read) state fun result after =>
      Held tables.stoppable base (handlesOf result) after ∧ OperandRead state result after := by
  refine Ends.lift_bind (Scan.nodeOf_builds held (by simp) rooted) ?_
  rintro node built ⟨held, still, -⟩
  refine Ends.lift_bind (Scan.requireValue_builds held (held.live (by simp))) ?_
  rintro _ required ⟨held, quiet, -⟩
  refine Ends.lift_bind (Scan.condition_builds held (by simp)) ?_
  rintro condition conditioned ⟨held, silent, -⟩
  have calm := ((still.trans quiet).trans silent).calm
  refine (skipNewlines_ends calls held.sound (by omega)).bind held ?_
  rintro _ skipped held made -
  have shorter := made.keeps.onward
  refine (argument_ends calls held.sound (by omega) .reported).bind held ?_
  rintro whenTrue read held made -
  have later := made.keeps.onward
  refine (skipNewlines_ends calls held.sound (by omega)).bind held ?_
  rintro _ passed held made -
  have further := made.keeps.onward
  refine (expect_ends calls held.sound (by omega) (by simp)).bind held ?_
  rintro _ expected held made -
  have fewer := made.keeps.onward
  refine (skipNewlines_ends calls held.sound (by omega)).bind held ?_
  rintro _ skipped held made -
  have last := made.keeps.onward
  refine (argument_ends calls held.sound (by omega) .reported).bind held ?_
  rintro whenFalse read held - -
  refine Ends.look_bind (Scan.spanOfBoth_looks (held.live (by simp)) (held.live (by simp))) ?_
  intro span _
  refine Ends.lift_bind (Scan.alloc_ends held (by simp) span) ?_
  rintro id stored ⟨held, -, rooted⟩
  exact makes_pure (held.weaken (by simp)) (.of_node rooted)

theorem argumentOperand_ends (calls : Meets tables limit)
    (sound : state.Sound tables.stoppable) (enough : 8 * state.measure + 5 ≤ limit)
    (rule : CommandRule) :
    Makes tables (argumentOperand rule) state (OperandRead state) := by
  refine Ends.bind (peekToken_ends calls sound (by omega)) ?_
  rintro token peeked ⟨held, -⟩
  have shorter := held.keeps.onward
  refine Ends.mono (deeperOperand_ends token.span.start held.sound fun deep sound same => ?_)
    fun _ _ made =>
      ⟨(held.trans made.1).weaken (by simp +contextual), made.2.since shorter⟩
  refine Ends.bind (range_ends calls sound (by omega) rule) ?_
  rintro operand read ⟨held, rooted, progress⟩
  have later := held.keeps.onward
  refine (accept_ends calls held.sound (by omega) (by simp)).bind held ?_
  rintro found accepted held made less
  have further := made.keeps.onward
  have rooted := rooted.keeps made
  refine Ends.ite (fun again => ?_) fun _ => ?_
  · have less := less again
    exact Ends.mono (branches_ends calls (held.weaken (by simp)) rooted (by omega))
      fun _ _ made => ⟨made.1, made.2.since (by omega)⟩
  · refine makes_pure (held.weaken (by simp)) ⟨rooted, fun takes => ?_⟩
    have less := progress takes
    omega

theorem negation_ends (calls : Meets tables limit) (sound : state.Sound tables.stoppable)
    (enough : 8 * state.measure + 6 ≤ limit) (rule : CommandRule) :
    Makes tables (negation rule) state fun id after => after.arena.Rooted id := by
  refine Ends.bind (peekToken_ends calls sound (by omega)) ?_
  rintro token peeked ⟨held, seen, -⟩
  have shorter := held.keeps.onward
  refine Ends.ite (fun word => ?_) fun _ => ?_
  · refine (skip_ends held.sound ⟨token, seen, by simp [word]⟩).bind held ?_
    rintro _ skipped held - ⟨less, -⟩
    refine (deeper_makes _ held.sound (fun id after => after.arena.Rooted id) (fun _ _ _ => id)
      fun deep sound same => calls.negation rule deep sound (by omega)).bind held ?_
    rintro node read held - -
    refine Ends.lift_bind (Scan.condition_builds held (by simp)) ?_
    rintro negated conditioned ⟨held, -⟩
    refine Ends.look_bind (Scan.spanOf_looks (held.live (by simp))) fun span _ => ?_
    exact (extends_lift (Scan.alloc_ends held (by simp) _)).makes fun _ _ _ rooted => rooted
  · refine (calls.argument rule peeked held.sound (by omega)).bind held ?_
    rintro operand read held made ⟨rooted, progress⟩
    have later := made.keeps.onward
    refine (finishCommand_ends calls held (by simp +contextual) rooted (by omega)
      (fun takes => ?_) rule true).makes fun _ _ _ rooted => rooted
    have less := progress takes
    omega

end Parse

end RubySyntax
