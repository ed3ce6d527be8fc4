/-
Heredocs and their bodies.

The node of a heredoc is made where the heredoc is opened, and its body is
filled in when the line has been read. By then other nodes refer to that node,
so filling it in could close a cycle. It does not, as what a body is made of
was made since the body began, unless the key of a quoted label was waiting
then. A watched run stops where one does.
-/

import RubySyntax.Proofs.Grammar.Literal

namespace RubySyntax

variable {strict : Prop} {base state after : State} {handles : List Handle}

/-- What was alive at the start is not reached from what is new, if no key was
waiting then. -/
theorem Keeps.not_reaches (keeps : Keeps base state) (noKey : base.quotedKey = none)
    {first last : NodeId} (old : base.arena.Live last) (new : ¬base.arena.Live first) :
    ¬Relation.ReflTransGen state.arena.Child first last := by
  intro path
  induction path using Relation.ReflTransGen.head_induction_on with
  | refl => exact new old
  | @head parent child step _ ih =>
      by_cases alive : base.arena.Live child
      · rcases keeps.edges parent child alive step with before | key
        · exact new before.live
        · rw [noKey] at key
          cases key
      · exact ih alive

namespace Scan

/-! ### The queue of heredocs -/

theorem giveNode_awaited (node : NodeId) : ∀ queue : List PendingHeredoc,
    ((giveNode node queue).filterMap (·.node)).Perm (node :: queue.filterMap (·.node)) ∨
      (giveNode node queue).filterMap (·.node) = queue.filterMap (·.node)
  | [] => .inr rfl
  | pending :: queue => by
      unfold giveNode
      split
      · next last =>
          rw [Bool.and_eq_true, Option.isNone_iff_eq_none] at last
          simp [last.1]
      · have rest := giveNode_awaited node queue
        cases given : pending.node with
        | none => simpa [given] using rest
        | some other =>
            simp only [List.filterMap_cons, given]
            refine rest.imp (fun more => ?_) fun same => by rw [same]
            exact (more.cons other).trans (.swap node other _)

theorem length_giveNode (node : NodeId) (queue : List PendingHeredoc) :
    (giveNode node queue).length = queue.length := by
  induction queue with
  | nil => rfl
  | cons pending queue ih =>
      unfold giveNode
      split
      · rfl
      · rw [List.length_cons, ih, List.length_cons]

theorem mem_awaited_giveNode {node other : NodeId} {lexer : LexerState}
    (member : other ∈ LexerState.awaited { lexer with heredocs := giveNode node lexer.heredocs }) :
    other = node ∨ other ∈ lexer.awaited := by
  rcases giveNode_awaited node lexer.heredocs with more | same
  · exact List.mem_cons.mp (more.mem_iff.mp member)
  · unfold LexerState.awaited at member
    rw [same] at member
    exact .inr member

theorem nodup_awaited_giveNode {node : NodeId} {lexer : LexerState} (distinct : lexer.awaited.Nodup)
    (unawaited : node ∉ lexer.awaited) :
    (LexerState.awaited { lexer with heredocs := giveNode node lexer.heredocs }).Nodup := by
  rcases giveNode_awaited node lexer.heredocs with more | same
  · exact more.nodup_iff.mpr (List.nodup_cons.mpr ⟨unawaited, distinct⟩)
  · unfold LexerState.awaited
    rw [same]
    exact distinct

theorem remaining_giveNode (node : NodeId) (state : State) :
    ({ state with lexer := { state.lexer with
      heredocs := giveNode node state.lexer.heredocs } } : State).remaining = state.remaining := by
  unfold State.remaining LexerState.weight
  rw [length_giveNode]

theorem reads_giveNode (reads : state.Reads) (node : NodeId) :
    ({ state with lexer := { state.lexer with
      heredocs := giveNode node state.lexer.heredocs } } : State).Reads where
  input := reads.input
  map := reads.map
  pendingVariable := reads.pendingVariable
  regexp := reads.regexp
  turns := remaining_giveNode node state ▸ reads.turns

theorem awaitBody_builds (held : Held strict base handles state) {id : NodeId}
    (made : ¬base.arena.Live id) (unawaited : id ∉ state.lexer.awaited)
    (empty : ∃ node, state.arena.get? id = some node ∧ node.shape = .text .string []) :
    Builds strict base handles (awaitBody id) state fun _ after =>
      after.arena = state.arena := by
  have remaining := remaining_giveNode id state
  refine ends_modify ⟨?_, ⟨?_, rfl, rfl⟩, rfl⟩
  · refine held.setLexer (reads_giveNode held.sound.reads id) (Nat.le_of_eq remaining) rfl ?_ ?_
      (nodup_awaited_giveNode held.sound.distinct unawaited)
    · intro other member
      rcases mem_awaited_giveNode member with rfl | old
      · exact empty
      · exact held.sound.waiting other old
    · intro other member alive
      rcases mem_awaited_giveNode member with rfl | old
      · exact absurd alive made
      · exact held.keeps.awaited other old alive
  · unfold State.measure
    rw [remaining]

section

variable {pending : PendingHeredoc} {heredocs : List PendingHeredoc}

/-- The heredoc that leaves the queue makes up for the line that begins. -/
theorem remaining_heredocBody (queue : state.lexer.heredocs = pending :: heredocs) :
    ({ state with lexer := { state.lexer with
      heredocs, literal := some (.heredocBody pending.heredoc true) } } : State).remaining <
      state.remaining := by
  unfold State.remaining LexerState.weight
  rw [queue, List.length_cons]
  simp only [OpenLiteral.headWeight]
  omega

theorem awaited_of_queue {lexer : LexerState} (queue : lexer.heredocs = pending :: heredocs) :
    (heredocs.filterMap (·.node)).Sublist lexer.awaited := by
  unfold LexerState.awaited
  rw [queue]
  exact (List.sublist_cons_self pending heredocs).filterMap _

theorem reads_heredocBody (reads : state.Reads)
    (queue : state.lexer.heredocs = pending :: heredocs) :
    ({ state with lexer := { state.lexer with
      heredocs, literal := some (.heredocBody pending.heredoc true) } } : State).Reads where
  input := reads.input
  map := reads.map
  pendingVariable waits := ⟨rfl, (reads.pendingVariable waits).2⟩
  regexp := by rintro _ ⟨⟩
  turns := by
    have less := remaining_heredocBody queue
    have turns := reads.turns
    change _ + 65 ≤ state.limits.turns
    omega

theorem awaited_of_node {lexer : LexerState} {id : NodeId}
    (queue : lexer.heredocs = pending :: heredocs) (given : pending.node = some id) :
    lexer.awaited = id :: heredocs.filterMap (·.node) := by
  unfold LexerState.awaited
  rw [queue, List.filterMap_cons, given]

end

def Begins (base state : State) (pending : PendingHeredoc) : Prop :=
  ∀ id, pending.node = some id →
    (∃ node, state.arena.get? id = some node ∧ node.shape = .text .string []) ∧
      id ∉ state.lexer.awaited ∧ (base.arena.Live id → id ∈ base.lexer.awaited)

theorem nextHeredoc?_ends (held : Held strict base handles state) :
    Ends nextHeredoc? state fun pending? after =>
      Held strict base handles after ∧ after.lookahead = state.lookahead ∧
        match pending? with
        | none => after = state
        | some pending => after.measure < state.measure ∧ Begins base after pending := by
  refine Ends.get_bind ?_
  cases queue : state.lexer.heredocs with
  | nil => exact ends_pure ⟨held, rfl, rfl⟩
  | cons pending heredocs =>
      have less := remaining_heredocBody queue
      have fewer := awaited_of_queue queue
      have next : Held strict base handles { state with lexer := { state.lexer with
          heredocs, literal := some (.heredocBody pending.heredoc true) } } := by
        refine held.setLexer (reads_heredocBody held.sound.reads queue) (Nat.le_of_lt less) rfl
          ?_ ?_ (held.sound.distinct.sublist fewer)
        · exact fun id member => held.sound.waiting id (fewer.subset member)
        · exact fun id member => held.keeps.awaited id (fewer.subset member)
      refine Ends.setLexer_bind (ends_pure ⟨next, rfl, Nat.add_lt_add_right less _, ?_⟩)
      intro id given
      have listed := awaited_of_node queue given
      have distinct := held.sound.distinct
      rw [listed] at distinct
      have member : id ∈ state.lexer.awaited := by
        rw [listed]
        exact List.mem_cons_self
      exact ⟨held.sound.waiting id member, (List.nodup_cons.mp distinct).1,
        held.keeps.awaited id member⟩

end Scan

namespace Parse

variable {tables : Tables} {limit : Nat}

/-! ### Openers and bodies -/

theorem heredoc_ends (sound : state.Sound tables.stoppable) (ahead : state.AtToken) :
    Makes tables heredoc state fun id after => after.arena.Rooted id := by
  obtain ⟨token, seen, more⟩ := ahead
  refine Ends.bind (take_ends sound seen more) ?_
  rintro opening taken ⟨held, -⟩
  refine Ends.lift_bind (Scan.alloc_stores held (by simp) opening.span) ?_
  rintro id stored ⟨made, -, rooted, placed⟩
  have own : Owned stored none id := .of_stored placed held nofun rooted
  refine Ends.lift_bind (Scan.awaitBody_builds made (own.made made (by simp)) own.unawaited
    placed.found) ?_
  rintro _ waiting ⟨held, -, same⟩
  exact makes_pure (held.weaken (by simp)) (same ▸ rooted)

/-- A body is read and filled in. -/
theorem heredocBody_ends (calls : Meets tables limit)
    (held : Held tables.stoppable base [] state) (enough : 8 * state.measure < limit)
    {pending : PendingHeredoc} (begins : Scan.Begins base state pending)
    (noKey : tables.stoppable → state.quotedKey = none) :
    Ends tables (heredocBody pending) state fun _ after =>
      Held tables.stoppable base [] after ∧ after.measure ≤ state.measure ∧
        ¬after.Sees .variableInterpolation := by
  refine Ends.bind (literalParts_ends calls held.sound enough) ?_
  rintro parts read ⟨own, loose, -⟩
  have shorter := own.keeps.onward
  refine (expectWhere_ends calls own.sound (by omega) "heredoc terminator" rfl).bind own ?_
  rintro _ closed own made noVariable
  have later := made.keeps.onward
  have loose := loose.keeps made
  dsimp only
  cases given : pending.node with
  | none => exact ends_pure ⟨(held.trans own).forget, by omega, noVariable⟩
  | some id =>
      obtain ⟨⟨node, found, empty⟩, unawaited, old⟩ := begins id given
      have stripped : Part.codes (if pending.heredoc.dedented then Part.dedent parts else parts) =
          Part.codes parts := by
        split
        · exact Part.codes_dedent parts
        · rfl
      refine Ends.lift_bind (Scan.literalShape_builds own (by simp [stripped])
        (stripped ▸ loose) pending.heredoc.kind "") ?_
      rintro shape shaped ⟨own, still, literal⟩
      have calm := still.calm
      obtain ⟨kept, holds, same⟩ := own.keeps.shapes id node found unawaited
      have waits : id ∉ shaped.lexer.awaited := fun member =>
        unawaited (own.keeps.awaited id member ⟨node, found⟩)
      have notKey : shaped.quotedKey ≠ some id :=
        own.sound.not_key holds (by rw [same, empty]; rintro ⟨⟩)
      refine (ends_lift (Scan.modifyNode_ends holds fun arena puts free => ?_))
      refine ⟨((held.trans own).reshape old waits notKey ?_ ?_ ?_ ?_ puts
        (free own.sound.store.free)).forget, ?_, ?_⟩
      · intro child member
        exact List.mem_append_left _ (List.mem_append_left _ (List.mem_append_left _
          (List.mem_map_of_mem member)))
      · intro name member
        exact own.known (List.mem_append_left _ (List.mem_append_right _
          (List.mem_map_of_mem member)))
      · simp [literal.unjoined]
      · intro wanted child member
        have valid := own.valid (.node child) (List.mem_append_left _ (List.mem_append_left _
          (List.mem_map_of_mem member)))
        refine own.keeps.not_reaches (noKey wanted) ⟨node, found⟩ fun alive => ?_
        have key := valid.2 alive
        rw [noKey wanted] at key
        cases key
      · change shaped.measure ≤ _
        omega
      · change ¬shaped.Sees _
        unfold State.Sees
        rw [still.lookahead]
        exact noVariable

/-! ### All bodies of a line -/

/-- One heredoc of a line, for a run that may be guarded: it stops where a body
begins while the key of a quoted label waits. -/
def watchedTurn (guarded : Bool) : Parse (Turn Unit Unit) := do
  match ← Scan.nextHeredoc? with
  | none => return .done ()
  | some pending =>
      if guarded && (← get).quotedKey.isSome then throw .starved
      heredocBody pending
      return .again ()

def watchedBodies (guarded : Bool) : Parse Unit := do
  Scan.beginHeredocBodies
  let previousStop := (← get).previousStop
  let quotedKey ← Scan.takeQuotedKey?
  repeatUntil () fun _ => watchedTurn guarded
  modify fun state => { state with previousStop, quotedKey }

theorem Ends.bind_both {α β : Type} {step : Parse α} {next other : α → Parse β}
    {post : α → State → Prop} {goal : β → State → Prop} (ends : Ends tables step state post)
    (follow : ∀ value reached, post value reached → Outcome tables.stoppable
      (next value tables.watched reached) (other value tables.plain reached) goal) :
    Outcome tables.stoppable ((step >>= next) tables.watched state)
      ((step >>= other) tables.plain state) goal :=
  Outcome.bind ends follow

/-- A guarded run goes on only where no key waits. -/
theorem Ends.guarded {α : Type} {guarded : Bool} {step : Parse α} {post : α → State → Prop}
    (watching : tables.stoppable ↔ guarded = true)
    (ends : (tables.stoppable → state.quotedKey = none) → Ends tables step state post) :
    Outcome tables.stoppable
      ((do
        if guarded && (← get).quotedKey.isSome then throw .starved
        step : Parse α) tables.watched state)
      (step tables.plain state) post := by
  change Outcome tables.stoppable ((if (guarded && state.quotedKey.isSome) = true then
    (throw .starved >>= fun _ => step : Parse α) else step) tables.watched state) _ post
  cases waits : guarded && state.quotedKey.isSome with
  | true =>
      rw [Bool.and_eq_true] at waits
      exact watching.mpr waits.1
  | false =>
      refine ends fun wanted => ?_
      rw [watching.mp wanted] at waits
      simpa using waits

theorem beginHeredocBodies_ends (sound : state.Sound strict)
    (due : state.lexer.heredocsDue = true) :
    Scan.Ends Scan.beginHeredocBodies state fun _ after =>
      Held strict state [] after ∧ after.measure < state.measure ∧
        after.lookahead = state.lookahead ∧ after.quotedKey = state.quotedKey := by
  have less : ({ state with lexer := { state.lexer with heredocsDue := false } } :
      State).remaining < state.remaining := by
    unfold State.remaining LexerState.weight
    simp only [due, if_true]
    simp
  refine Scan.ends_modify ⟨sound.carry ?_ ?_ ?_, Nat.add_lt_add_right less _, rfl, rfl⟩
  · exact ⟨rfl, rfl, rfl, rfl, Nat.le_refl _, Nat.le_refl _, rfl, Nat.le_of_lt less⟩
  · have turns := sound.reads.turns
    refine ⟨sound.reads.input, sound.reads.map, sound.reads.pendingVariable,
      sound.reads.regexp, ?_⟩
    exact Nat.le_trans (Nat.add_le_add_right (Nat.le_of_lt less) 65) turns
  · exact fun token read => (sound.ahead token read).pending

theorem heredocTurn_ends (calls : Meets tables limit)
    (held : Held tables.stoppable base [] state) (noVariable : ¬state.Sees .variableInterpolation)
    (enough : 8 * state.measure ≤ limit) {guarded : Bool}
    (watching : tables.stoppable ↔ guarded = true) :
    Outcome tables.stoppable (watchedTurn guarded tables.watched state)
      (heredocTurn tables.plain state) fun result after =>
        Held tables.stoppable base [] after ∧ ¬after.Sees .variableInterpolation ∧
          after.measure ≤ state.measure ∧
          ∀ next, result = .again next → after.measure < state.measure := by
  refine Ends.bind_both (ends_lift (Scan.nextHeredoc?_ends held)) ?_
  rintro pending? started ⟨held, ahead, next⟩
  cases pending? with
  | none =>
      subst next
      exact ⟨rfl, held, noVariable, Nat.le_refl _, nofun⟩
  | some pending =>
      obtain ⟨fewer, begins⟩ := next
      refine Ends.guarded watching fun noKey => ?_
      refine Ends.bind (heredocBody_ends calls held (by omega) begins noKey) ?_
      rintro _ filled ⟨held, later, noVariable⟩
      exact ends_pure ⟨held, noVariable, by omega, fun _ _ => by omega⟩

theorem heredocBodies_ends (calls : Meets tables limit) (sound : state.Sound tables.stoppable)
    (due : state.lexer.heredocsDue = true) (noVariable : ¬state.Sees .variableInterpolation)
    (enough : 8 * state.measure ≤ limit) {guarded : Bool}
    (watching : tables.stoppable ↔ guarded = true) :
    Outcome tables.stoppable (watchedBodies guarded tables.watched state)
      (heredocBodies tables.plain state) fun result after =>
        Held tables.stoppable state (handlesOf result) after ∧
          after.measure < state.measure ∧ ¬after.Sees .variableInterpolation := by
  refine Ends.bind_both (ends_lift (beginHeredocBodies_ends sound due)) ?_
  rintro _ begun ⟨held, less, ahead, sameKey⟩
  refine Ends.bind_both (Ends.get_bind (ends_pure rfl) : Ends tables get begun
    fun result reached => (result, reached) = (begun, begun)) ?_
  rintro _ _ ⟨⟩
  refine Ends.bind_both (ends_lift (Scan.takeQuotedKey?_builds held)) ?_
  rintro key taken ⟨held, still, -, keyTaken, -⟩
  have turns := held.sound.turns
  have calm := still.calm
  let invariant : Unit → State → Prop := fun _ current =>
    Held tables.stoppable state [] current ∧ current.measure < state.measure ∧
      ¬current.Sees .variableInterpolation
  refine Outcome.bind (Outcome.iterate invariant (fun _ current => current.measure) ?_ _ () taken
    ⟨held.forget, by omega, ?_⟩ (by omega) : Outcome tables.stoppable _ _ invariant) ?_
  · rintro _ current ⟨held, less, noVariable⟩
    refine (heredocTurn_ends calls held noVariable (by omega) watching).mono ?_
    rintro (next | value) after ⟨held, noVariable, later, fewer⟩
    · exact ⟨⟨held, by omega, noVariable⟩, fewer next rfl⟩
    · exact ⟨held, by omega, noVariable⟩
  · unfold State.Sees
    rw [still.lookahead, ahead]
    exact noVariable
  · rintro _ last ⟨held, less, noVariable⟩
    refine ⟨rfl, ?_, less, noVariable⟩
    have stopped : Held tables.stoppable state [] { last with previousStop := begun.previousStop } :=
      held.next (held.sound.silent ⟨rfl, rfl, rfl, rfl, rfl, rfl, rfl, rfl, Nat.le_refl _⟩)
    refine stopped.setKey key fun id waiting => ?_
    have first : state.quotedKey = some id := by rw [← sameKey, ← keyTaken, waiting]
    exact ⟨stopped.keeps.quoted sound (sound.key id first), fun _ => first⟩

end Parse

end RubySyntax
