/-
What single changes of the state do to what a rule holds.
-/

import RubySyntax.Proofs.Grammar.Held

namespace RubySyntax

variable {strict : Prop} {base state after : State} {handles : List Handle}

theorem State.Reads.of_eq (reads : state.Reads) (input : after.input = state.input)
    (map : after.report.map = state.report.map) (lexer : after.lexer = state.lexer)
    (limits : after.limits = state.limits) : after.Reads where
  input := input ▸ reads.input
  map := map ▸ reads.map
  pendingVariable := by
    rw [lexer, input]
    exact reads.pendingVariable
  regexp := by
    rw [lexer, input]
    exact reads.regexp
  turns := by
    unfold State.remaining
    rw [lexer, input, limits]
    exact reads.turns

/-! ### Changes that leave the nodes alone -/

theorem Carried.onward (carried : Carried state after) : state.Onward after := by
  unfold State.Onward State.measure State.ordinal
  rw [carried.lookahead]
  exact ⟨Nat.add_le_add_right carried.remaining _, Nat.add_le_add_right carried.tokens _⟩

theorem State.Sound.carry (sound : state.Sound strict) (carried : Carried state after)
    (reads : after.Reads)
    (pending : ∀ token, state.lookahead = some token →
      token.kind = .variableInterpolation → after.lexer.variablePending = true) :
    Held strict state [] after := by
  refine Held.of_keeps sound ?_ ?_
  · exact
      { reads
        store := carried.arena ▸ sound.store
        waiting := by
          rw [carried.awaited, carried.arena]
          exact sound.waiting
        distinct := carried.awaited ▸ sound.distinct
        key := by
          rw [carried.quotedKey, carried.arena]
          exact sound.key
        called := fun id node found name member => by
          rw [carried.arena] at found
          exact Nat.lt_of_lt_of_le (sound.called id node found name member) carried.names
        ahead := fun token read => by
          rw [carried.lookahead] at read
          exact ⟨fun name member => Nat.lt_of_lt_of_le
            ((sound.ahead token read).known name member) carried.names, pending token read⟩ }
  · refine Keeps.of_arena carried.arena ?_ ?_ carried.names carried.limits carried.onward ?_
    · rw [carried.quotedKey]
      exact fun _ waiting _ => waiting
    · rw [carried.awaited]
      exact fun _ member _ => member
    · rw [carried.lookahead]
      exact fun _ read => .inr read

structure Still (before after : State) : Prop where
  measure : after.measure = before.measure
  tokens : after.tokens = before.tokens
  lookahead : after.lookahead = before.lookahead

namespace Still

theorem refl (state : State) : Still state state :=
  ⟨rfl, rfl, rfl⟩

theorem trans {middle : State} (first : Still base middle) (second : Still middle state) :
    Still base state :=
  ⟨second.measure.trans first.measure, second.tokens.trans first.tokens,
    second.lookahead.trans first.lookahead⟩

theorem ordinal (still : Still base state) : state.ordinal = base.ordinal := by
  unfold State.ordinal
  rw [still.tokens, still.lookahead]

theorem calm (still : Still base state) :
    state.measure = base.measure ∧ state.ordinal = base.ordinal :=
  ⟨still.measure, still.ordinal⟩

theorem onward (still : Still base state) : base.Onward state :=
  ⟨Nat.le_of_eq still.measure, Nat.le_of_eq still.ordinal.symm⟩

theorem atToken (still : Still base state) (ahead : base.AtToken) : state.AtToken := by
  unfold State.AtToken
  rw [still.lookahead]
  exact ahead

end Still

theorem Silent.still (silent : Silent state after) : Still state after := by
  refine ⟨?_, silent.tokens, silent.lookahead⟩
  unfold State.measure
  rw [silent.remaining, silent.lookahead]

theorem State.Sound.silent (sound : state.Sound strict) (silent : Silent state after) :
    Held strict state [] after := by
  refine sound.carry ?_ (silent.reads sound.reads) ?_
  · exact
      { arena := silent.arena
        quotedKey := silent.quotedKey
        lookahead := silent.lookahead
        limits := silent.limits
        tokens := Nat.le_of_eq (congrArg List.length silent.tokens.symm)
        names := silent.names
        awaited := by rw [silent.lexer]
        remaining := Nat.le_of_eq silent.remaining }
  · rw [silent.lexer]
    exact fun token read => (sound.ahead token read).pending

theorem State.Sound.setFlags (sound : state.Sound strict) {lexer : LexerState}
    (literal : lexer.literal = state.lexer.literal)
    (contexts : lexer.contexts = state.lexer.contexts)
    (heredocs : lexer.heredocs = state.lexer.heredocs)
    (due : lexer.heredocsDue = state.lexer.heredocsDue)
    (pending : lexer.variablePending = state.lexer.variablePending) :
    Held strict state [] { state with lexer } ∧ Still state { state with lexer } := by
  have weight : lexer.weight = state.lexer.weight := by
    unfold LexerState.weight
    rw [literal, contexts, heredocs, due]
  have remaining : ({ state with lexer } : State).remaining = state.remaining := by
    unfold State.remaining
    rw [weight]
  refine ⟨sound.carry ⟨rfl, rfl, rfl, rfl, Nat.le_refl _, Nat.le_refl _, ?_,
    Nat.le_of_eq remaining⟩ ?_ ?_, ?_, rfl, rfl⟩
  · unfold LexerState.awaited
    rw [heredocs]
  · exact
      { input := sound.reads.input
        map := sound.reads.map
        pendingVariable := by
          change lexer.variablePending = true → lexer.literal.isSome = true ∧ _
          rw [pending, literal]
          exact sound.reads.pendingVariable
        regexp := by
          change ∀ quotation, lexer.literal = _ → _
          rw [literal]
          exact sound.reads.regexp
        turns := remaining ▸ sound.reads.turns }
  · change ∀ token, _ → _ → lexer.variablePending = true
    rw [pending]
    exact fun token read => (sound.ahead token read).pending
  · unfold State.measure
    rw [remaining]

namespace Held

theorem setKey (held : Held strict base handles state) (key : Option NodeId)
    (quoted : ∀ id, key = some id → state.arena.Quoted id ∧
      (base.arena.Live id → base.quotedKey = some id)) :
    Held strict base handles { state with quotedKey := key } where
  start := held.start
  sound :=
    { reads := held.sound.reads.of_eq rfl rfl rfl rfl
      store := held.sound.store
      waiting := held.sound.waiting
      distinct := held.sound.distinct
      key := fun id waiting => (quoted id waiting).1
      called := held.sound.called
      ahead := fun token read => ⟨(held.sound.ahead token read).known,
        (held.sound.ahead token read).pending⟩ }
  keeps :=
    { live := held.keeps.live
      edges := held.keeps.edges
      shapes := held.keeps.shapes
      key := fun id waiting => (quoted id waiting).2
      awaited := held.keeps.awaited
      names := held.keeps.names
      limits := held.keeps.limits
      onward := held.keeps.onward
      progress := held.keeps.progress }
  valid handle member := by
    have valid := held.valid handle member
    cases handle with
    | node id => exact valid
    | name symbol => exact valid

theorem setLookahead (held : Held strict base handles state) (ahead : Option Token)
    (sound : ∀ token, ahead = some token → token.Sound state)
    {previousStop : Nat}
    (onward : base.Onward { state with lookahead := ahead, previousStop })
    (progress : ∀ token, base.lookahead = some token →
      base.Past { state with lookahead := ahead, previousStop } ∨ ahead = some token) :
    Held strict base handles { state with lookahead := ahead, previousStop } where
  start := held.start
  sound :=
    { reads := held.sound.reads.of_eq rfl rfl rfl rfl
      store := held.sound.store
      waiting := held.sound.waiting
      distinct := held.sound.distinct
      key := held.sound.key
      called := held.sound.called
      ahead := fun token read => ⟨(sound token read).known, (sound token read).pending⟩ }
  keeps :=
    { live := held.keeps.live
      edges := held.keeps.edges
      shapes := held.keeps.shapes
      key := held.keeps.key
      awaited := held.keeps.awaited
      names := held.keeps.names
      limits := held.keeps.limits
      onward
      progress }
  valid handle member := by
    have valid := held.valid handle member
    cases handle with
    | node id => exact valid
    | name symbol => exact valid

theorem setLexer (held : Held strict base handles state) {lexer : LexerState}
    (reads : ({ state with lexer } : State).Reads)
    (remaining : ({ state with lexer } : State).remaining ≤ state.remaining)
    (pending : lexer.variablePending = state.lexer.variablePending)
    (waiting : ∀ id ∈ lexer.awaited, ∃ node, state.arena.get? id = some node ∧
      node.shape = .text .string [])
    (own : ∀ id ∈ lexer.awaited, base.arena.Live id → id ∈ base.lexer.awaited)
    (distinct : lexer.awaited.Nodup) :
    Held strict base handles { state with lexer } := by
  have shorter : state.Onward { state with lexer } :=
    ⟨Nat.add_le_add_right remaining _, Nat.le_refl _⟩
  have before := held.keeps.onward
  exact
    { start := held.start
      sound :=
        { reads
          store := held.sound.store
          waiting
          distinct
          key := held.sound.key
          called := held.sound.called
          ahead := fun token read => ⟨(held.sound.ahead token read).known, fun kind =>
            pending.trans ((held.sound.ahead token read).pending kind)⟩ }
      keeps :=
        { live := held.keeps.live
          edges := held.keeps.edges
          shapes := held.keeps.shapes
          key := held.keeps.key
          awaited := own
          names := held.keeps.names
          limits := held.keeps.limits
          onward := by omega
          progress := fun token ahead =>
            (held.keeps.progress token ahead).imp_left fun less => by omega }
      valid := fun handle member => by
        have valid := held.valid handle member
        cases handle with
        | node id => exact valid
        | name symbol => exact valid }

/-! ### Changes of nodes -/

theorem add (held : Held strict base handles state) {id : NodeId}
    (live : state.arena.Live id) (made : ¬base.arena.Live id) :
    Held strict base (.node id :: handles) state := by
  change Held strict base ([.node id] ++ handles) state
  refine held.gain fun handle member => ?_
  rw [List.mem_singleton.mp member]
  exact ⟨live, fun alive => absurd alive made⟩

/-- The content of one slot changes. What was alive at the start is left
alone, unless it waited for a body then. -/
theorem put (held : Held strict base handles state) {id : NodeId} {content : Option Node}
    {arena : Arena} (puts : state.arena.Puts id content arena) (store : arena.Sound strict)
    (own : base.arena.Live id → id ∈ base.lexer.awaited ∧ content.isSome = true)
    (unawaited : id ∉ state.lexer.awaited) (noKey : state.quotedKey ≠ some id)
    (children : ∀ node, content = some node →
      ∀ child ∈ node.shape.children, .node child ∈ handles)
    (called : ∀ node, content = some node →
      ∀ name ∈ node.shape.called, state.symbols.Knows name)
    {left : List Handle} (fewer : ∀ handle ∈ left, handle ∈ handles)
    (alive : content = none → .node id ∉ left) :
    Held strict base left { state with arena } where
  start := held.start
  sound :=
    { reads := held.sound.reads.of_eq rfl rfl rfl rfl
      store
      waiting := fun other member => by
        have different : other ≠ id := fun same => unawaited (same ▸ member)
        change ∃ node, arena.get? other = some node ∧ _
        rw [puts.apart different]
        exact held.sound.waiting other member
      distinct := held.sound.distinct
      key := fun other waiting => by
        have different : other ≠ id := fun same => noKey (same ▸ waiting)
        change ∃ node, arena.get? other = some node ∧ _
        rw [puts.apart different]
        exact held.sound.key other waiting
      called := fun other node found name member => by
        change arena.get? other = some node at found
        by_cases same : other = id
        · rw [same, puts.at_slot] at found
          exact called node found name member
        · rw [puts.apart same] at found
          exact held.sound.called other node found name member
      ahead := fun token read => ⟨(held.sound.ahead token read).known,
        (held.sound.ahead token read).pending⟩ }
  keeps :=
    { live := fun other before => by
        by_cases same : other = id
        · subst same
          obtain ⟨node, stored⟩ := Option.isSome_iff_exists.mp (own before).2
          exact ⟨node, puts.at_slot.trans stored⟩
        · obtain ⟨node, found⟩ := held.keeps.live other before
          exact ⟨node, (puts.apart same).trans found⟩
      edges := fun parent child before linked => by
        rcases puts.link linked with ⟨-, node, stored, member⟩ | ⟨-, old⟩
        · exact .inr ((held.valid _ (children node stored child member)).2 before)
        · exact held.keeps.edges parent child before old
      shapes := fun other node before still => by
        have different : other ≠ id := by
          rintro rfl
          exact still (own ⟨node, before⟩).1
        change ∃ kept, arena.get? other = some kept ∧ _
        rw [puts.apart different]
        exact held.keeps.shapes other node before still
      key := held.keeps.key
      awaited := held.keeps.awaited
      names := held.keeps.names
      limits := held.keeps.limits
      onward := held.keeps.onward
      progress := held.keeps.progress }
  valid handle member := by
    have valid := held.valid handle (fewer handle member)
    cases handle with
    | name symbol => exact valid
    | node other =>
        refine ⟨?_, valid.2⟩
        by_cases same : other = id
        · subst same
          cases stored : content with
          | none => exact absurd member (alive stored)
          | some node => exact ⟨node, puts.at_slot.trans stored⟩
        · obtain ⟨node, found⟩ := valid.1
          exact ⟨node, (puts.apart same).trans found⟩

end Held

end RubySyntax
