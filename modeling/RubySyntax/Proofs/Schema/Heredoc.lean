/-
Heredocs and their bodies.

The node of a heredoc waits for its body while the rest of its line is read, so
it is not settled until the body has been filled in. While the body itself is
read it waits no longer, but is still empty: then it is loose.
-/

import RubySyntax.Proofs.Grammar.Heredoc
import RubySyntax.Proofs.Nesting.Quiet
import RubySyntax.Proofs.Schema.Literal

namespace RubySyntax

variable {outcome : Arena} {known : Prop} {loose : NodeId → Prop}
  {base before middle state after : State} {id : NodeId} {shape : Shape NodeId}

/-! ### The queue -/

namespace Scan

theorem awaitBody_safely (orderly : middle.Orderly)
    (adds : Adds before (.text .string []) id middle) :
    Returns (awaitBody id) middle fun _ after => Safely before after := by
  have settled := adds.settled rfl
  have safely := adds.safely inferInstance
  apply returns_modify
  constructor
  · constructor
    · exact reads_giveNode orderly.reads id
    · exact orderly.free
    · intro other member
      cases mem_awaited_giveNode member with
      | inl same =>
          subst same
          exact settled.found
      | inr old => exact orderly.waiting other old
    · exact nodup_awaited_giveNode orderly.distinct settled.unawaited
    · exact orderly.ahead
  · intro other shape held
    obtain ⟨later, still, remains⟩ := safely.lasts other shape held
    refine ⟨later, ⟨still.found, still.kept, ?_⟩, remains⟩
    intro member
    cases mem_awaited_giveNode member with
    | inl same =>
        subst same
        exact before.not_settled_of_empty adds.empty shape held
    | inr old => exact still.unawaited old
  · exact safely.conforms

theorem beginHeredocBodies_safely (orderly : state.Orderly) :
    Returns beginHeredocBodies state fun _ after =>
      Safely state after ∧ after.lookahead = state.lookahead := by
  have less : ({ state with lexer := { state.lexer with heredocsDue := false } } :
      State).remaining ≤ state.remaining := by
    unfold State.remaining LexerState.weight
    simp only [Bool.false_eq_true, if_false]
    omega
  apply returns_modify
  refine ⟨.of_eq ?_ rfl rfl, rfl⟩
  have turns := orderly.reads.turns
  constructor
  · refine ⟨orderly.reads.input, orderly.reads.map, orderly.reads.pendingVariable,
      orderly.reads.regexp, ?_⟩
    exact Nat.le_trans (Nat.add_le_add_right less 65) turns
  · exact orderly.free
  · exact orderly.waiting
  · exact orderly.distinct
  · exact orderly.ahead

structure Begun (before : State) (pending : PendingHeredoc) (after : State) : Prop where
  safely : Safely before after
  lookahead : after.lookahead = before.lookahead
  empty : ∀ id, pending.node = some id →
    after.Settled id (.text .string []) ∧ id ∈ before.lexer.awaited

theorem nextHeredoc?_safely (orderly : state.Orderly) :
    Returns nextHeredoc? state fun pending? after =>
      match pending? with
      | none => after = state
      | some pending => Begun state pending after := by
  apply Returns.get_bind
  cases queue : state.lexer.heredocs with
  | nil => exact returns_pure rfl
  | cons pending heredocs =>
      have fewer := awaited_of_queue queue
      have next : Safely state { state with lexer := { state.lexer with
          heredocs, literal := some (.heredocBody pending.heredoc true) } } := by
        constructor
        · constructor
          · exact reads_heredocBody orderly.reads queue
          · exact orderly.free
          · exact fun id member => orderly.waiting id (fewer.subset member)
          · exact orderly.distinct.sublist fewer
          · exact orderly.ahead
        · intro id shape settled
          have unawaited (member : id ∈ heredocs.filterMap (·.node)) : False :=
            settled.unawaited (fewer.subset member)
          exact ⟨shape, ⟨settled.found, settled.kept, unawaited⟩, .refl shape⟩
        · exact fun _ => id
      apply Returns.modify_bind
      apply returns_pure
      refine ⟨next, rfl, ?_⟩
      intro id given
      have listed := awaited_of_node queue given
      have member : id ∈ state.lexer.awaited := by
        rw [listed]
        exact List.mem_cons_self
      have distinct := orderly.distinct
      rw [listed] at distinct
      exact ⟨⟨orderly.waiting id member, rfl, (List.nodup_cons.mp distinct).1⟩, member⟩

/-! ### Filling in -/

/-- A body is filled in. Its node was loose, as it waited at the start. -/
theorem fill_leads {wide : NodeId → Prop} (leads : Leads outcome wide known base state True)
    (settled : state.Settled id (.text .string [])) (new : ∀ shape, ¬base.Settled id shape)
    (mine : wide id) (more : ∀ other, loose other → wide other)
    (conforms : outcome.Follows wide state → shape.Conforms outcome) :
    Returns (setShape id shape) state fun _ after =>
      Leads outcome loose known base after True ∧ after.lookahead = state.lookahead := by
  apply (nodeAt_returns id state).bind
  intro node reached looked
  obtain ⟨rfl, found⟩ := looked
  apply returns_modify
  refine ⟨?_, rfl⟩
  have puts := Arena.modify_spec found fun node => { node with shape }
  constructor
  · apply leads.orderly.put puts (leads.orderly.free.modify id _)
    exact fun member => absurd member settled.unawaited
  · exact leads.lasts.put new puts
  · intro given follows conforming
    have earlier : outcome.Follows wide reached := by
      intro other kept still tight
      have apart : other ≠ id := fun same => tight (same ▸ mine)
      obtain ⟨node, found, holds⟩ := still.found
      have same := (puts.apart apart).trans found
      apply follows other kept ⟨⟨node, same, holds⟩, still.kept, still.unawaited⟩
      exact fun isLoose => tight (more other isLoose)
    refine ⟨((leads.conforms given earlier conforming).1).put puts ?_, trivial⟩
    intro new same
    cases same
    exact conforms earlier

end Scan

namespace Parse

variable {table : RuleTable} [served : table.Upholds outcome]

omit served in
instance : Conforming outcome table known heredoc := by
  constructor
  unfold heredoc
  apply Upholds.andThen
  intro opening loose state orderly _
  apply Returns.lift_bind (Scan.alloc_leads (.text .string []) opening.span orderly)
  intro id stored adds
  apply Returns.lift_bind (Scan.awaitBody_safely (adds.safely inferInstance).orderly adds)
  intro _ after safely
  exact returns_pure (safely.leads fun _ => trivial)

theorem expectWhere_unseen (orderly : state.Orderly) (holds : state.Holds loose) {token : Token}
    (ahead : state.lookahead = some token) (plain : token.kind ≠ .variableInterpolation)
    (wanted : TokenKind → Bool) (what : String) :
    Returns table (expectWhere wanted what) state fun _ after =>
      Leads outcome loose known state after True ∧ ¬after.Sees .variableInterpolation := by
  have conforming : Conforming outcome table known (expectWhere wanted what) := inferInstance
  apply Returns.and (conforming.upholds loose state orderly holds)
  have unseen {current : State} (same : current.lookahead = some token) :
      ¬current.Sees .variableInterpolation := by
    intro sees
    obtain ⟨other, seen, kind⟩ := sees
    rw [same] at seen
    cases seen
    exact plain kind
  have skips {current : State} (orderly : current.Orderly) : Returns table skip current fun _ after =>
      ¬after.Sees .variableInterpolation := by
    apply (skip_safely orderly).mono
    intro _ after took
    obtain ⟨_, took⟩ := took
    intro sees
    obtain ⟨other, seen, -⟩ := sees
    rw [took.nothing] at seen
    cases seen
  have peeks : Returns table peekToken state (Peeked outcome loose known state) :=
    peekToken_leads orderly holds
  unfold expectWhere
  apply peeks.bind
  intro next reached peeked
  obtain ⟨rfl, rfl⟩ := peeked.still token ahead
  split
  · apply (skips orderly).bind
    intro _ after noVariable
    exact returns_pure noVariable
  · apply Returns.lift_bind (Scan.Idle.returns reached)
    intro _ reported idles
    split
    · apply (skips (idles.orderly orderly)).bind
      intro _ after noVariable
      exact returns_pure noVariable
    · exact returns_pure (unseen (idles.lookahead.trans ahead))

theorem heredocBody_leads {pending : PendingHeredoc} (begun : Scan.Begun base pending state)
    (holds : base.Holds loose) :
    Returns table (heredocBody pending) state fun _ after =>
      Leads outcome loose known base after True ∧ ¬after.Sees .variableInterpolation := by
  have start : Leads outcome (fun id => loose id ∨ pending.node = some id) known base state True :=
    begun.safely.leads fun _ => trivial
  have wide : state.Holds fun id => loose id ∨ pending.node = some id := by
    intro id either
    cases either with
    | inl isLoose => exact holds.later start.lasts id isLoose
    | inr given => exact ⟨_, (begun.empty id given).1, rfl⟩
  unfold heredocBody
  have pieces : Returns table literalParts state fun parts after =>
      Leads outcome (fun id => loose id ∨ pending.node = some id) known state after True ∧
        (∀ id ∈ Part.codes parts, after.Coded id) ∧
        ∃ token, after.lookahead = some token ∧ token.kind ≠ .variableInterpolation :=
    literalParts_leads start.orderly wide
  apply pieces.bind
  intro parts read literal
  obtain ⟨reads, coded, token, ahead, plain⟩ := literal
  extract_lets isEnd kept
  have ends : Returns table (expectWhere isEnd "heredoc terminator") read fun _ after =>
      Leads outcome (fun id => loose id ∨ pending.node = some id) known read after True ∧
        ¬after.Sees .variableInterpolation :=
    expectWhere_unseen reads.orderly (wide.later reads.lasts) ahead plain _ _
  apply ends.bind
  intro _ closed ended
  obtain ⟨closes, noVariable⟩ := ended
  have leads := (start.next reads).next closes
  have still := wide.later (reads.lasts.trans closes.lasts)
  have coded : ∀ id ∈ Part.codes kept, closed.Coded id := by
    have same : Part.codes kept = Part.codes parts := by
      unfold kept
      split
      · exact Part.codes_dedent parts
      · rfl
    intro id member
    rw [same] at member
    exact (coded id member).later closes.lasts
  cases given : pending.node with
  | none => exact returns_pure ⟨leads.relax fun _ _ isLoose _ => .inl isLoose, noVariable⟩
  | some id =>
      obtain ⟨empty, waiting⟩ := begun.empty id given
      apply Returns.lift_bind ((Scan.literalShape_makes leads.orderly coded _ "").and
        (Scan.Quiet.returns closed))
      intro shape shaped making
      obtain ⟨⟨safely, made⟩, unmoved⟩ := making
      have all := leads.safely safely
      have lasts := (reads.lasts.trans closes.lasts).trans safely.lasts
      have fills : Scan.Returns (Scan.setShape id shape) shaped fun _ after =>
          Leads outcome loose known base after True ∧ after.lookahead = shaped.lookahead := by
        apply Scan.fill_leads all (lasts.settled empty rfl)
        · exact fun _ settled => settled.unawaited waiting
        · exact .inr given
        · exact fun _ => .inl
        · intro follows
          exact made.conforms follows fun _ coded => coded.tight (still.later safely.lasts)
      apply fills.mono
      intro _ after filled
      refine ⟨filled.1, ?_⟩
      unfold State.Sees
      rw [filled.2, unmoved.lookahead]
      exact noVariable

theorem heredocBodies_upholds : Nonterminal.heredocBodies.Upholds outcome (heredocBodies table) := by
  intro loose state orderly holds noVariable
  change Returns table heredocBodies state _
  unfold heredocBodies
  apply Returns.lift_bind (Scan.beginHeredocBodies_safely orderly)
  intro _ begun started
  apply Returns.get_bind
  apply Returns.lift_bind (Scan.Idle.returns begun)
  intro quotedKey emptied idles
  have safely := started.1.trans (idles.safely started.1.orderly)
  have loop : Returns table (repeatUntil () fun _ => heredocTurn) emptied fun _ after =>
      Leads outcome loose True state after True ∧ ¬after.Sees .variableInterpolation := by
    apply repeatUntil_returns fun _ current =>
      Leads outcome loose True state current True ∧ ¬current.Sees .variableInterpolation
    · refine ⟨safely.leads fun _ => trivial, ?_⟩
      unfold State.Sees
      rw [idles.lookahead, started.2]
      exact noVariable
    · intro _ current before
      apply Returns.lift_bind (Scan.nextHeredoc?_safely before.1.orderly)
      intro pending? popped next
      cases pending? with
      | none =>
          subst next
          exact returns_pure before
      | some pending =>
          have body : Returns table (heredocBody pending) popped fun _ after =>
              Leads outcome loose True current after True ∧
                ¬after.Sees .variableInterpolation :=
            heredocBody_leads next (holds.later before.1.lasts)
          apply body.bind
          intro _ after read
          exact returns_pure ⟨before.1.next read.1, read.2⟩
  apply loop.bind
  intro _ reached bodies
  apply Scan.returns_modify
  have last : reached.Idles { reached with previousStop := begun.previousStop, quotedKey } :=
    ⟨rfl, rfl, rfl, rfl, rfl, rfl, rfl, rfl, rfl, rfl⟩
  exact ⟨bodies.1.safely (last.safely bodies.1.orderly), bodies.2⟩

end Parse

end RubySyntax
