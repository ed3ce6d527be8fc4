/-
Literals: an interpolation is closed by the `}` of its own, and the bodies of
heredocs leave no token behind.
-/

import RubySyntax.Grammar.Literal
import RubySyntax.Proofs.Nesting.Basic

namespace RubySyntax.Parse

open State (Passage)

variable {β : Type} {table : RuleTable} [Serves table] {kind : TokenKind}

/-! ### Single tokens -/

instance (word : Keyword) (span : Span) : Quiet (wordShape? word span) := by
  unfold wordShape?
  split <;> infer_instance

instance (token : Token) : Quiet (atomShape? token) := by
  unfold atomShape?
  split <;> infer_instance

omit [Serves table] in
theorem wordShape_returns (word : Keyword) (span : Span) (state : State) :
    Returns table (wordShape? word span) state fun shape? _ => ∀ shape ∈ shape?, shape.Proper := by
  unfold wordShape?
  split
  · exact returns_some inferInstance
  · exact returns_some inferInstance
  · exact returns_some inferInstance
  · exact returns_some inferInstance
  · exact returns_some inferInstance
  · exact returns_some inferInstance
  · exact .after fun _ _ => returns_some inferInstance
  · exact .after fun _ _ => returns_some inferInstance
  · exact .after fun _ _ => returns_some inferInstance
  · exact returns_none

omit [Serves table] in
/-- An operand that is a single token is no placeholder, and the token is no
bracket. -/
theorem atomShape_returns (kind : TokenKind) (span : Span) (state : State) :
    Returns table (atomShape? ⟨kind, span⟩) state fun shape? _ =>
      ∀ shape ∈ shape?, shape.Proper ∧ kind.Flat := by
  unfold atomShape?
  cases kind with
  | keyword word =>
      apply (wordShape_returns word span state).mono
      intro shape? _ proper shape found
      exact ⟨proper shape found, inferInstance⟩
  | integer value => exact returns_some ⟨inferInstance, inferInstance⟩
  | float value => exact returns_some ⟨inferInstance, inferInstance⟩
  | character bytes => exact returns_some ⟨inferInstance, ⟨rfl⟩⟩
  | symbol name => exact returns_some ⟨inferInstance, inferInstance⟩
  | instanceVariable name => exact returns_some ⟨inferInstance, inferInstance⟩
  | classVariable name => exact returns_some ⟨inferInstance, inferInstance⟩
  | globalVariable name => exact returns_some ⟨inferInstance, inferInstance⟩
  | numberedReference number => exact returns_some ⟨inferInstance, inferInstance⟩
  | backReference byte => exact returns_some ⟨inferInstance, inferInstance⟩
  | _ => exact returns_none

instance : Steady table variableNode := by
  unfold variableNode
  apply Settles.peek
  intro kind span
  apply SettlesAt.known (atomShape_returns kind span)
  intro shape? known
  split
  · next shape =>
      obtain ⟨proper, flat⟩ := known shape rfl
      infer_instance
  · infer_instance

/-! ### Pieces -/

/-- The code of an interpolation ends at the closing brace of its own. -/
theorem interpolatedCode_settlesAt : SettlesAt table .interpolationBegin [] 0 interpolatedCode := by
  unfold interpolatedCode
  apply SettlesAt.takeOpening rfl
  intro opening _
  apply Settles.andThen
  intro body
  apply Settles.expect rfl
  intro close
  infer_instance

instance : Steady table literalParts := by
  unfold literalParts partTurn
  refine Settles.finish (Steady.loop fun parts => ?_) inferInstance
  apply Settles.peek
  intro kind span
  dsimp only
  split
  · infer_instance
  · exact interpolatedCode_settlesAt.finish inferInstance
  · infer_instance
  · infer_instance

omit [Serves table] in
/-- The shape of a literal is no placeholder, so it may be stored. -/
theorem Settles.literalShape {kind : LiteralKind} {parts : List Part} {flags : String}
    {next : Shape NodeId → Parse β} (rest : ∀ shape, shape.Proper → Steady table (next shape)) :
    Steady table (liftM (Scan.literalShape kind parts flags) >>= next) :=
  .known (fun state => returns_lift (Scan.literalShape_returns kind parts flags state)) rest

instance (label : NodeId) :
    Quiet (modify fun state => { state with quotedKey := some label } : Parse PUnit) where
  returns _ state := by
    apply Scan.returns_modify
    exact .ofFields rfl rfl rfl rfl (Nat.le_refl _)

instance (opening : Span) (kind : LiteralKind) : Steady table (quoted opening kind) := by
  unfold quoted
  apply Settles.andThen
  intro parts
  apply Settles.peek
  intro found span
  dsimp only
  split
  · apply SettlesAt.skipFlat
    intro _
    apply Settles.literalShape
    intro shape proper
    infer_instance
  · apply SettlesAt.skipFlat
    intro _
    apply Settles.literalShape
    intro shape proper
    infer_instance
  · apply SettlesAt.ofSettles
    apply Settles.andThen
    intro _
    apply Settles.literalShape
    intro shape proper
    infer_instance

/-! ### Literals -/

instance (element : LiteralKind) : Steady table (words element) := by
  unfold words wordTurn
  refine Settles.finish (Steady.loop fun items => ?_) inferInstance
  apply Settles.peek
  intro kind span
  dsimp only
  have pieces : Steady table (do
      let shape ← Scan.literalShape element (← literalParts) ""
      let item ← Scan.alloc shape (← spanSince span.start)
      return (Turn.again (items.push item) : Turn _ (Array NodeId × Span))) := by
    apply Settles.andThen
    intro parts
    apply Settles.literalShape
    intro shape proper
    infer_instance
  split
  · infer_instance
  · infer_instance
  · infer_instance
  · infer_instance
  · infer_instance
  · infer_instance

instance (first : NodeId) : Steady table (moreStrings first) := by
  unfold moreStrings stringTurn
  apply Steady.loop
  intro node
  apply Settles.andThen
  intro state
  split
  · infer_instance
  · apply Settles.peek
    intro kind span
    split
    · infer_instance
    · next other =>
        have same : kind = .literalBegin .string := by simpa using other
        subst same
        apply SettlesAt.skipFlat
        intro _
        apply Settles.andThen
        intro more
        apply Settles.andThen
        intro label
        split
        · infer_instance
        · infer_instance

theorem literal_settlesAt (kind : LiteralKind) :
    SettlesAt table (.literalBegin kind) [] 0 (literal kind) := by
  unfold literal
  apply SettlesAt.takeFlat
  intro opening _
  split
  · infer_instance
  · infer_instance
  · infer_instance
  · infer_instance

omit [Serves table] in
theorem heredoc_settlesAt : SettlesAt table .heredocBegin [] 0 heredoc := by
  unfold heredoc
  infer_instance

/-! ### Bodies of heredocs -/

/-- The node that waits for the body of a heredoc is filled, if there is one. -/
theorem quiet_heredocNode (pending : PendingHeredoc) (parts : List Part) :
    Quiet (match pending.node with
      | some node => do
          Scan.setShape node (← Scan.literalShape pending.heredoc.kind parts "")
      | none => pure () : Parse Unit) := by
  split
  · apply Quiet.known (fun _ state => returns_lift (Scan.literalShape_returns _ parts "" state))
    intro shape proper
    infer_instance
  · infer_instance

theorem heredocBody_returns (pending : PendingHeredoc) (state : State) :
    Returns table (heredocBody pending) state fun _ after =>
      Passage {} {} state after ∧ after.NothingWaits := by
  unfold heredocBody
  apply (Steady.returns state).bind
  intro parts reached before
  extract_lets isEnd kept
  have flat (kind : TokenKind) (ends : isEnd kind) :
      Bracket.Moves kind.bracketMark? [] [] := by
    unfold isEnd at ends
    split at ends
    · exact .flat
    · cases ends
  apply (expectWhere_returns flat _ reached).bind
  intro _ middle ended
  apply ((quiet_heredocNode pending kept).returns table middle).mono
  intro _ after unmoved
  exact ⟨(before.trans ended.1).trans unmoved.passage, ended.2.unmoved unmoved⟩

instance (previousStop : Nat) (quotedKey : Option NodeId) :
    Quiet (modify fun state => { state with previousStop, quotedKey } : Parse PUnit) where
  returns _ state := by
    apply Scan.returns_modify
    exact .ofFields rfl rfl rfl rfl (Nat.le_refl _)

/-- All bodies of a line are read, each up to its end. -/
theorem pendingBodies_returns {state : State} (nothing : state.NothingWaits) :
    Returns table (repeatUntil () fun _ => heredocTurn) state fun _ after =>
      Passage {} {} state after ∧ after.NothingWaits := by
  apply repeatUntil_returns fun _ reached => Passage {} {} state reached ∧ reached.NothingWaits
  · exact ⟨.refl {} state, nothing⟩
  · intro _ reached kept
    apply (Quiet.returns table reached).bind
    intro pending middle unmoved
    have still : middle.NothingWaits := kept.2.unmoved unmoved
    have before := kept.1.trans unmoved.passage
    split
    · exact returns_pure ⟨before, still⟩
    · apply (heredocBody_returns _ middle).bind
      intro _ after read
      exact returns_pure ⟨before.trans read.1, read.2⟩

theorem heredocBodies_keeps : Nonterminal.heredocBodies.Keeps (heredocBodies table) := by
  intro state nothing
  change Returns table heredocBodies state _
  unfold heredocBodies
  apply (Quiet.returns table state).bind
  intro _ begun started
  apply Returns.get_bind
  apply (Quiet.returns table begun).bind
  intro quotedKey emptied key
  have before : state.Unmoved emptied := started.trans key
  apply (pendingBodies_returns (nothing.unmoved before)).bind
  intro _ reached bodies
  apply (Quiet.returns table reached).mono
  intro _ after last
  exact ⟨(before.passage.trans bodies.1).trans last.passage, bodies.2.unmoved last⟩

end RubySyntax.Parse
