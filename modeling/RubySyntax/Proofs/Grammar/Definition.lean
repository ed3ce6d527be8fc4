/-
Definitions of methods, classes and modules, blocks and lambdas, and the
statements that work on names alone.
-/

import RubySyntax.Proofs.Grammar.Control
import RubySyntax.Proofs.Grammar.Literal
import RubySyntax.Proofs.Grammar.Parameter
import RubySyntax.Grammar.Definition

namespace RubySyntax

namespace Parse

variable {tables : Tables} {limit : Nat} {base state : State} {handles : List Handle}

/-- A step in which `do` belongs to nothing outside. -/
theorem isolated_ends {α : Type} [HasHandles α] {step : Parse α}
    (sound : state.Sound tables.stoppable)
    (makes : ∀ inner, inner.Sound tables.stoppable → inner.measure = state.measure →
      Makes tables step inner fun _ _ => True) :
    Makes tables (isolated step) state fun _ _ => True := by
  refine Ends.get_bind ?_
  refine Ends.lift_bind (Scan.setFlags_builds (Held.refl sound) rfl rfl rfl rfl rfl) ?_
  rintro _ inner ⟨held, still, -⟩
  refine (makes inner held.sound still.measure).bind held ?_
  rintro result reached held - -
  refine Ends.lift_bind (Scan.setFlags_builds held rfl rfl rfl rfl rfl) ?_
  rintro _ after ⟨held, -⟩
  exact makes_pure (held.weaken (by simp +contextual)) trivial

/-! ### Names of methods -/

theorem methodName_ends (calls : Meets tables limit) (sound : state.Sound tables.stoppable)
    (enough : 8 * state.measure < limit) :
    Makes tables methodName state fun _ _ => True := by
  refine Ends.bind (peekToken_ends calls sound enough) ?_
  rintro token peeked ⟨held, seen, -⟩
  have missing : Ends tables (do
      Scan.unexpected token (some "method name")
      return (token.span, ← Scan.intern [])) peeked fun result after =>
        Held tables.stoppable state (handlesOf result) after ∧ True := by
    refine Ends.lift_bind (Scan.unexpected_builds held token _) ?_
    rintro _ reported ⟨held, -⟩
    refine Ends.lift_bind (Scan.intern_builds held _) ?_
    rintro name interned ⟨held, -⟩
    exact makes_pure (held.weaken (by simp)) trivial
  split
  case h_7 kind =>
    refine (skip_ends held.sound ⟨token, seen, by simp [kind]⟩).bind held ?_
    rintro _ skipped held - -
    refine Ends.look_bind (Scan.sliceOf_looks _) fun bytes _ => ?_
    refine Ends.lift_bind (Scan.intern_builds held _) ?_
    rintro name interned ⟨held, -⟩
    exact makes_pure (held.weaken (by simp)) trivial
  case h_8 mark kind =>
    refine Ends.ite (fun _ => ?_) fun _ => missing
    refine (skip_ends held.sound ⟨token, seen, by simp [kind]⟩).bind held ?_
    rintro _ skipped held - -
    refine Ends.lift_bind (Scan.intern_builds held _) ?_
    rintro name interned ⟨held, -⟩
    exact makes_pure (held.weaken (by simp)) trivial
  case h_9 => exact missing
  all_goals
    rename_i name kind
    refine (skip_ends held.sound ⟨token, seen, by simp [kind]⟩).bind held ?_
    rintro _ skipped held - -
    exact makes_pure (held.weaken (by simp [kind, handlesOf, TokenKind.names])) trivial

theorem methodNameAfterDot_ends (calls : Meets tables limit)
    (sound : state.Sound tables.stoppable) (enough : 8 * state.measure < limit) :
    Makes tables methodNameAfterDot state fun _ _ => True := by
  refine Ends.lift_bind (Scan.setFlags_builds (Held.refl sound) rfl rfl rfl rfl rfl) ?_
  rintro _ flagged ⟨held, still, -⟩
  have calm := still.calm
  refine (methodName_ends calls held.sound (by omega)).bind held ?_
  rintro ⟨span, name⟩ read held - -
  exact makes_pure (held.weaken (by simp)) trivial

theorem parenthesizedReceiver_ends (calls : Meets tables limit)
    (sound : state.Sound tables.stoppable) (ahead : state.AtToken)
    (enough : 8 * state.measure ≤ limit) :
    Makes tables parenthesizedReceiver state fun _ _ => True := by
  obtain ⟨token, seen, more⟩ := ahead
  refine Ends.bind (take_ends sound seen more) ?_
  rintro opening taken ⟨held, -, less, -⟩
  refine (expressionValue_ends calls held.sound (by omega)).bind held ?_
  rintro receiver read held made -
  have shorter := made.keeps.onward
  refine (expect_ends calls held.sound (by omega) (by simp)).bind held ?_
  rintro close closed held made -
  have later := made.keeps.onward
  refine Ends.lift_bind (Scan.widen_ends held (held.live (by simp)) _) ?_
  rintro _ widened ⟨held, still, -⟩
  have calm := still.calm
  refine (accept_ends calls held.sound (by omega) (by simp)).bind held ?_
  rintro dot accepted held made -
  have fewer := made.keeps.onward
  refine Ends.ite (fun _ => ?_) fun _ => makes_pure (held.weaken (by simp)) trivial
  refine (accept_ends calls held.sound (by omega) (by simp)).bind held ?_
  rintro colons tried held made -
  have least := made.keeps.onward
  refine Ends.ite (fun _ => ?_) fun _ => makes_pure (held.weaken (by simp)) trivial
  refine (peekToken_ends calls held.sound (by omega)).bind held ?_
  rintro token peeked held - -
  refine Ends.lift_bind (Scan.unexpected_builds held token _) ?_
  rintro _ reported ⟨held, -⟩
  exact makes_pure (held.weaken (by simp)) trivial

theorem receiverShape_handles {name : Symbol} (named : .name name ∈ handles)
    {written : Bytes} {known : Bool} :
    ∀ handle ∈ handlesOf (receiverShape written name known), handle ∈ handles := by
  unfold receiverShape
  repeat' split
  all_goals simp [named]

theorem methodHead_ends (calls : Meets tables limit) (sound : state.Sound tables.stoppable)
    (enough : 8 * state.measure < limit) :
    Makes tables methodHead state fun _ _ => True := by
  refine Ends.bind (peekKind_ends calls sound enough) ?_
  rintro _ peeked ⟨held, token, seen, rfl⟩
  have shorter := held.keeps.onward
  refine Ends.ite (fun paren => ?_) fun _ => ?_
  · have more : token.kind ≠ .endOfInput := by
      intro ended
      rw [ended] at paren
      cases paren
    refine (parenthesizedReceiver_ends calls held.sound ⟨token, seen, more⟩ (by omega)).bind
      held ?_
    rintro receiver read held made -
    have later := made.keeps.onward
    refine (methodNameAfterDot_ends calls held.sound (by omega)).bind held ?_
    rintro name named held - -
    exact makes_pure (held.weaken (by simp)) trivial
  · refine (methodName_ends calls held.sound (by omega)).bind held ?_
    rintro ⟨span, name⟩ named held made -
    have later := made.keeps.onward
    refine (peekKind_ends calls held.sound (by omega)).bind held ?_
    rintro _ followed held made ⟨next, ahead, rfl⟩
    have further := made.keeps.onward
    split
    case h_3 => exact makes_pure (held.weaken (by simp)) trivial
    all_goals
      rename_i kind
      refine Ends.get_bind ?_
      dsimp only
      refine Ends.look_bind (Scan.sliceOf_looks _) fun written _ => ?_
      refine Ends.lift_bind (Scan.alloc_ends held (receiverShape_handles (by simp)) span) ?_
      rintro receiver stored ⟨held, still, -⟩
      have calm := still.calm
      refine (skip_ends held.sound ⟨next, still.lookahead.trans ahead, by simp [kind]⟩).bind
        held ?_
      rintro _ skipped held - ⟨less, -⟩
      refine (methodNameAfterDot_ends calls held.sound (by omega)).bind held ?_
      rintro _ last held - -
      exact makes_pure (held.weaken (by simp)) trivial

/-! ### Definitions -/

theorem methodParameters_ends (calls : Meets tables limit)
    (sound : state.Sound tables.stoppable) (enough : 8 * state.measure < limit) :
    Makes tables methodParameters state fun _ _ => True := by
  refine Ends.bind (peekKind_ends calls sound enough) ?_
  rintro _ peeked ⟨held, token, seen, rfl⟩
  have shorter := held.keeps.onward
  refine Ends.ite (fun paren => ?_) fun _ => Ends.ite (fun _ => ?_) fun _ => ?_
  · have more : token.kind ≠ .endOfInput := by
      intro ended
      rw [ended] at paren
      cases paren
    exact ((parenthesizedParameters_ends calls held.sound ⟨token, seen, more⟩
      (by omega)).extends held).makes fun _ _ _ _ => trivial
  · exact makes_pure held.forget trivial
  · exact ((parameters_ends calls held.sound (by omega) .line).extends held).makes
      fun _ _ _ _ => trivial

theorem methodDefinition_ends (calls : Meets tables limit)
    (sound : state.Sound tables.stoppable) (ahead : state.AtToken)
    (enough : 8 * state.measure ≤ limit) :
    Makes tables methodDefinition state fun id after => after.arena.Rooted id := by
  refine openConstruct_bind sound ahead fun word entered held less => ?_
  refine (methodHead_ends calls held.sound (by omega)).bind held ?_
  rintro ⟨receiver, name⟩ headed held made -
  have shorter := made.keeps.onward
  refine (isolated_ends held.sound fun inner sound same => ?_).bind held ?_
  · refine Ends.lift_bind (Scan.enterScope_builds (Held.refl sound) .method) ?_
    rintro _ opened ⟨held, still, -⟩
    have calm := still.calm
    refine (methodParameters_ends calls held.sound (by omega)).bind held ?_
    rintro list listed held made -
    have later := made.keeps.onward
    refine (body_ends calls held.sound (by omega)).bind held ?_
    rintro inner read held made -
    have further := made.keeps.onward
    refine (expectEnd_ends calls held.sound (by omega)).bind held ?_
    rintro close closed held - -
    refine Ends.lift_bind (Scan.leaveScope_builds held (by simp +contextual) _) ?_
    rintro scope left ⟨held, -⟩
    exact makes_pure (held.weaken (by simp +contextual [or_imp])) trivial
  rintro ⟨list, scope, span⟩ defined held - -
  refine Ends.lift_bind (Scan.leaveConstruct_builds held) ?_
  rintro _ left ⟨held, -⟩
  cases receiver <;>
    exact (extends_lift (Scan.alloc_ends held (by simp +contextual [or_imp]) _)).makes
      fun _ _ _ rooted => rooted

theorem classBody_ends (calls : Meets tables limit) (sound : state.Sound tables.stoppable)
    (enough : 8 * state.measure + 7 < limit) (word : Span) :
    Makes tables (classBody word) state fun _ _ => True := by
  refine Ends.bind (skipTerminators_ends calls sound (by omega)) ?_
  rintro _ skipped ⟨held, -⟩
  have shorter := held.keeps.onward
  refine (isolated_ends held.sound fun inner sound same => ?_).bind held ?_
  · refine Ends.lift_bind (Scan.enterScope_builds (Held.refl sound) .classBody) ?_
    rintro _ opened ⟨held, still, -⟩
    have calm := still.calm
    refine (body_ends calls held.sound (by omega)).bind held ?_
    rintro inner read held made -
    have further := made.keeps.onward
    refine (expectEnd_ends calls held.sound (by omega)).bind held ?_
    rintro close closed held - -
    refine Ends.lift_bind (Scan.leaveScope_builds held (by simp +contextual) _) ?_
    rintro scope left ⟨held, -⟩
    exact makes_pure (held.weaken (by simp)) trivial
  rintro ⟨scope, span⟩ defined held - -
  refine Ends.lift_bind (Scan.leaveConstruct_builds held) ?_
  rintro _ left ⟨held, -⟩
  exact makes_pure (held.weaken (by simp +contextual)) trivial

theorem constantPath_ends (calls : Meets tables limit) (sound : state.Sound tables.stoppable)
    (enough : 8 * state.measure + 1 < limit) :
    Makes tables constantPath state fun _ _ => True := by
  refine Ends.bind (calls.chain state sound enough) ?_
  rintro operand read ⟨held, rooted, -⟩
  refine Ends.lift_bind (Scan.nodeOf_builds held (fun _ => id) rooted) ?_
  rintro node made ⟨held, -⟩
  dsimp only
  split
  · exact makes_pure (held.weaken (by simp)) trivial
  · refine Ends.look_bind (Scan.spanOf_looks (held.live (by simp))) fun span _ => ?_
    refine Ends.lift_bind (Scan.report_builds held span _) ?_
    rintro _ reported ⟨held, -⟩
    exact makes_pure (held.weaken (by simp)) trivial

theorem classDefinition_ends (calls : Meets tables limit)
    (sound : state.Sound tables.stoppable) (ahead : state.AtToken)
    (enough : 8 * state.measure ≤ limit) :
    Makes tables classDefinition state fun id after => after.arena.Rooted id := by
  refine openConstruct_bind sound ahead fun word entered held less => ?_
  refine (accept_ends calls held.sound (by omega) (by simp)).bind held ?_
  rintro found accepted held made -
  have shorter := made.keeps.onward
  refine Ends.ite (fun _ => ?_) fun _ => ?_
  · refine (expressionValue_ends calls held.sound (by omega)).bind held ?_
    rintro target read held made -
    have later := made.keeps.onward
    refine (classBody_ends calls held.sound (by omega) word.span).bind held ?_
    rintro ⟨scope, span⟩ defined held - -
    exact (extends_lift (Scan.alloc_ends held (by simp) span)).makes fun _ _ _ rooted => rooted
  · refine Ends.get_bind (Ends.when (fun reached => Held tables.stoppable state [] reached ∧
      state.Past reached) (fun _ => ?_) (fun _ => ?_) ?_)
    · refine (ends_lift (Scan.report_builds held _ _)).mono ?_
      rintro _ reported ⟨held, still, -⟩
      have calm := still.calm
      exact ⟨held.forget, by omega⟩
    · exact ⟨held.forget, by omega⟩
    rintro reported ⟨held, less⟩
    refine (constantPath_ends calls held.sound (by omega)).bind held ?_
    rintro path named held made -
    have later := made.keeps.onward
    refine (accept_ends calls held.sound (by omega) (by simp)).bind held ?_
    rintro derived tried held made -
    have further := made.keeps.onward
    refine Ends.made_or_value (fun superclass reached =>
      Held tables.stoppable state (handlesOf superclass ++ handlesOf path) reached ∧
        state.Past reached) (fun _ => ?_) (fun _ => ?_) ?_
    · refine ((expressionValue_ends calls held.sound (by omega)).extends held).mono ?_
      rintro superclass read ⟨held, fewer, -⟩
      exact ⟨held.weaken (by simp), by omega⟩
    · exact ⟨held.weaken (by simp), by omega⟩
    rintro superclass reached ⟨held, less⟩
    refine (classBody_ends calls held.sound (by omega) word.span).bind held ?_
    rintro ⟨scope, span⟩ defined held - -
    exact (extends_lift (Scan.alloc_ends held (by simp +contextual [or_imp]) span)).makes
      fun _ _ _ rooted => rooted

theorem moduleDefinition_ends (calls : Meets tables limit)
    (sound : state.Sound tables.stoppable) (ahead : state.AtToken)
    (enough : 8 * state.measure ≤ limit) :
    Makes tables moduleDefinition state fun id after => after.arena.Rooted id := by
  refine openConstruct_bind sound ahead fun word entered held less => ?_
  refine Ends.get_bind (Ends.when (fun reached => Held tables.stoppable state [] reached ∧
    state.Past reached) (fun _ => ?_) (fun _ => ⟨held, less⟩) ?_)
  · refine (ends_lift (Scan.report_builds held _ _)).mono ?_
    rintro _ reported ⟨held, still, -⟩
    have calm := still.calm
    exact ⟨held.forget, by omega⟩
  rintro reported ⟨held, less⟩
  refine (constantPath_ends calls held.sound (by omega)).bind held ?_
  rintro path named held made -
  have later := made.keeps.onward
  refine (classBody_ends calls held.sound (by omega) word.span).bind held ?_
  rintro ⟨scope, span⟩ defined held - -
  exact (extends_lift (Scan.alloc_ends held (by simp) span)).makes fun _ _ _ rooted => rooted

/-! ### Blocks and lambdas -/

theorem blockScope_ends (calls : Meets tables limit) (sound : state.Sound tables.stoppable)
    (enough : 8 * state.measure + 7 < limit) {inner : Parse (Option NodeId)} {close : Parse Span}
    (reads : ∀ state, state.Sound tables.stoppable → 8 * state.measure + 7 < limit →
      Makes tables inner state fun _ _ => True)
    (closes : ∀ state, state.Sound tables.stoppable → 8 * state.measure < limit →
      Makes tables close state fun _ _ => True) (opening : Token) :
    Makes tables (do
      Scan.enterScope .block
      let list ← blockParameters
      let inner ← inner
      let close ← close
      let span := opening.span.hull close
      return (list, ← Scan.leaveScope inner span, span)) state fun _ _ => True := by
  refine Ends.lift_bind (Scan.enterScope_builds (Held.refl sound) .block) ?_
  rintro _ opened ⟨held, still, -⟩
  have calm := still.calm
  refine (blockParameters_ends calls held.sound (by omega)).bind held ?_
  rintro list listed held made -
  have shorter := made.keeps.onward
  refine (reads listed held.sound (by omega)).bind held ?_
  rintro inner read held made -
  have later := made.keeps.onward
  refine (closes read held.sound (by omega)).bind held ?_
  rintro close closed held - -
  refine Ends.lift_bind (Scan.leaveScope_builds held (by simp +contextual) _) ?_
  rintro scope left ⟨held, -⟩
  exact makes_pure (held.weaken (by simp +contextual [or_imp])) trivial

theorem blockBody_ends (calls : Meets tables limit) (sound : state.Sound tables.stoppable)
    (enough : 8 * state.measure + 7 < limit) (opening : Token) :
    Makes tables (blockBody opening) state fun id after =>
      ∃ node, after.arena.get? id = some node ∧ ¬node.shape.IsSymbol := by
  refine Ends.lift_bind (Scan.enterConstruct_builds (Held.refl sound)) ?_
  rintro _ entered ⟨held, still, -⟩
  have calm := still.calm
  have finish {list : Option NodeId} {scope : NodeId} {span : Span} {reached : State}
      (held : Held tables.stoppable state (handlesOf (list, scope, span)) reached) :
      Ends tables (do
        Scan.leaveConstruct
        Scan.alloc (.closure .block list scope) span) reached fun id after =>
          Held tables.stoppable state (handlesOf id) after ∧
            ∃ node, after.arena.get? id = some node ∧ ¬node.shape.IsSymbol := by
    refine Ends.lift_bind (Scan.leaveConstruct_builds held) ?_
    rintro _ left ⟨held, -⟩
    refine (ends_lift (Scan.alloc_stores held (by simp +contextual) span)).mono ?_
    rintro id after ⟨held, -, -, stored⟩
    obtain ⟨node, found, same⟩ := stored.found
    exact ⟨held.weaken (by simp), node, found, by rw [same]; rintro ⟨⟩⟩
  cases opening.kind.isLeftBrace with
  | true =>
      refine (blockScope_ends calls held.sound (by omega)
        (fun state sound enough => (calls.statements state sound enough).mono
          fun _ _ _ _ => trivial)
        (fun _ sound enough => expect_ends calls sound enough (by simp)) opening).bind held ?_
      rintro ⟨list, scope, span⟩ read held - -
      exact finish (held.weaken (by simp +contextual))
  | false =>
      refine (isolated_ends held.sound fun inner sound same =>
        blockScope_ends calls sound (by omega) (fun _ => body_ends calls)
          (fun _ => expectEnd_ends calls) opening).bind held ?_
      rintro ⟨list, scope, span⟩ read held - -
      exact finish (held.weaken (by simp +contextual))

/-- The block is new, so it is not the call that it is given to. -/
theorem block_ends (calls : Meets tables limit) (sound : state.Sound tables.stoppable)
    (ahead : state.AtToken) (enough : 8 * state.measure ≤ limit) :
    Makes tables block state fun id after =>
      state.Past after ∧ ¬state.arena.Live id := by
  obtain ⟨token, seen, more⟩ := ahead
  refine Ends.bind (take_ends sound seen more) ?_
  rintro opening taken ⟨held, -, less, -⟩
  refine Ends.mono (deeper_ends _ held (fun id after => state.Past after ∧
    ∃ node, after.arena.get? id = some node ∧ ¬node.shape.IsSymbol) (fun _ _ _ => id)
    fun deep held still _ => ?_) ?_
  · have calm := still.calm
    refine ((blockBody_ends calls held.sound (by omega) opening).extends held).mono ?_
    rintro id after ⟨held, shorter, closure⟩
    exact ⟨held, by omega, closure⟩
  · rintro id after ⟨held, less, node, found, plain⟩
    exact ⟨held.weaken (by simp), less, held.fresh (by simp) found plain⟩

theorem lambdaBody_ends (calls : Meets tables limit) (sound : state.Sound tables.stoppable)
    (enough : 8 * state.measure < limit) :
    Makes tables lambdaBody state fun _ _ => True := by
  refine Ends.bind (peekToken_ends calls sound enough) ?_
  rintro token peeked ⟨held, seen, -⟩
  have shorter := held.keeps.onward
  refine Ends.ite (fun brace => ?_) fun _ => Ends.ite (fun word => ?_) fun _ => ?_
  · have more : token.kind ≠ .endOfInput := by
      intro ended
      rw [ended] at brace
      cases brace
    refine (skip_ends held.sound ⟨token, seen, more⟩).bind held ?_
    rintro _ skipped held - ⟨less, -⟩
    refine (calls.statements skipped held.sound (by omega)).bind held ?_
    rintro inner read held made -
    have later := made.keeps.onward
    refine (expect_ends calls held.sound (by omega) (by simp)).bind held ?_
    rintro close closed held - -
    exact makes_pure (held.weaken (by simp +contextual)) trivial
  · have more : token.kind ≠ .endOfInput := by
      intro ended
      rw [ended] at word
      cases word
    refine (skip_ends held.sound ⟨token, seen, more⟩).bind held ?_
    rintro _ skipped held - ⟨less, -⟩
    refine ((isolated_ends held.sound fun inner sound same => ?_).extends held).makes
      fun _ _ _ _ => trivial
    refine Ends.bind (body_ends calls sound (by omega)) ?_
    rintro inner read ⟨held, -⟩
    have later := held.keeps.onward
    refine (expectEnd_ends calls held.sound (by omega)).bind held ?_
    rintro close closed held - -
    exact makes_pure (held.weaken (by simp +contextual)) trivial
  · refine Ends.lift_bind (Scan.unexpected_builds held token _) ?_
    rintro _ reported ⟨held, -⟩
    exact makes_pure held.forget trivial

theorem lambdaRest_ends (calls : Meets tables limit) {list : Option NodeId}
    (held : Held tables.stoppable base (handlesOf list) state)
    (enough : 8 * state.measure + 8 ≤ limit) (arrow : Token) :
    Ends tables (do
      let (inner, close) ← lambdaBody
      let span := arrow.span.hull close
      let scope ← Scan.leaveScope inner span
      Scan.leaveConstruct
      Scan.alloc (.closure .lambda list scope) span) state fun id after =>
        Held tables.stoppable base (handlesOf id) after ∧ after.arena.Rooted id := by
  refine (lambdaBody_ends calls held.sound (by omega)).bind held ?_
  rintro ⟨inner, close⟩ read held - -
  refine Ends.lift_bind (Scan.leaveScope_builds held (by simp +contextual) _) ?_
  rintro scope departed ⟨held, -⟩
  refine Ends.lift_bind (Scan.leaveConstruct_builds held) ?_
  rintro _ left ⟨held, -⟩
  exact (extends_lift (Scan.alloc_ends held (by simp +contextual [or_imp]) _)).makes
    fun _ _ _ rooted => rooted

theorem lambda_ends (calls : Meets tables limit) (sound : state.Sound tables.stoppable)
    (ahead : state.AtToken) (enough : 8 * state.measure ≤ limit) :
    Makes tables lambda state fun id after => after.arena.Rooted id := by
  refine openConstruct_bind sound ahead fun arrow entered held less => ?_
  refine Ends.lift_bind (Scan.enterScope_builds held .block) ?_
  rintro _ opened ⟨held, still, -⟩
  have calm := still.calm
  refine (peekKind_ends calls held.sound (by omega)).bind held ?_
  rintro _ peeked held made ⟨token, seen, rfl⟩
  have shorter := made.keeps.onward
  refine Ends.ite (fun paren => ?_) fun _ => ?_
  · have more : token.kind ≠ .endOfInput := by
      intro ended
      rw [ended] at paren
      cases paren
    refine (parenthesizedParameters_ends calls held.sound ⟨token, seen, more⟩ (by omega)).bind
      held ?_
    rintro list listed held made -
    have later := made.keeps.onward
    exact lambdaRest_ends calls (held.weaken (by simp +contextual)) (by omega) arrow
  · refine (parameters_ends calls held.sound (by omega) .lambdaBody).bind held ?_
    rintro list listed held made -
    have later := made.keeps.onward
    exact lambdaRest_ends calls (held.weaken (by simp +contextual)) (by omega) arrow

/-! ### Names that are aliased or removed -/

theorem methodItem_ends (calls : Meets tables limit) (sound : state.Sound tables.stoppable)
    (enough : 8 * state.measure < limit) :
    Ends tables methodItem state fun _ after => Held tables.stoppable state [] after := by
  refine Ends.bind (peekToken_ends calls sound enough) ?_
  rintro token peeked ⟨held, seen, -⟩
  have shorter := held.keeps.onward
  split
  case h_1 kind =>
    refine (skip_ends held.sound ⟨token, seen, by simp [kind]⟩).bind held ?_
    rintro _ skipped held - -
    exact ends_pure held.forget
  case h_2 kind =>
    refine (literal_ends calls held.sound ⟨token, seen, by simp [kind]⟩ (by omega)
      .symbol).bind held ?_
    rintro node read held made -
    refine Ends.look_bind (Scan.shapeOf_looks (held.live (by simp))) fun shape _ => ?_
    split
    · exact ends_pure held.forget
    · refine Ends.look_bind (Scan.spanOf_looks (held.live (by simp))) fun span _ => ?_
      refine Ends.lift_bind (Scan.report_builds held span _) ?_
      rintro _ reported ⟨held, -⟩
      exact (ends_lift (Scan.intern_builds held _)).mono fun _ _ built => built.1.forget
  case h_6 =>
    refine (methodName_ends calls held.sound (by omega)).bind held ?_
    rintro ⟨span, name⟩ read held - -
    exact ends_pure held.forget
  all_goals
    rename_i name kind
    refine Ends.lift_bind (Scan.unexpected_builds held token _) ?_
    rintro _ reported ⟨held, still, -⟩
    refine (skip_ends held.sound ⟨token, still.lookahead.trans seen, by simp [kind]⟩).bind
      held ?_
    rintro _ skipped held - -
    exact ends_pure held.forget

theorem globalAliasShape_ends (calls : Meets tables limit)
    (sound : state.Sound tables.stoppable) (enough : 8 * state.measure < limit)
    (newName : Symbol) :
    Makes tables (globalAliasShape newName) state fun _ _ => True := by
  refine Ends.bind (peekToken_ends calls sound enough) ?_
  rintro token peeked ⟨held, seen, -⟩
  split
  case h_3 kind =>
    refine (skip_ends held.sound ⟨token, seen, by simp [kind]⟩).bind held ?_
    rintro _ skipped held - -
    refine Ends.lift_bind (Scan.report_builds held token.span _) ?_
    rintro _ reported ⟨held, -⟩
    exact makes_pure (held.weaken (by simp)) trivial
  case h_4 =>
    refine Ends.lift_bind (Scan.unexpected_builds held token _) ?_
    rintro _ reported ⟨held, -⟩
    exact makes_pure (held.weaken (by simp)) trivial
  all_goals
    rename_i kind
    refine (skip_ends held.sound ⟨token, seen, by simp [kind]⟩).bind held ?_
    rintro _ skipped held - -
    refine Ends.look_bind (Scan.sliceOf_looks _) fun bytes _ => ?_
    refine Ends.lift_bind (Scan.intern_builds held bytes) ?_
    rintro name interned ⟨held, -⟩
    exact makes_pure (held.weaken (by simp)) trivial

theorem globalAlias_ends (calls : Meets tables limit) (sound : state.Sound tables.stoppable)
    (ahead : state.AtToken) (enough : 8 * state.measure ≤ limit) (start : Nat) :
    Makes tables (globalAlias start) state fun id after => after.arena.Rooted id := by
  obtain ⟨token, seen, more⟩ := ahead
  refine Ends.bind (take_ends sound seen more) ?_
  rintro token taken ⟨held, -, less, -⟩
  refine Ends.look_bind (Scan.sliceOf_looks _) fun bytes _ => ?_
  refine Ends.lift_bind (Scan.intern_builds held bytes) ?_
  rintro name interned ⟨held, still, -⟩
  have calm := still.calm
  refine (globalAliasShape_ends calls held.sound (by omega) name).bind held ?_
  rintro shape shaped held - -
  have finish {reached : State} {handles : List Handle}
      (held : Held tables.stoppable state (handlesOf shape ++ handles) reached) :
      Ends tables (do Scan.alloc shape (← spanSince start)) reached fun id after =>
        Held tables.stoppable state (handlesOf id) after ∧ after.arena.Rooted id := by
    refine Ends.spanSince_bind fun span => ?_
    exact (extends_lift (Scan.alloc_ends held (by simp +contextual) span)).makes
      fun _ _ _ rooted => rooted
  dsimp only
  split
  · refine Ends.lift_bind (Scan.report_builds held token.span _) ?_
    rintro _ reported ⟨held, -⟩
    exact finish held
  · exact finish held

theorem methodAlias_ends (calls : Meets tables limit) (sound : state.Sound tables.stoppable)
    (enough : 8 * state.measure < limit) (start : Nat) :
    Makes tables (methodAlias start) state fun id after => after.arena.Rooted id := by
  refine Ends.bind (methodItem_ends calls sound enough) ?_
  rintro newName read held
  have shorter := held.keeps.onward
  refine Ends.lift_bind (Scan.setFlags_builds held rfl rfl rfl rfl rfl) ?_
  rintro _ flagged ⟨held, still, -⟩
  have calm := still.calm
  refine Ends.bind (methodItem_ends calls held.sound (by omega)) ?_
  rintro oldName last made
  refine Ends.spanSince_bind fun span => ?_
  exact (extends_lift (Scan.alloc_ends (held.next made) (by simp) span)).makes
    fun _ _ _ rooted => rooted

theorem aliasStatement_ends (calls : Meets tables limit) (sound : state.Sound tables.stoppable)
    (ahead : state.AtToken) (enough : 8 * state.measure ≤ limit) :
    Makes tables aliasStatement state fun id after => after.arena.Rooted id := by
  obtain ⟨token, seen, more⟩ := ahead
  refine Ends.bind (take_ends sound seen more) ?_
  rintro word taken ⟨held, -, less, -⟩
  refine (peekKind_ends calls held.sound (by omega)).bind held ?_
  rintro _ peeked held made ⟨token, seen, rfl⟩
  have shorter := made.keeps.onward
  split
  case h_4 =>
    exact ((methodAlias_ends calls held.sound (by omega) _).extends held).makes
      fun _ _ _ rooted => rooted
  all_goals
    rename_i kind
    exact ((globalAlias_ends calls held.sound ⟨token, seen, by simp [kind]⟩ (by omega)
      _).extends held).makes fun _ _ _ rooted => rooted

theorem undefTurn_ends (calls : Meets tables limit)
    (held : Held tables.stoppable base [] state) (enough : 8 * state.measure < limit)
    (names : Array Symbol) :
    Ends tables (undefTurn names) state (Turned
      (fun _ after => Held tables.stoppable base [] after)
      (fun _ after => Held tables.stoppable base [] after) state) := by
  refine (accept_ends calls held.sound enough (by simp)).bind held ?_
  rintro found accepted held made past
  refine Ends.ite (fun yes => ?_) fun _ => ends_pure held.forget
  have past := past yes
  refine Ends.lift_bind (Scan.setFlags_builds held rfl rfl rfl rfl rfl) ?_
  rintro _ flagged ⟨held, still, -⟩
  have calm := still.calm
  refine Ends.bind (methodItem_ends calls held.sound (by omega)) ?_
  rintro name last made
  have later := made.keeps.onward
  exact ends_pure ⟨(held.next made).forget, by omega⟩

theorem undefStatement_ends (calls : Meets tables limit) (sound : state.Sound tables.stoppable)
    (ahead : state.AtToken) (enough : 8 * state.measure ≤ limit) :
    Makes tables undefStatement state fun id after => after.arena.Rooted id := by
  obtain ⟨token, seen, more⟩ := ahead
  refine Ends.bind (take_ends sound seen more) ?_
  rintro word taken ⟨held, -, less, -⟩
  refine Ends.bind (methodItem_ends calls held.sound (by omega)) ?_
  rintro first read made
  have shorter := made.keeps.onward
  have held := held.next made
  refine Ends.bind (loop_ends _ held.sound held.forget fun names _ held onward =>
    undefTurn_ends calls held (by omega) names) ?_
  rintro names after held
  refine Ends.spanSince_bind fun span => ?_
  exact (extends_lift (Scan.alloc_ends held (by simp) span)).makes fun _ _ _ rooted => rooted

/-! ### Statements at the start and the end of a program -/

theorem bracedStatements_ends (calls : Meets tables limit)
    (sound : state.Sound tables.stoppable) (enough : 8 * state.measure + 7 < limit) :
    Makes tables bracedStatements state fun _ _ => True := by
  refine Ends.bind (peekToken_ends calls sound (by omega)) ?_
  rintro token peeked ⟨held, seen, -⟩
  have shorter := held.keeps.onward
  have rest {reached : State} (held : Held tables.stoppable state [] reached)
      (le : state.Onward reached) :
      Ends tables (do
        Scan.enterConstruct
        let inner ← deeper token.span.start (descend .statements)
        let close ← expect (.punct .rightBrace)
        Scan.leaveConstruct
        Scan.alloc (.optional .group inner) (token.span.hull close)) reached fun id after =>
          Held tables.stoppable state (handlesOf id) after ∧ True := by
    refine Ends.lift_bind (Scan.enterConstruct_builds held) ?_
    rintro _ entered ⟨held, still, -⟩
    have calm := still.calm
    refine Ends.bind (deeper_ends token.span.start held
      (fun _ after => entered.Onward after) (fun _ _ _ => id) fun deep held quiet _ => ?_) ?_
    · have silent := quiet.calm
      exact ((calls.statements deep held.sound (by omega)).extends held).mono
        fun _ _ made => ⟨made.1, by have := made.2.1; omega⟩
    rintro inner read ⟨held, later⟩
    refine (expect_ends calls held.sound (by omega) (by simp)).bind held ?_
    rintro close closed held - -
    refine Ends.lift_bind (Scan.leaveConstruct_builds held) ?_
    rintro _ left ⟨held, -⟩
    exact (extends_lift (Scan.alloc_ends held (by simp +contextual) _)).makes
      fun _ _ _ _ => trivial
  refine Ends.ite (fun brace => ?_) fun _ => ?_
  · have more : token.kind ≠ .endOfInput := by
      intro ended
      rw [ended] at brace
      cases brace
    refine (skip_ends held.sound ⟨token, seen, more⟩).bind held ?_
    rintro _ skipped held - ⟨less, -⟩
    exact rest held.forget (by omega)
  · refine Ends.lift_bind (Scan.unexpected_builds held token _) ?_
    rintro _ reported ⟨held, still, -⟩
    have calm := still.calm
    exact rest held.forget (by omega)

theorem atStart_ends (calls : Meets tables limit) (sound : state.Sound tables.stoppable)
    (ahead : state.AtToken) (enough : 8 * state.measure ≤ limit) :
    Makes tables atStart state fun id after => after.arena.Rooted id := by
  obtain ⟨token, seen, more⟩ := ahead
  refine Ends.bind (take_ends sound seen more) ?_
  rintro word taken ⟨held, -, less, -⟩
  refine Ends.get_bind (Ends.when (fun reached => Held tables.stoppable state [] reached ∧
    state.Past reached) (fun _ => ?_) (fun _ => ⟨held.forget, less⟩) ?_)
  · refine (ends_lift (Scan.report_builds held _ _)).mono ?_
    rintro _ reported ⟨held, still, -⟩
    have calm := still.calm
    exact ⟨held.forget, by omega⟩
  rintro reported ⟨held, less⟩
  refine (bracedStatements_ends calls held.sound (by omega)).bind held ?_
  rintro inner read held - -
  refine Ends.look_bind (Scan.spanOf_looks (held.live (by simp))) fun span _ => ?_
  exact (extends_lift (Scan.alloc_ends held (by simp) _)).makes fun _ _ _ rooted => rooted

theorem atExit_ends (calls : Meets tables limit) (sound : state.Sound tables.stoppable)
    (ahead : state.AtToken) (enough : 8 * state.measure ≤ limit) :
    Makes tables atExit state fun id after => after.arena.Rooted id := by
  obtain ⟨token, seen, more⟩ := ahead
  refine Ends.bind (take_ends sound seen more) ?_
  rintro word taken ⟨held, -, less, -⟩
  refine Ends.get_bind (Ends.when (fun reached => Held tables.stoppable state [] reached ∧
    state.Past reached) (fun _ => ?_) (fun _ => ⟨held.forget, less⟩) ?_)
  · refine (ends_lift (Scan.report_builds held _ _)).mono ?_
    rintro _ reported ⟨held, still, -⟩
    have calm := still.calm
    exact ⟨held.forget, by omega⟩
  rintro reported ⟨held, less⟩
  refine Ends.lift_bind (Scan.enterScope_builds held .block) ?_
  rintro _ opened ⟨held, still, -⟩
  have calm := still.calm
  refine (bracedStatements_ends calls held.sound (by omega)).bind held ?_
  rintro inner read held - -
  refine Ends.look_bind (Scan.spanOf_looks (held.live (by simp))) fun span _ => ?_
  refine Ends.lift_bind (Scan.leaveScope_builds held (by simp) span) ?_
  rintro scope left ⟨held, -⟩
  exact (extends_lift (Scan.alloc_ends held (by simp) _)).makes fun _ _ _ rooted => rooted

end Parse

end RubySyntax
