/-
Requests for more input.

More is asked for where the bytes run out, and what was answered is not remembered. An answer
without bytes ends the program where nothing is open. An open literal is given as far as it
goes, and then more is asked for again; but as long as nothing comes it cannot be closed, and
the parse ends with a fatal error. So if answers stay away once one of them has, a parse that
gives a tree has asked in vain at most once.
-/

import RubySyntax.Proofs.Ending

namespace RubySyntax

def hasBytes (answer : Option Chunk) : Bool :=
  answer.any fun chunk => !chunk.bytes.isEmpty

def StayAway (answers : List (Option Chunk)) : Prop :=
  ∀ answer ∈ answers.dropWhile hasBytes, hasBytes answer = false

namespace Input

/-- No request has been in vain. With the answers that still supply bytes there are no more
than a number of requests. -/
structure Hopeful (limit : Nat) (input : Input) : Prop where
  stayAway : StayAway input.answers
  within : input.requests + (input.answers.takeWhile hasBytes).length ≤ limit

structure Exhausted (input : Input) : Prop where
  rest : input.rest = []
  answers : ∀ answer ∈ input.answers, hasBytes answer = false

structure Denied (limit : Nat) (input : Input) : Prop extends input.Exhausted where
  once : input.requests ≤ limit + 1

variable {limit : Nat} {input : Input}

theorem Hopeful.advance (hopeful : input.Hopeful limit) (distance : Nat) :
    (input.advance distance).Hopeful limit :=
  ⟨hopeful.stayAway, hopeful.within⟩

theorem Hopeful.append {chunk : Chunk} (hopeful : input.Hopeful limit)
    (answer : input.answers.head?.join = some chunk) (some : chunk.bytes.isEmpty = false) :
    (input.ask.append chunk.bytes).Hopeful limit := by
  obtain ⟨stayAway, within⟩ := hopeful
  unfold StayAway at stayAway
  cases answers : input.answers with
  | nil =>
      rw [answers] at answer
      cases answer
  | cons first more =>
      rw [answers] at answer stayAway within
      obtain rfl : first = .some chunk := answer
      have supplies : hasBytes (.some chunk) = true := by
        rw [hasBytes, Option.any_some, some]
        rfl
      rw [List.dropWhile_cons_of_pos supplies] at stayAway
      rw [List.takeWhile_cons_of_pos supplies, List.length_cons] at within
      constructor
      · change StayAway input.answers.tail
        rw [answers]
        exact stayAway
      · change input.requests + 1 + (input.answers.tail.takeWhile hasBytes).length ≤ limit
        rw [answers, List.tail_cons]
        omega

theorem Hopeful.ask (hopeful : input.Hopeful limit) (nothing : input.rest = [])
    (empty : ((input.answers.head?.join).map Chunk.bytes).getD [] = []) :
    input.ask.Denied limit := by
  obtain ⟨stayAway, within⟩ := hopeful
  have once : input.ask.requests ≤ limit + 1 := Nat.succ_le_succ (Nat.le_of_add_right_le within)
  refine ⟨⟨nothing, ?_⟩, once⟩
  unfold StayAway at stayAway
  change ∀ answer ∈ input.answers.tail, hasBytes answer = false
  cases answers : input.answers with
  | nil => nofun
  | cons first more =>
      rw [answers] at empty stayAway
      have vain : ¬hasBytes first = true := by
        cases first with
        | none => exact Bool.false_ne_true
        | some chunk =>
            change chunk.bytes = [] at empty
            rw [hasBytes, Option.any_some, empty]
            exact Bool.false_ne_true
      rw [List.dropWhile_cons_of_neg vain] at stayAway
      exact fun answer member => stayAway answer (List.mem_cons_of_mem _ member)

theorem Exhausted.ask (exhausted : input.Exhausted) : input.ask.Exhausted where
  rest := exhausted.rest
  answers answer member := exhausted.answers answer (List.mem_of_mem_tail member)

theorem Exhausted.answer (exhausted : input.Exhausted) {chunk : Chunk}
    (answer : input.answers.head?.join = some chunk) : chunk.bytes.isEmpty = true := by
  cases answers : input.answers with
  | nil =>
      rw [answers] at answer
      cases answer
  | cons first more =>
      rw [answers] at answer
      obtain rfl : first = some chunk := answer
      have vain := exhausted.answers (some chunk) (by rw [answers]; exact List.mem_cons_self)
      rw [hasBytes, Option.any_some, Bool.not_eq_false'] at vain
      exact vain

end Input

def State.Course.hopeful (limit : Nat) : State.Course where
  relates before after := before.input.Hopeful limit → after.input.Hopeful limit
  refl _ := id
  trans first second := second ∘ first
  advance _ distance hopeful := hopeful.advance distance
  intern _ _ := id
  report _ _ _ := id

instance (limit : Nat) : (State.Course.hopeful limit).Whole where
  setLexer _ _ _ := id
  close _ := id

namespace Scan

variable {α : Type} {limit : Nat} {state : State}

theorem Follows.hopeful {step : Scan α} [follows : Follows (.hopeful limit) step]
    (hopeful : state.input.Hopeful limit) :
    Returns step state fun _ after => after.input.Hopeful limit :=
  (follows.returns state).mono fun _ _ kept => kept hopeful

theorem follows_hopeful {step : Scan α}
    (keeps : ∀ state, state.input.Hopeful limit →
      Returns step state fun _ after => after.input.Hopeful limit) :
    Follows (.hopeful limit) step := by
  constructor
  intro state
  constructor
  intro _ _ run hopeful
  exact (keeps state hopeful).post run

/-! ### A request -/

theorem fetchMore_asks (hopeful : state.input.Hopeful limit) (nothing : state.input.rest = []) :
    Returns fetchMore state fun more after =>
      after.input.position = state.input.position ∧
        (more = true ∧ after.input.Hopeful limit ∨ more = false ∧ after.input.Denied limit) := by
  apply Returns.get_bind
  apply Returns.relyOn_bind
  constructor
  intro _ _ run
  cases run
  dsimp only
  split
  · next answer => exact ⟨rfl, .inr ⟨rfl, hopeful.ask nothing (by rw [answer]; rfl)⟩⟩
  · next chunk answer =>
      cases empty : chunk.bytes.isEmpty with
      | true =>
          have without : ((state.input.answers.head?.join).map Chunk.bytes).getD [] = [] := by
            rw [answer]
            exact List.isEmpty_iff.mp empty
          exact ⟨rfl, .inr ⟨rfl, hopeful.ask nothing without⟩⟩
      | false => exact ⟨rfl, .inl ⟨rfl, hopeful.append answer empty⟩⟩

theorem hasMore_asks (hopeful : state.input.Hopeful limit) :
    Returns hasMore state fun more after =>
      after.input.position = state.input.position ∧
        (more = true ∧ after.input.Hopeful limit ∨ more = false ∧ after.input.Denied limit) := by
  apply Returns.get_bind
  split
  · next atEnd => exact fetchMore_asks hopeful (List.isEmpty_iff.mp atEnd)
  · exact returns_pure ⟨rfl, .inl ⟨rfl, hopeful⟩⟩

theorem hasMore_exhausted (exhausted : state.input.Exhausted) :
    Returns hasMore state fun more after =>
      more = false ∧ after.input.position = state.input.position ∧ after.input.Exhausted := by
  apply Returns.get_bind
  rw [Input.atEnd, exhausted.rest, List.isEmpty_nil, if_pos rfl]
  apply Returns.get_bind
  apply Returns.relyOn_bind
  constructor
  intro _ _ run
  cases run
  dsimp only
  split
  · exact ⟨rfl, rfl, exhausted.ask⟩
  · next chunk answer =>
      rw [if_pos (exhausted.answer answer)]
      exact ⟨rfl, rfl, exhausted.ask⟩

/-- Where a fatal error is the alternative, a request that is answered comes first. -/
theorem Returns.more_bind {error : Fatal} {next : Unit → Scan α} {post : α → State → Prop}
    (hopeful : state.input.Hopeful limit)
    (follow : ∀ reached, reached.input.Hopeful limit → reached.lexer = state.lexer →
      Returns (next ()) reached post) :
    Returns (hasMore >>= fun more => if (!more) = true then fail error >>= next else next ())
      state post := by
  have passes : Follows .passesOver hasMore := inferInstance
  apply ((hasMore_asks hopeful).and (passes.returns state)).bind
  intro more reached both
  obtain ⟨⟨-, ⟨rfl, hopeful⟩ | ⟨rfl, -⟩⟩, same⟩ := both
  · exact follow reached hopeful same
  · exact returns_fail_bind

theorem Returns.exhausted_bind {error : Fatal} {next : Unit → Scan α} {post : α → State → Prop}
    (exhausted : state.input.Exhausted) :
    Returns (hasMore >>= fun more => if (!more) = true then fail error >>= next else next ())
      state post := by
  apply (hasMore_exhausted exhausted).bind
  intro more reached denied
  obtain ⟨rfl, -⟩ := denied
  exact returns_fail_bind

instance (start : Nat) : Follows (.hopeful limit) (percentLiteral start) := by
  apply follows_hopeful
  intro state hopeful
  unfold percentLiteral
  apply Returns.get_bind
  extract_lets first letter opened afterLetter
  have opened_follows (checked : Unit) : Follows (.hopeful limit) (opened checked) := by
    apply Follows.andThen
    intro state
    dsimp only
    infer_instance
  have afterLetter_returns (reached : State) (hopeful : reached.input.Hopeful limit) :
      Returns (afterLetter ()) reached fun _ after => after.input.Hopeful limit := by
    unfold afterLetter
    apply Returns.more_bind hopeful
    intro asked hopeful _
    exact (opened_follows ()).hopeful hopeful
  clear_value afterLetter
  split
  · apply Returns.modify_bind
    exact afterLetter_returns _ (hopeful.advance 1)
  · exact afterLetter_returns state hopeful

instance : Follows (.hopeful limit) embeddedDocument := by
  apply follows_hopeful
  intro state hopeful
  unfold embeddedDocument
  apply Returns.position_bind
  extract_lets skipLine nextLine lineStart
  have skipLine_follows : Follows (.hopeful limit) skipLine :=
    inferInstanceAs (Follows (.hopeful limit) (get >>= fun state => advance _))
  have nextLine_follows (more : Unit) : Follows (.hopeful limit) (nextLine more) := by
    unfold nextLine
    clear_value skipLine
    infer_instance
  have lineStart_returns (reached : State) (hopeful : reached.input.Hopeful limit) :
      Returns (lineStart ()) reached fun _ after => after.input.Hopeful limit := by
    unfold lineStart
    apply Returns.more_bind hopeful
    intro asked hopeful _
    exact (nextLine_follows ()).hopeful hopeful
  clear_value lineStart
  apply (skipLine_follows.hopeful hopeful).bind
  intro _ reached hopeful
  apply repeatUntil_returns fun _ current => current.input.Hopeful limit
  · exact hopeful
  · intro _ current hopeful
    apply Returns.mono
    · apply Returns.peek_bind
      split
      · apply Returns.modify_bind
        exact lineStart_returns _ (hopeful.advance 1)
      · exact lineStart_returns current hopeful
    · intro result after hopeful
      cases result <;> exact hopeful

/-! ### Literals -/

structure Stuck (limit : Nat) (input : Input) (lexer : LexerState) : Prop where
  denied : input.Denied limit
  within : lexer.literal ≠ none
  settled : lexer.variablePending = false

inductive Asked (limit : Nat) (state : State) : Prop where
  | hopeful (hopeful : state.input.Hopeful limit)
  | stuck (stuck : Stuck limit state.input state.lexer)
  | ended (ended : state.lexer.ended = true) (once : state.input.requests ≤ limit + 1)

theorem Follows.asked {step : Scan α} [follows : Follows (.hopeful limit) step]
    (hopeful : state.input.Hopeful limit) :
    Returns step state fun _ after => Asked limit after :=
  (Follows.hopeful hopeful).mono fun _ _ hopeful => .hopeful hopeful

theorem report_settled (span : Span) (problem : Problem) (state : State) :
    Returns (report span problem) state fun _ after =>
      after.input = state.input ∧ after.lexer = state.lexer := by
  apply Returns.get_bind
  apply Returns.relyOn_bind
  exact returns_modify ⟨rfl, rfl⟩

theorem endOfInput_asks (start : Nat) (state : State) :
    Returns (endOfInput start) state fun _ after =>
      after.lexer.ended = true ∧ after.input = state.input := by
  unfold endOfInput
  apply Returns.get_bind
  extract_lets lexer rest
  have rest_returns : Returns (rest ()) state fun _ after =>
      after.lexer.ended = true ∧ after.input = state.input := by
    unfold rest
    split
    · exact returns_throw _
    · apply Returns.modify_bind
      apply Returns.position_bind
      exact returns_pure ⟨rfl, rfl⟩
  clear_value rest
  split
  · exact returns_fail_bind
  · exact rest_returns

section

variable {σ : Type} {first : σ} {given : σ → α} {rest : σ → Scan (Turn σ α)}

theorem loop_asks [follows : ∀ current, Follows (.hopeful limit) (rest current)]
    (hopeful : state.input.Hopeful limit) :
    Returns (repeatUntil first fun current => hasMore >>= fun more =>
      if (!more) = true then pure (.done (given current)) else rest current) state
      fun _ after => after.input.Hopeful limit ∨ after.input.Denied limit := by
  apply repeatUntil_returns fun _ current => current.input.Hopeful limit
  · exact hopeful
  · intro current reached hopeful
    apply (hasMore_asks hopeful).bind
    intro more asked outcome
    obtain ⟨-, ⟨rfl, hopeful⟩ | ⟨rfl, denied⟩⟩ := outcome
    · apply ((follows current).hopeful hopeful).mono
      intro result after hopeful
      cases result with
      | again next => exact hopeful
      | done value => exact .inl hopeful
    · exact returns_pure (.inr denied)

theorem loop_exhausted (exhausted : state.input.Exhausted) :
    Returns (repeatUntil first fun current => hasMore >>= fun more =>
      if (!more) = true then pure (.done (given current)) else rest current) state
      fun value after => value = given first ∧
        after.input.position = state.input.position ∧ after.input.Exhausted := by
  apply repeatUntil_returns fun current reached => current = first ∧
    reached.input.position = state.input.position ∧ reached.input.Exhausted
  · exact ⟨rfl, rfl, exhausted⟩
  · intro current reached known
    obtain ⟨rfl, position, exhausted⟩ := known
    apply (hasMore_exhausted exhausted).bind
    intro more asked outcome
    obtain ⟨rfl, same, exhausted⟩ := outcome
    exact returns_pure ⟨rfl, same.trans position, exhausted⟩

end

theorem skipGap_asks (hopeful : state.input.Hopeful limit) :
    Returns skipGap state fun _ after =>
      after.input.Hopeful limit ∨ after.input.Denied limit := by
  unfold skipGap
  apply Returns.position_bind
  apply (loop_asks hopeful).bind
  intro _ reached asked
  exact Returns.position_bind (returns_pure asked)

theorem skipGap_exhausted (exhausted : state.input.Exhausted) :
    Returns skipGap state fun gap after => gap = false ∧ after.input.Exhausted := by
  unfold skipGap
  apply Returns.position_bind
  apply (loop_exhausted exhausted).bind
  intro _ reached asked
  obtain ⟨-, position, exhausted⟩ := asked
  apply Returns.position_bind
  apply returns_pure
  refine ⟨?_, exhausted⟩
  rw [position]
  exact decide_eq_false (Nat.lt_irrefl _)

theorem gather_asks (literal : Quotation) (hopeful : state.input.Hopeful limit) :
    Returns (gather literal) state fun _ after =>
      after.input.Hopeful limit ∨ after.input.Denied limit := by
  unfold gather
  exact loop_asks hopeful

theorem heredocText_asks (heredoc : Heredoc) (hopeful : state.input.Hopeful limit) :
    Returns (heredocText heredoc) state fun _ after =>
      after.input.Hopeful limit ∨ after.input.Denied limit := by
  unfold heredocText
  exact loop_asks hopeful

theorem heredocText_exhausted (heredoc : Heredoc) (exhausted : state.input.Exhausted) :
    Returns (heredocText heredoc) state fun _ after =>
      after.input.position = state.input.position ∧ after.input.Exhausted := by
  unfold heredocText
  exact (loop_exhausted exhausted).mono fun _ _ known => known.2

/-- A literal that stays open when its text has been read. -/
theorem openText_asks {kept : OpenLiteral} {kind : TokenKind} {start : Nat}
    (asked : state.input.Hopeful limit ∨ state.input.Denied limit)
    (settled : state.lexer.variablePending = false) :
    Returns (setLiteral (some kept) >>= fun _ => token kind start) state
      fun _ after => Asked limit after := by
  apply Returns.modify_bind
  apply Returns.position_bind
  apply returns_pure
  cases asked with
  | inl hopeful => exact .hopeful hopeful
  | inr denied => exact .stuck ⟨denied, nofun, settled⟩

theorem literalText_asks (literal : Quotation) (hopeful : state.input.Hopeful limit)
    (settled : state.lexer.variablePending = false) :
    Returns (literalText literal) state fun _ after => Asked limit after := by
  unfold literalText
  apply Returns.position_bind
  have passes : Follows .passesOver (gather literal) := inferInstance
  apply ((gather_asks literal hopeful).and (passes.returns state)).bind
  intro text read both
  obtain ⟨asked, same⟩ := both
  have settled : read.lexer.variablePending = false := same ▸ settled
  apply Returns.position_bind
  extract_lets gathered kept reported
  have kept_returns {reached : State} (input : reached.input = read.input)
      (lexer : reached.lexer = read.lexer) :
      Returns (kept ()) reached fun _ after => Asked limit after :=
    openText_asks (input ▸ asked) (lexer ▸ settled)
  have reported_returns : Returns (reported ()) read fun _ after => Asked limit after := by
    unfold reported
    clear_value kept
    split
    · apply Returns.position_bind
      apply (report_settled _ _ read).bind
      intro _ reached same
      exact kept_returns same.1 same.2
    · exact kept_returns rfl rfl
  clear_value reported
  split
  · exact returns_fail_bind
  · exact reported_returns

theorem heredocContent_asks (heredoc : Heredoc) (lineHead : Bool)
    (hopeful : state.input.Hopeful limit) (settled : state.lexer.variablePending = false) :
    Returns (heredocContent heredoc lineHead) state fun _ after => Asked limit after := by
  unfold heredocContent
  apply Returns.position_bind
  have passes : Follows .passesOver (heredocText heredoc) := inferInstance
  apply ((heredocText_asks heredoc hopeful).and (passes.returns state)).bind
  intro text read both
  obtain ⟨bytes, lineEnd⟩ := text
  obtain ⟨asked, same⟩ := both
  have settled : read.lexer.variablePending = false := same ▸ settled
  apply Returns.get_bind
  extract_lets kept reported
  have kept_returns {reached : State} (input : reached.input = read.input)
      (lexer : reached.lexer = read.lexer) :
      Returns (kept ()) reached fun _ after => Asked limit after :=
    openText_asks (input ▸ asked) (lexer ▸ settled)
  have reported_returns : Returns (reported ()) read fun _ after => Asked limit after := by
    unfold reported
    clear_value kept
    split
    · apply (report_settled _ _ read).bind
      intro _ reached same
      exact kept_returns same.1 same.2
    · exact kept_returns rfl rfl
  clear_value reported
  split
  · exact returns_fail_bind
  · exact reported_returns

theorem heredocContent_exhausted (heredoc : Heredoc) (lineHead : Bool)
    (exhausted : state.input.Exhausted) :
    Returns (heredocContent heredoc lineHead) state fun _ _ => False := by
  unfold heredocContent
  apply Returns.position_bind
  apply (heredocText_exhausted heredoc exhausted).bind
  intro text read nothing
  obtain ⟨bytes, lineEnd⟩ := text
  obtain ⟨position, exhausted⟩ := nothing
  apply Returns.get_bind
  rw [position, Input.atEnd, exhausted.rest, decide_eq_true rfl, List.isEmpty_nil]
  exact returns_fail_bind

theorem quotation_asks (literal : Quotation) (hopeful : state.input.Hopeful limit)
    (settled : state.lexer.variablePending = false) :
    Returns (quotation literal) state fun _ after => Asked limit after := by
  unfold quotation
  apply Returns.position_bind
  extract_lets afterGap
  have gapped {gap : Bool} {reached : State}
      (asked : reached.input.Hopeful limit ∨ reached.input.Denied limit)
      (settled : reached.lexer.variablePending = false) :
      Returns (afterGap gap) reached fun _ after => Asked limit after := by
    unfold afterGap
    split
    · exact openText_asks asked settled
    · apply Returns.position_bind
      cases asked with
      | inl hopeful =>
          apply Returns.more_bind hopeful
          intro asked hopeful same
          apply Returns.get_bind
          dsimp only
          split
          · exact Follows.asked hopeful
          · split
            · exact Follows.asked hopeful
            · exact literalText_asks literal hopeful (same ▸ settled)
      | inr denied => exact Returns.exhausted_bind denied.toExhausted
  clear_value afterGap
  split
  · have passes : Follows .passesOver skipGap := inferInstance
    apply ((skipGap_asks hopeful).and (passes.returns state)).bind
    intro gap reached both
    obtain ⟨asked, same⟩ := both
    exact gapped asked (same ▸ settled)
  · exact gapped (.inl hopeful) settled

theorem quotation_exhausted (literal : Quotation) (exhausted : state.input.Exhausted) :
    Returns (quotation literal) state fun _ _ => False := by
  unfold quotation
  apply Returns.position_bind
  extract_lets afterGap
  have gapped {reached : State} (exhausted : reached.input.Exhausted) :
      Returns (afterGap false) reached fun _ _ => False := by
    unfold afterGap
    rw [Bool.false_and, if_neg Bool.false_ne_true]
    apply Returns.position_bind
    exact Returns.exhausted_bind exhausted
  clear_value afterGap
  split
  · apply (skipGap_exhausted exhausted).bind
    intro gap reached nothing
    obtain ⟨rfl, exhausted⟩ := nothing
    exact gapped exhausted
  · exact gapped exhausted

theorem heredocBody_asks (heredoc : Heredoc) (lineHead : Bool)
    (hopeful : state.input.Hopeful limit) (settled : state.lexer.variablePending = false) :
    Returns (heredocBody heredoc lineHead) state fun _ after => Asked limit after := by
  unfold heredocBody
  apply Returns.position_bind
  split
  · apply Returns.more_bind hopeful
    intro asked hopeful same
    apply Returns.position_bind
    apply Returns.position_bind
    apply Returns.checkRange_bind
    apply Returns.get_bind
    split
    · exact Follows.asked hopeful
    · exact heredocContent_asks heredoc true hopeful (same ▸ settled)
  · apply Returns.get_bind
    dsimp only
    split
    · exact Follows.asked hopeful
    · exact heredocContent_asks heredoc false hopeful settled

theorem heredocBody_exhausted (heredoc : Heredoc) (lineHead : Bool)
    (exhausted : state.input.Exhausted) :
    Returns (heredocBody heredoc lineHead) state fun _ _ => False := by
  unfold heredocBody
  apply Returns.position_bind
  split
  · exact Returns.exhausted_bind exhausted
  · apply Returns.get_bind
    dsimp only
    have nothing : (if heredoc.interpolates then Interpolation.at? state.input.rest else none) =
        none := by
      rw [exhausted.rest]
      exact ite_self none
    rw [nothing]
    exact heredocContent_exhausted heredoc false exhausted

theorem literalToken_asks (literal : OpenLiteral) (hopeful : state.input.Hopeful limit) :
    Returns (literalToken literal) state fun _ after => Asked limit after := by
  unfold literalToken
  apply Returns.get_bind
  split
  · exact Follows.asked hopeful
  · next settled =>
      have settled := Bool.eq_false_iff.mpr settled
      split
      · exact quotation_asks _ hopeful settled
      · exact heredocBody_asks _ _ hopeful settled

/-! ### The next token -/

def TurnAsked (limit : Nat) (result : Turn Bool Token) (after : State) : Prop :=
  match result with
  | .again _ => after.input.Hopeful limit
  | .done _ => Asked limit after

theorem turn_asked {step : Scan (Turn Bool Token)} [follows : Follows (.hopeful limit) step]
    (hopeful : state.input.Hopeful limit) : Returns step state (TurnAsked limit) := by
  apply (Follows.hopeful hopeful).mono
  intro result after hopeful
  cases result with
  | again _ => exact hopeful
  | done token => exact .hopeful hopeful

theorem tokenTurn_asks (before : Surroundings) (hopeful : state.input.Hopeful limit) :
    Returns (tokenTurn before) state (TurnAsked limit) := by
  unfold tokenTurn
  apply Returns.get_bind
  apply Returns.modify_bind
  apply Returns.get_bind
  dsimp only
  split
  · exact turn_asked (hopeful.advance _)
  · split
    · split
      · next atEnd =>
          split
          · apply Returns.bind
            · apply fetchMore_asks
              · exact hopeful.advance _
              · exact List.isEmpty_iff.mp atEnd
            intro more asked outcome
            obtain ⟨-, ⟨rfl, hopeful⟩ | ⟨rfl, denied⟩⟩ := outcome
            · exact returns_pure hopeful
            · rw [if_neg Bool.false_ne_true]
              apply (endOfInput_asks _ asked).bind
              intro token after closed
              obtain ⟨ended, same⟩ := closed
              exact returns_pure (.ended ended (same ▸ denied.once))
          · exact turn_asked (hopeful.advance _)
      · exact turn_asked (hopeful.advance _)
    · split
      · exact turn_asked (hopeful.advance _)
      · exact turn_asked (hopeful.advance _)

theorem nextToken_asks (hopeful : state.input.Hopeful limit) :
    Returns nextToken state fun _ after => Asked limit after := by
  unfold nextToken
  apply Returns.get_bind
  dsimp only
  split
  · exact literalToken_asks _ hopeful
  · split
    · exact Follows.asked hopeful
    · apply Returns.modify_bind
      apply repeatUntil_returns fun _ current => current.input.Hopeful limit
      · exact hopeful
      · intro blank current hopeful
        exact (tokenTurn_asks _ hopeful).mono fun result _ asked => by
          cases result <;> exact asked

theorem nextToken_stuck (stuck : Stuck limit state.input state.lexer) :
    Returns nextToken state fun _ _ => False := by
  unfold nextToken
  apply Returns.get_bind
  obtain ⟨literal, within⟩ := Option.ne_none_iff_exists'.mp stuck.within
  dsimp only
  rw [within]
  dsimp only
  unfold literalToken
  apply Returns.get_bind
  rw [stuck.settled, if_neg Bool.false_ne_true]
  cases literal with
  | quotation literal => exact quotation_exhausted literal stuck.denied.toExhausted
  | heredocBody heredoc lineHead =>
      exact heredocBody_exhausted heredoc lineHead stuck.denied.toExhausted

end Scan

/-! ### A whole run -/

/-- What the tokens, of which the last one comes first, tell of the requests for more: none has
been in vain, or one has and the program cannot go on, or the word for its end was read. -/
inductive RequestsKnown (source : Bytes) (answers : List (Option Chunk)) (limit : Nat)
    (tokens : List Token) (input : Input) (lexer : LexerState) : Prop where
  | hopeful (ongoing : Ongoing tokens) (unseen : lexer.ended = false)
      (hopeful : input.Hopeful limit)
  | stuck (ongoing : Ongoing tokens) (stuck : Scan.Stuck limit input lexer)
  | clear (ended : lexer.ended = true) (clear : lexer.Clear) (once : input.requests ≤ limit + 1)
  | word {token : Token} (read : token ∈ tokens) (word : token.IsEndWord source answers)

variable {source : Bytes} {answers : List (Option Chunk)} {limit : Nat}

theorem RequestsKnown.wait {tokens : List Token} {input : Input} {lexer later : LexerState}
    (known : RequestsKnown source answers limit tokens input lexer) (waits : lexer.Waits later) :
    RequestsKnown source answers limit tokens input later := by
  cases known with
  | hopeful ongoing unseen hopeful =>
      exact .hopeful ongoing (waits.ended.trans unseen) hopeful
  | stuck ongoing stuck =>
      exact .stuck ongoing
        ⟨stuck.denied, waits.stays stuck.within, waits.pending.trans stuck.settled⟩
  | clear ended clear once => exact .clear (waits.ended.trans ended) (clear.wait waits) once
  | word read word => exact .word read word

def Watch.requests (source : Bytes) (answers : List (Option Chunk)) (limit : Nat) : Watch where
  always input _ _ := input.Received source answers
  between input _ tokens lookahead lexer := (∀ token ∈ lookahead, token ∈ tokens) ∧
    RequestsKnown source answers limit tokens input lexer
  advance distance received := received.advance distance
  ask received empty := received.ask empty
  fetch received answer := received.append answer
  add _ _ received := received
  addBetween _ _ known := known
  look known read := by
    refine ⟨?_, known.2⟩
    intro token ahead
    obtain rfl := Option.some.inj ahead
    exact List.mem_of_mem_head? read
  take known := ⟨nofun, known.2⟩
  wait waits known := ⟨known.1, known.2.wait waits⟩

instance : (Coupling.alone (.requests source answers limit)).Tracks where
  read {state after token} always between run received := by
    obtain ⟨ahead, known⟩ := between
    have undisturbed := (Scan.Lexical.returns state).post run
    refine ⟨received, ?_, ?_⟩
    · intro waiting member
      change waiting ∈ after.lookahead at member
      rw [undisturbed.lookahead] at member
      change waiting ∈ token :: after.tokens
      rw [undisturbed.tokens]
      exact List.mem_cons_of_mem _ (ahead waiting member)
    · change RequestsKnown source answers limit (token :: after.tokens) after.input after.lexer
      rw [undisturbed.tokens]
      cases known with
      | hopeful ongoing unseen hopeful =>
          have asked := (Scan.nextToken_asks hopeful).post run
          cases (Scan.nextToken_concludes always unseen).post run with
          | goesOn inside unseen =>
              have ongoing : Ongoing (token :: state.tokens) :=
                List.forall_mem_cons.mpr ⟨inside, ongoing⟩
              cases asked with
              | hopeful hopeful => exact .hopeful ongoing unseen hopeful
              | stuck stuck => exact .stuck ongoing stuck
              | ended ended _ => exact absurd (ended.symm.trans unseen) Bool.noConfusion
          | clear ended clear =>
              cases asked with
              | hopeful hopeful =>
                  have within := Nat.le_of_add_right_le hopeful.within
                  exact .clear ended clear (Nat.le_succ_of_le within)
              | stuck stuck => exact absurd clear.literal stuck.within
              | ended _ once => exact .clear ended clear once
          | word word => exact .word List.mem_cons_self word
      | stuck ongoing stuck => exact ((Scan.nextToken_stuck stuck).post run).elim
      | clear ended clear once =>
          obtain ⟨ended, clear, same⟩ := (Scan.nextToken_clear ended clear).post run
          exact .clear ended clear (same ▸ once)
      | word read word => exact .word (List.mem_cons_of_mem _ read) word
  traces _ _ _ _ _ same := by rw [same]

variable {options : ParseOptions} {symbols : SymbolTable} {root : NodeId}

/-- If no answer supplies bytes after one that does not, a parse that gives a tree asks for more
input at most once more than there are answers with bytes, unless the word `__END__` is read at
the start of a line. -/
theorem parse_asks_once_in_vain (stayAway : StayAway options.answers)
    (given : (parse source options symbols).tree = some root) :
    (parse source options symbols).requests ≤
        (options.answers.takeWhile hasBytes).length + 1 ∨
      ∃ token ∈ tokensRead source options symbols,
        token.IsEndWord source options.answers := by
  obtain ⟨after, run, read⟩ := runProgram_read source options symbols given
  have requests := Watch.runProgram_knows source options symbols
    (.requests source options.answers (options.answers.takeWhile hasBytes).length)
    (Input.received_ofBytes source options.answers)
    ⟨nofun, .hopeful nofun rfl ⟨stayAway, Nat.le_of_eq (Nat.zero_add _)⟩⟩
  rw [run] at requests
  obtain ⟨-, waits, known⟩ := requests
  obtain ⟨last, ahead, kind⟩ := read.ended
  rw [parse_of_run run]
  cases known with
  | hopeful ongoing _ _ => exact absurd kind (ongoing last (waits last ahead))
  | stuck ongoing _ => exact absurd kind (ongoing last (waits last ahead))
  | clear _ _ once => exact .inl once
  | word read word =>
      right
      refine ⟨_, ?_, word⟩
      unfold tokensRead
      rw [run]
      exact List.mem_reverse.mpr read

/-- An open literal asks again, and takes what is supplied after an answer without bytes. -/
example :
    let parsed := parse (ascii "/a") { answers := [none, some { bytes := ascii "/\n" }] } {}
    (parsed.isOk, parsed.requests) = (true, 2) := by
  decide +kernel

end RubySyntax
