/-
Where a program ends.

The token for the end of a program is given at the end of the input, at a byte that ends
programs, and at a line that holds just the word `__END__`. In the first two cases nothing
is open: a literal, an interpolation or a heredoc whose body is missing ends the parse with
a fatal error. The word is a token like any other and asks for nothing, so a parse can end
there within an interpolation, or before the body of a heredoc.

What is known is followed from token to token. Up to the first token for the end the lexer
has not noted it; afterwards, unless the word was read, nothing is open any more, whatever
the rules of the grammar do.
-/

import RubySyntax.Proofs.TokenOrder

namespace RubySyntax

variable {source : Bytes} {answers : List (Option Chunk)}

structure LexerState.Clear (lexer : LexerState) : Prop where
  literal : lexer.literal = none
  contexts : lexer.contexts = []
  heredocs : lexer.heredocs = []

/-- A line ends at a position, perhaps with a carriage return. The end of a piece ends a line
as well. -/
def LineEnd (source : Bytes) (answers : List (Option Chunk)) (position : Nat) : Prop :=
  HasChar (supplied source answers) position '\n' ∨
    (HasChar (supplied source answers) position '\r' ∧
      HasChar (supplied source answers) (position + 1) '\n') ∨
    PieceEnd source answers position

structure Token.IsEndWord (source : Bytes) (answers : List (Option Chunk)) (token : Token) :
    Prop where
  kind : token.kind = .endOfInput
  lineStart : LineStart (supplied source answers) token.span.start
  spelled : Keyword.endMarker <+: (supplied source answers).drop token.span.start
  lineEnd : LineEnd source answers token.span.stop

theorem Input.lineEnd_cases {input : Input} (atEnd : input.atLineEnd = true) :
    input.rest = [] ∨ HasChar input.rest 0 '\n' ∨
      (HasChar input.rest 0 '\r' ∧ HasChar input.rest 1 '\n') := by
  unfold Input.atLineEnd at atEnd
  cases rest : input.rest with
  | nil => exact .inl rfl
  | cons byte more =>
      rw [rest] at atEnd
      rw [Bool.or_eq_true, Bool.and_eq_true, beq_iff_eq, beq_iff_eq, beq_iff_eq] at atEnd
      rcases atEnd with lineFeed | ⟨carriageReturn, lineFeed⟩
      · subst lineFeed
        exact .inr (.inl rfl)
      · subst carriageReturn
        refine .inr (.inr ⟨rfl, ?_⟩)
        unfold HasChar
        rw [List.getElem?_cons_succ, ← List.head?_eq_getElem?, lineFeed]
        rfl

theorem Input.Received.endWord {input : Input} (received : input.Received source answers)
    {length : Nat}
    (alone : Scan.isEndLine input (input.advance length) (input.rest.take length) = true) :
    Token.IsEndWord source answers
      ⟨.endOfInput, ⟨input.position, input.position + 7⟩⟩ := by
  obtain ⟨here, atEnd⟩ := Bool.and_eq_true_iff.mp alone
  obtain ⟨spelled, atStart⟩ := Bool.and_eq_true_iff.mp here
  have whole : Keyword.endMarker ++ input.rest.drop length = input.rest := by
    rw [← beq_iff_eq.mp spelled, List.take_append_drop]
  have after : input.rest.drop 7 = input.rest.drop length := by
    conv => lhs; rw [← whole]
    rfl
  have ahead := received.ahead.drop 7
  rw [after] at ahead
  refine ⟨rfl, received.lineStart atStart, received.ahead.isPrefix ⟨_, whole⟩, ?_⟩
  rcases Input.lineEnd_cases atEnd with nothing | lineFeed | ⟨carriageReturn, lineFeed⟩
  · change input.rest.drop length = [] at nothing
    rw [nothing, List.append_nil] at whole
    have ends := received.ahead.ends (by rw [← whole]; decide)
    rw [← whole] at ends
    exact .inr (.inr ends)
  · exact .inl (ahead.hasChar lineFeed)
  · exact .inr (.inl ⟨ahead.hasChar carriageReturn, ahead.hasChar lineFeed⟩)

def State.Course.goesOn : State.Course where
  relates before after := after.lexer.ended = before.lexer.ended
  refl _ := rfl
  trans first second := second.trans first
  advance _ _ := rfl
  intern _ _ := rfl
  report _ _ _ := rfl

instance : State.Course.goesOn.Asks where
  ask _ _ := rfl
  fetch _ _ _ := rfl

instance : State.Course.goesOn.Lexes where
  setLexer _ _ same := same

def State.Course.passesOver : State.Course where
  relates before after := after.lexer = before.lexer
  refl _ := rfl
  trans first second := second.trans first
  advance _ _ := rfl
  intern _ _ := rfl
  report _ _ _ := rfl

instance : State.Course.passesOver.Asks where
  ask _ _ := rfl
  fetch _ _ _ := rfl

def State.Course.unasked : State.Course where
  relates before after := after.lexer = before.lexer ∧
    after.input.requests = before.input.requests
  refl _ := ⟨rfl, rfl⟩
  trans first second := ⟨second.1.trans first.1, second.2.trans first.2⟩
  advance _ _ := ⟨rfl, rfl⟩
  intern _ _ := ⟨rfl, rfl⟩
  report _ _ _ := ⟨rfl, rfl⟩

namespace Scan

variable {state : State} {start : Nat}

inductive Concludes (source : Bytes) (answers : List (Option Chunk)) (token : Token)
    (after : State) : Prop where
  | goesOn (inside : token.kind ≠ .endOfInput) (ongoing : after.lexer.ended = false)
  | clear (ended : after.lexer.ended = true) (clear : after.lexer.Clear)
  | word (word : token.IsEndWord source answers)

theorem concludes_inside {step : Scan Token} [follows : Follows .goesOn step]
    (ongoing : state.lexer.ended = false)
    (inside : Returns step state fun token _ => token.kind ≠ .endOfInput) :
    Returns step state (Concludes source answers) :=
  ((follows.returns state).and inside).mono fun _ _ both =>
    .goesOn both.2 (both.1.trans ongoing)

/-! ### Tokens of literals -/

theorem Returns.inside {step : Scan Token} {start : Nat}
    (stands : Returns step state (Stands start)) :
    Returns step state fun token _ => token.kind ≠ .endOfInput :=
  stands.mono fun _ _ stands => stands.ordinary.inside

theorem Starts.inside {step : Scan Token} [starts : ∀ start, Starts start step] :
    Returns step state fun token _ => token.kind ≠ .endOfInput :=
  ((starts state.input.position).returns state rfl).inside

theorem quotation_inside (literal : Quotation) (state : State) :
    Returns (quotation literal) state fun token _ => token.kind ≠ .endOfInput := by
  unfold quotation
  apply Returns.position_bind
  extract_lets afterGap
  have gapped (gap : Bool) (reached : State) :
      Returns (afterGap gap) reached fun token _ => token.kind ≠ .endOfInput := by
    unfold afterGap
    split
    · have separated (kept : Option OpenLiteral) : StartsAt state.input.position
          (setLiteral kept >>= fun _ => token .wordSeparator state.input.position) :=
        inferInstance
      exact ((separated _).returns reached).inside
    · apply Returns.position_bind
      apply (returns_any hasMore reached).bind
      intro more asked _
      extract_lets inside
      have inside_returns (checked : Unit) (checkedState : State) :
          Returns (inside checked) checkedState fun token _ => token.kind ≠ .endOfInput := by
        apply Returns.get_bind
        dsimp only
        split
        · have closes : StartsAt reached.input.position
              (closeLiteral literal reached.input.position) := inferInstance
          apply Returns.modify_bind
          exact (closes.returns _).inside
        · split
          · apply Returns.modify_bind
            exact Starts.inside
          · exact Starts.inside
      clear_value inside
      split
      · exact returns_fail_bind
      · exact inside_returns _ asked
  clear_value afterGap
  split
  · exact (returns_any skipGap state).bind fun gap reached _ => gapped gap reached
  · exact gapped false state

theorem literalToken_concludes (literal : OpenLiteral)
    (ongoing : state.lexer.ended = false) :
    Returns (literalToken literal) state (Concludes source answers) := by
  apply concludes_inside ongoing
  unfold literalToken
  apply Returns.get_bind
  split
  · apply Returns.modify_bind
    exact Starts.inside
  · split
    · exact quotation_inside _ state
    · exact Starts.inside

/-! ### Words -/

theorem name_concludes (statementStart : Bool) (received : state.input.Received source answers)
    (ongoing : state.lexer.ended = false) :
    Returns (name statementStart) state (Concludes source answers) := by
  unfold name
  apply Returns.get_bind
  dsimp only
  apply Returns.set_bind
  apply Returns.checkRange_bind
  apply Returns.checkRange_bind
  split
  · have labelled (symbol : Symbol) : StartsAt state.input.position
        (advance 1 >>= fun _ => setMode .begin >>= fun _ =>
          token (.label symbol) state.input.position) := inferInstance
    apply concludes_inside
    · exact ongoing
    · apply (returns_any (internFrom _ _) _).bind
      intro symbol interned _
      exact ((labelled symbol).returns interned).inside
  · split
    · next ends =>
        obtain ⟨-, alone⟩ := Bool.and_eq_true_iff.mp ends
        have word := received.endWord alone
        exact Returns.modify_bind (returns_pure (.word word))
    · split
      · apply concludes_inside
        · exact ongoing
        · exact (keyword_returns _ _ _).mono fun _ _ worded => worded.inside
      · have plain (marked : Bool) (byte : Byte) : StartsAt state.input.position
            (plainName state.lexer.mode statementStart marked byte state.input.position) :=
          inferInstance
        apply concludes_inside
        · exact ongoing
        · exact ((plain _ _).returns _).inside

/-! ### The end -/

/-- The end of the program is noted only where nothing is open. -/
theorem endOfInput_concludes (start : Nat) (code : state.lexer.literal = none) :
    Returns (endOfInput start) state (Concludes source answers) := by
  unfold endOfInput
  apply Returns.get_bind
  extract_lets lexer rest
  by_cases alone : lexer.contexts = []
  · have empty : ¬(!lexer.contexts.isEmpty) = true := by simp [alone]
    rw [if_neg empty]
    unfold rest
    split
    · exact returns_throw _
    · next none =>
        apply Returns.modify_bind
        apply Returns.position_bind
        exact returns_pure (.clear rfl ⟨code, alone, none⟩)
  · have inside : (!lexer.contexts.isEmpty) = true := by simp [alone]
    rw [if_pos inside]
    exact returns_fail_bind

/-! ### The next token -/

def TurnConcludes (source : Bytes) (answers : List (Option Chunk)) (lexer : LexerState)
    (result : Turn Bool Token) (after : State) : Prop :=
  match result with
  | .again _ => after.lexer = lexer
  | .done token => Concludes source answers token after

theorem turnConcludes_done {step : Scan Token} {lexer : LexerState}
    (concludes : Returns step state (Concludes source answers)) :
    Returns (step >>= fun token => pure (.done token)) state (TurnConcludes source answers lexer) :=
  concludes.bind fun _ _ found => returns_pure found

theorem newline_concludes (ongoing : state.lexer.ended = false) :
    Returns (newline start) state (Concludes source answers) := by
  have stands : StartsAt start (newline start) := inferInstance
  exact concludes_inside ongoing (stands.returns state).inside

theorem lineFeed_concludes (ongoing : state.lexer.ended = false) :
    Returns lineFeed state (TurnConcludes source answers state.lexer) := by
  unfold lineFeed
  apply Returns.get_bind
  dsimp only
  apply Returns.modify_bind
  split
  · apply Returns.modify_bind
    split
    · apply turnConcludes_done
      exact concludes_inside ongoing Starts.inside
    · apply turnConcludes_done
      apply newline_concludes
      exact ongoing
  · split
    · exact returns_pure rfl
    · split
      · exact Returns.modify_bind (returns_pure rfl)
      · apply turnConcludes_done
        apply newline_concludes
        exact ongoing

theorem passes_concludes {step : Scan Unit} {next : Bool}
    [follows : Follows .passesOver step] :
    Returns (step >>= fun _ => pure (.again next)) state
      (TurnConcludes source answers state.lexer) := by
  apply (follows.returns state).bind
  intro _ _ passed
  exact returns_pure passed

theorem tokenHere_concludes (before : Surroundings)
    (received : state.input.Received source answers) (ongoing : state.lexer.ended = false) :
    Returns (tokenHere before) state (TurnConcludes source answers state.lexer) := by
  unfold tokenHere
  apply Returns.get_bind
  dsimp only
  apply Returns.checkRange_bind
  split
  · exact passes_concludes
  · split
    · split
      · exact passes_concludes
      · exact turnConcludes_done (name_concludes _ received ongoing)
    · split
      · have stands : Starts state.input.position
            (number state.input.position (.ofDigits state.input.rest)) := inferInstance
        exact turnConcludes_done (concludes_inside ongoing (stands.returns state rfl).inside)
      · have follows : Follows .goesOn (mark? before) := inferInstance
        apply ((follows.returns state).and (mark?_returns before rfl)).bind
        intro mark reached both
        obtain ⟨same, found⟩ := both
        cases mark with
        | some token =>
            exact returns_pure (.goesOn found.ordinary.inside (same.trans ongoing))
        | none =>
            subst found
            apply Returns.modify_bind
            exact passes_concludes

theorem tokenTurn_concludes (before : Surroundings)
    (received : state.input.Received source answers) (ongoing : state.lexer.ended = false)
    (code : state.lexer.literal = none) :
    Returns (tokenTurn before) state (TurnConcludes source answers state.lexer) := by
  unfold tokenTurn
  apply Returns.get_bind
  apply Returns.modify_bind
  apply Returns.get_bind
  dsimp only
  rw [if_neg (by rw [ongoing]; exact Bool.false_ne_true)]
  split
  · split
    · split
      · have follows : Follows .passesOver fetchMore := inferInstance
        apply (follows.returns _).bind
        intro more asked same
        split
        · exact returns_pure same
        · apply turnConcludes_done
          apply endOfInput_concludes
          rw [show asked.lexer = state.lexer from same]
          exact code
      · exact turnConcludes_done (endOfInput_concludes _ code)
    · exact Returns.modify_bind (turnConcludes_done (endOfInput_concludes _ code))
  · split
    · apply lineFeed_concludes
      exact ongoing
    · apply tokenHere_concludes
      · exact received.advance _
      · exact ongoing

/-- As long as the end of the program has not been noted, a token is not the end, or nothing
is open after it, or it is the word. -/
theorem nextToken_concludes (received : state.input.Received source answers)
    (ongoing : state.lexer.ended = false) :
    Returns nextToken state (Concludes source answers) := by
  unfold nextToken
  apply Returns.get_bind
  dsimp only
  split
  · exact literalToken_concludes _ ongoing
  · next code =>
      split
      · exact concludes_inside ongoing Starts.inside
      · apply Returns.modify_bind
        apply repeatUntil_returns fun _ current =>
          current.input.Received source answers ∧
            current.lexer = { state.lexer with statementStart := false, afterArrow := false }
        · exact ⟨received, rfl⟩
        · intro blank current kept
          obtain ⟨received, same⟩ := kept
          have turn (before : Surroundings) :
              Returns (tokenTurn before) current
                (TurnConcludes source answers current.lexer) := by
            apply tokenTurn_concludes before received
            · rw [same]
              exact ongoing
            · rw [same]
              exact code
          apply ((turn _).and (Lexical.returns current)).mono
          intro result after both
          obtain ⟨concludes, undisturbed⟩ := both
          cases result with
          | again _ => exact ⟨undisturbed.received _ _ received, concludes.trans same⟩
          | done token => exact concludes

/-- After the end of the program nothing is opened any more, and nothing asked for. -/
theorem nextToken_clear (ended : state.lexer.ended = true) (clear : state.lexer.Clear) :
    Returns nextToken state fun _ after => after.lexer.ended = true ∧ after.lexer.Clear ∧
      after.input.requests = state.input.requests := by
  have stays {step : Scan Token} [follows : Follows .unasked step] {reached : State}
      (kept : reached.lexer.ended = true ∧ reached.lexer.Clear ∧
        reached.input.requests = state.input.requests) :
      Returns step reached fun _ after => after.lexer.ended = true ∧ after.lexer.Clear ∧
        after.input.requests = state.input.requests := by
    apply (follows.returns reached).mono
    intro _ after same
    obtain ⟨lexer, requests⟩ := same
    rw [lexer, requests]
    exact kept
  unfold nextToken
  apply Returns.get_bind
  dsimp only
  rw [clear.literal]
  dsimp only
  split
  · exact stays ⟨ended, clear, rfl⟩
  · apply Returns.modify_bind
    apply repeatUntil_returns fun _ current => current.lexer.ended = true ∧
      current.lexer.Clear ∧ current.input.requests = state.input.requests
    · exact ⟨ended, ⟨clear.literal, clear.contexts, clear.heredocs⟩, rfl⟩
    · intro blank current kept
      unfold tokenTurn
      apply Returns.get_bind
      apply Returns.modify_bind
      apply Returns.get_bind
      dsimp only
      rw [if_pos kept.1]
      apply Returns.bind
      · apply stays
        exact kept
      · intro token reached kept
        exact returns_pure kept

end Scan

/-! ### A run up to its end -/

/-- What the tokens, of which the last one comes first, tell of the end of the program: it has
not been seen, or nothing is open, or the word was read. -/
inductive EndKnown (source : Bytes) (answers : List (Option Chunk)) (tokens : List Token)
    (lexer : LexerState) : Prop where
  | ongoing (ongoing : Ongoing tokens) (unseen : lexer.ended = false)
  | clear (ended : lexer.ended = true) (clear : lexer.Clear)
  | word {token : Token} (read : token ∈ tokens) (word : token.IsEndWord source answers)

theorem LexerState.Clear.wait {lexer later : LexerState} (clear : lexer.Clear)
    (waits : lexer.Waits later) : later.Clear := by
  obtain ⟨heredocs, literal⟩ := waits.bodies clear.heredocs
  exact ⟨literal.trans clear.literal, waits.contexts.trans clear.contexts, heredocs⟩

theorem EndKnown.wait {tokens : List Token} {lexer later : LexerState}
    (known : EndKnown source answers tokens lexer) (waits : lexer.Waits later) :
    EndKnown source answers tokens later := by
  cases known with
  | ongoing ongoing unseen => exact .ongoing ongoing (waits.ended.trans unseen)
  | clear ended clear => exact .clear (waits.ended.trans ended) (clear.wait waits)
  | word read word => exact .word read word

def Watch.ending (source : Bytes) (answers : List (Option Chunk)) : Watch where
  always input _ _ := input.Received source answers
  between _ _ tokens lookahead lexer := (∀ token ∈ lookahead, token ∈ tokens) ∧
    EndKnown source answers tokens lexer
  advance distance received := received.advance distance
  ask received empty := received.ask empty
  fetch received answer := received.append answer
  add _ _ received := received
  addBetween _ _ known := known
  look known read := by
    refine ⟨?_, known.2⟩
    intro token ahead
    obtain rfl := Option.some.inj ahead
    exact List.mem_of_mem_head? read
  take known := ⟨nofun, known.2⟩
  wait waits known := ⟨known.1, known.2.wait waits⟩

instance : (Coupling.alone (.ending source answers)).Tracks where
  read {state after token} always between run received := by
    obtain ⟨ahead, known⟩ := between
    have undisturbed := (Scan.Lexical.returns state).post run
    refine ⟨received, ?_, ?_⟩
    · intro waiting member
      change waiting ∈ after.lookahead at member
      rw [undisturbed.lookahead] at member
      change waiting ∈ token :: after.tokens
      rw [undisturbed.tokens]
      exact List.mem_cons_of_mem _ (ahead waiting member)
    · change EndKnown source answers (token :: after.tokens) after.lexer
      rw [undisturbed.tokens]
      cases known with
      | ongoing ongoing unseen =>
          cases (Scan.nextToken_concludes always unseen).post run with
          | goesOn inside unseen =>
              exact .ongoing (List.forall_mem_cons.mpr ⟨inside, ongoing⟩) unseen
          | clear ended clear => exact .clear ended clear
          | word word => exact .word List.mem_cons_self word
      | clear ended clear =>
          obtain ⟨ended, clear, -⟩ := (Scan.nextToken_clear ended clear).post run
          exact .clear ended clear
      | word read word => exact .word (List.mem_cons_of_mem _ read) word
  traces _ _ _ _ _ same := by rw [same]

variable {options : ParseOptions} {symbols : SymbolTable} {root : NodeId}

/-- A parse that gives a tree has come to the end of the program. Nothing is open there: no
literal, no interpolation and no heredoc whose body has not been read, unless the program ended
at the word `__END__` at the start of a line. -/
theorem parse_ends_clear (given : (parse source options symbols).tree = some root) :
    ∃ after, runProgram source options symbols = .ok root after ∧
      (after.lexer.Clear ∨ ∃ token ∈ tokensRead source options symbols,
        token.IsEndWord source options.answers) := by
  obtain ⟨after, run, read⟩ := runProgram_read source options symbols given
  have ending := Watch.runProgram_knows source options symbols (.ending source options.answers)
    (Input.received_ofBytes source options.answers) ⟨nofun, .ongoing nofun rfl⟩
  rw [run] at ending
  obtain ⟨-, waits, known⟩ := ending
  refine ⟨after, run, ?_⟩
  obtain ⟨last, ahead, kind⟩ := read.ended
  cases known with
  | ongoing ongoing _ => exact absurd kind (ongoing last (waits last ahead))
  | clear _ clear => exact .inl clear
  | word read word =>
      right
      refine ⟨_, ?_, word⟩
      unfold tokensRead
      rw [run]
      exact List.mem_reverse.mpr read

/-- At the word nothing is asked for: here the body of the heredoc is missing. -/
example :
    (match runProgram (ascii "foo <<A \\\n__END__\n") {} {} with
      | .ok _ after => (after.report.errors, after.lexer.heredocs.length)
      | .error _ after => (after.report.errors + 1, 0)) = (0, 1) := by
  decide +kernel

end RubySyntax
