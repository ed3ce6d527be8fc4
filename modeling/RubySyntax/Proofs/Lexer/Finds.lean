/-
The next token and what is passed over before it.

A search goes on over what may stand between tokens until it finds a token. The
loop that passes over white space and over bytes that are no token keeps the
invariant that nothing else has been passed over yet.
-/

import RubySyntax.Proofs.Lexer.Extent
import RubySyntax.Proofs.Lexer.Gap
import RubySyntax.Proofs.Lexer.Token

namespace RubySyntax

variable {α σ : Type} {source : Bytes} {answers : List (Option Chunk)}

/-! ### Passing over -/

/-- Nothing has been read, but what stands between tokens, given all that has been reported by
then, has been passed over. -/
structure State.Passes (source : Bytes) (answers : List (Option Chunk)) (before after : State) :
    Prop where
  undisturbed : before.Undisturbed after
  skipped : Skipped source answers after.report.made.toList before.input.position
    after.input.position

namespace State.Passes

variable {before middle after : State}

theorem ofStill (undisturbed : before.Undisturbed after)
    (still : after.input.position = before.input.position) :
    before.Passes source answers after where
  undisturbed := undisturbed
  skipped := by
    rw [still]
    exact .refl

theorem refl (state : State) : state.Passes source answers state :=
  .ofStill (.refl state) rfl

theorem trans (first : before.Passes source answers middle)
    (second : middle.Passes source answers after) : before.Passes source answers after where
  undisturbed := first.undisturbed.trans second.undisturbed
  skipped := (first.skipped.mono second.undisturbed.made).trans second.skipped

end State.Passes

/-! ### Finding a token -/

structure State.Finds (source : Bytes) (answers : List (Option Chunk)) (before : State)
    (token : Token) (after : State) : Prop where
  undisturbed : before.Undisturbed after
  skipped : Skipped source answers after.report.made.toList before.input.position
    token.span.start
  onward : before.input.position ≤ token.span.start
  ordered : token.span.start ≤ token.span.stop
  stops : token.kind ≠ .endOfInput → token.span.stop = after.input.position
  lineWord : token.kind = .keyword .lineWord →
    ascii "__LINE__" <+: (supplied source answers).drop token.span.start

namespace State.Passes

variable {before reached after : State} {token : Token}

theorem finds (passes : before.Passes source answers reached)
    (undisturbed : reached.Undisturbed after)
    (start : token.span.start = reached.input.position)
    (ordered : token.span.start ≤ token.span.stop)
    (stops : token.kind ≠ .endOfInput → token.span.stop = after.input.position)
    (lineWord : token.kind = .keyword .lineWord →
      ascii "__LINE__" <+: (supplied source answers).drop token.span.start) :
    before.Finds source answers token after where
  undisturbed := passes.undisturbed.trans undisturbed
  skipped := by
    rw [start]
    exact passes.skipped.mono undisturbed.made
  onward := by
    rw [start]
    exact passes.undisturbed.position
  ordered := ordered
  stops := stops
  lineWord := lineWord

theorem findsAfter (passes : before.Passes source answers reached)
    (finds : reached.Finds source answers token after) :
    before.Finds source answers token after where
  undisturbed := passes.undisturbed.trans finds.undisturbed
  skipped := (passes.skipped.mono finds.undisturbed.made).trans finds.skipped
  onward := Nat.le_trans passes.undisturbed.position finds.onward
  ordered := finds.ordered
  stops := finds.stops
  lineWord := finds.lineWord

theorem findsWorded {spelled : Prop} (passes : before.Passes source answers reached)
    (undisturbed : reached.Undisturbed after)
    (worded : Scan.Worded reached.input.position spelled token after)
    (there : spelled →
      ascii "__LINE__" <+: (supplied source answers).drop reached.input.position) :
    before.Finds source answers token after := by
  have start : token.span.start = reached.input.position := by rw [worded.span]
  have stop : token.span.stop = after.input.position := by rw [worded.span]
  apply passes.finds undisturbed start
  · rw [start, stop]
    exact undisturbed.position
  · exact fun _ => stop
  · intro kind
    rw [start]
    exact there (worded.lineWord kind)

theorem findsStanding (passes : before.Passes source answers reached)
    (undisturbed : reached.Undisturbed after)
    (stands : Scan.Stands reached.input.position token after) :
    before.Finds source answers token after :=
  passes.findsWorded undisturbed (stands.worded False) False.elim

theorem findsEnd (passes : before.Passes source answers reached)
    (undisturbed : reached.Undisturbed after) (kind : token.kind = .endOfInput)
    (span : token.span = ⟨reached.input.position, after.input.position⟩) :
    before.Finds source answers token after := by
  apply passes.finds undisturbed
  · rw [span]
  · rw [span]
    exact undisturbed.position
  · exact fun other => absurd kind other
  · intro word
    rw [kind] at word
    cases word

end State.Passes

namespace Scan

variable {before state : State}

theorem passes_stays (step : Scan α) [Lexical step] [Stays step]
    (passes : before.Passes source answers state) :
    Returns step state fun _ after => before.Passes source answers after :=
  ((Lexical.returns state).and (Stays.returns state)).mono fun _ _ both =>
    passes.trans (.ofStill both.1 both.2)

theorem finds_starts {step : Scan Token} (passes : before.Passes source answers state)
    (lexical : Lexical step) (starts : Starts state.input.position step) :
    Returns step state fun token after => before.Finds source answers token after :=
  ((Lexical.returns state).and (starts.returns state rfl)).mono fun _ _ both =>
    passes.findsStanding both.1 both.2

theorem passes_advance {distance : Nat} (passes : before.Passes source answers state)
    (skipped : ∀ made, Skipped source answers made state.input.position
      (state.input.position + distance)) :
    Returns (advance distance) state fun _ after =>
      before.Passes source answers after ∧
        after.input.position = state.input.position + distance :=
  returns_modify
    ⟨passes.trans ⟨.advance state distance state.lexer, skipped _⟩, rfl⟩

/-- Bytes that are no token are passed over if they are reported. -/
theorem passes_report {reached : State} (moved : state.Undisturbed reached) {problem : Problem}
    (lexical : problem.IsLexical) :
    Returns (report ⟨state.input.position, reached.input.position⟩ problem) reached
      fun _ after => state.Passes source answers after := by
  let span : Span := ⟨state.input.position, reached.input.position⟩
  apply Returns.get_bind
  apply Returns.relyOn_bind
  apply returns_modify
  refine ⟨moved.trans (.report reached span problem), .single ?_⟩
  have member : reached.report.diagnose span problem ∈
      (reached.report.add span problem).made.toList := by
    rw [Report.made_add]
    simp
  exact .invalid member lexical

/-! ### Literals -/

theorem skipGap_passes (received : state.input.Received source answers) :
    Returns skipGap state fun _ after => state.Passes source answers after := by
  unfold skipGap
  apply (passes_stays position (.refl state)).bind
  intro start reached passes
  refine @Returns.bind _ _ _ _ (fun _ current => state.Passes source answers current) _ _
    (repeatUntil_returns (fun _ current => state.Passes source answers current) passes ?_)
    fun _ _ passes => passes_stays _ passes
  intro _ current passes
  apply (passes_stays hasMore passes).bind
  intro more asked passes
  split
  · exact returns_pure passes
  · apply Returns.get_bind
    split
    · next isSpace =>
        have received := passes.undisturbed.received source answers received
        apply (passes_advance passes fun made => .single (received.skips_space isSpace)).bind
        intro _ moved passed
        exact returns_pure passed.1
    · exact returns_pure passes

/-- The gap before a word is a token of its own, or is passed over. -/
theorem quotation_finds (literal : Quotation) (received : state.input.Received source answers) :
    Returns (quotation literal) state fun token after =>
      state.Finds source answers token after := by
  unfold quotation
  apply Returns.position_bind
  extract_lets afterGap
  have gapped {reached : State} (gap : Bool) (passes : state.Passes source answers reached) :
      Returns (afterGap gap) reached fun token after => state.Finds source answers token after := by
    unfold afterGap
    split
    · have separated (kept : Option OpenLiteral) : StartsAt state.input.position
          (setLiteral kept >>= fun _ => token .wordSeparator state.input.position) :=
        inferInstance
      apply ((Lexical.returns reached).and ((separated _).returns reached)).mono
      intro token after both
      exact State.Passes.findsStanding (.refl state) (passes.undisturbed.trans both.1) both.2
    · apply finds_starts passes
      · apply Follows.andThen
        intro start
        apply Follows.andThen
        intro more
        extract_lets inside
        have inside_lexical (checked : Unit) : Lexical (inside checked) := by
          apply Follows.andThen
          intro current
          dsimp only
          split
          · infer_instance
          · split
            · infer_instance
            · infer_instance
        clear_value inside
        infer_instance
      · apply Starts.atPosition
        apply Starts.andThen
        intro more
        extract_lets inside
        have inside_starts (checked : Unit) : Starts reached.input.position (inside checked) := by
          apply Starts.andThen
          intro current
          dsimp only
          split
          · infer_instance
          · split
            · infer_instance
            · infer_instance
        clear_value inside
        infer_instance
  clear_value afterGap
  split
  · exact (skipGap_passes received).bind fun gap _ passes => gapped gap passes
  · rw [pure_bind]
    exact gapped false (.refl state)

theorem literalToken_finds (literal : OpenLiteral)
    (received : state.input.Received source answers) :
    Returns (literalToken literal) state fun token after =>
      state.Finds source answers token after := by
  unfold literalToken
  apply Returns.get_bind
  split
  · apply finds_starts (.refl state) inferInstance inferInstance
  · split
    · exact quotation_finds _ received
    · exact finds_starts (.refl state) inferInstance inferInstance

/-! ### Embedded documents -/

/-- More input is asked for only at the end, and does not take away what there is. -/
theorem hasMore_returns (state : State) :
    Returns hasMore state fun _ after =>
      state.Undisturbed after ∧ after.input.position = state.input.position ∧
        (after.input.rest = [] → state.input.rest = []) := by
  refine ((Lexical.returns state).and ((Stays.returns state).and ?_))
  unfold hasMore
  apply Returns.get_bind
  split
  · next atEnd =>
      exact (returns_any _ _).mono fun _ _ _ _ => List.isEmpty_iff.mp atEnd
  · exact returns_pure id

def LineOver (source : Bytes) (answers : List (Option Chunk)) (state : State) : Prop :=
  HasChar state.input.rest 0 '\n' ∨ PieceEnd source answers state.input.position

theorem skipLine_returns (received : state.input.Received source answers)
    (ended : state.input.rest = [] → PieceEnd source answers state.input.position) :
    Returns (do advance (Space.lineLength (← get).input.rest)) state fun _ after =>
      state.Undisturbed after ∧ LineOver source answers after ∧
        after.input.position = state.input.position + Space.lineLength state.input.rest :=
  Returns.get_bind (returns_modify
    ⟨.advance state _ state.lexer, received.ahead.afterLine ended, rfl⟩)

structure LineHead (source : Bytes) (answers : List (Option Chunk)) (state : State) : Prop where
  starts : LineStart (supplied source answers) state.input.position ∨
    PieceEnd source answers state.input.position
  ended : state.input.rest = [] → PieceEnd source answers state.input.position

theorem LineOver.head (done : LineOver source answers state) (other : state.input.peek ≠ '\n') :
    LineHead source answers state where
  starts := .inr (done.resolve_left fun here => other (Input.peek_of_hasChar here))
  ended _ := done.resolve_left fun here => other (Input.peek_of_hasChar here)

theorem lineHead_advance (received : state.input.Received source answers)
    (lineFeed : state.input.peek = '\n') :
    LineHead source answers { state with input := state.input.advance 1 } where
  starts := .inl (.inr (received.ahead.hasChar (Input.hasChar_of_peek lineFeed (by decide))))
  ended nothing := by
    have ahead := received.ahead
    have here := Input.hasChar_of_peek lineFeed (by decide)
    change state.input.rest.drop 1 = [] at nothing
    cases rest : state.input.rest with
    | nil =>
        rw [rest] at here
        cases here
    | cons byte tail =>
        rw [rest] at ahead nothing
        obtain rfl : tail = [] := nothing
        exact ahead.ends (List.cons_ne_nil _ _)

theorem Space.prefix_of_startsWithWord {word rest : Bytes}
    (starts : Space.startsWithWord word rest = true) : word <+: rest :=
  List.isPrefixOf_iff_prefix.mp (Bool.and_eq_true_iff.mp starts).1

structure InDocument (source : Bytes) (answers : List (Option Chunk)) (state current : State) :
    Prop where
  undisturbed : state.Undisturbed current
  done : LineOver source answers current
  later : state.input.position < current.input.position

def DocumentTurn (source : Bytes) (answers : List (Option Chunk)) (state : State)
    (result : Turn Unit Unit) (after : State) : Prop :=
  match result with
  | .again _ => InDocument source answers state after
  | .done _ => state.Passes source answers after

/-- From the line of `=begin` through that of `=end`. -/
theorem embeddedDocument_passes (received : state.input.Received source answers)
    (mark : state.input.peek = '=') (atStart : state.input.atLineStart = true)
    (opening : Space.startsWithWord (ascii "=begin") state.input.rest = true) :
    Returns embeddedDocument state fun _ after => state.Passes source answers after := by
  have opens := Space.prefix_of_startsWithWord opening
  unfold embeddedDocument
  apply Returns.position_bind
  extract_lets skipLine nextLine lineStart
  have nextLine_returns {reached : State} (undisturbed : state.Undisturbed reached)
      (head : LineHead source answers reached)
      (later : state.input.position < reached.input.position) :
      Returns (nextLine ()) reached (DocumentTurn source answers state) := by
    have there := undisturbed.received source answers received
    apply Returns.position_bind
    apply Returns.position_bind
    apply Returns.checkRange_bind
    apply Returns.get_bind
    apply (skipLine_returns there head.ended).bind
    rintro _ skipped ⟨kept, done, position⟩
    apply returns_pure
    have whole := undisturbed.trans kept
    cases closing : Space.startsWithWord (ascii "=end") reached.input.rest with
    | false => exact ⟨whole, done, Nat.lt_of_lt_of_le later kept.position⟩
    | true =>
        have closes := Space.prefix_of_startsWithWord closing
        have unread : reached.input.rest ≠ [] := by
          intro nothing
          rw [nothing] at closes
          exact absurd (List.prefix_nil.mp closes) (by decide)
        have line := there.ahead.restOfLine unread
        rw [← position] at line
        exact ⟨whole, .single (.document (received.lineStart atStart)
          (received.ahead.isPrefix opens) later head.starts (there.ahead.isPrefix closes) line)⟩
  have lineStart_returns {reached : State} (undisturbed : state.Undisturbed reached)
      (head : LineHead source answers reached)
      (later : state.input.position < reached.input.position) :
      Returns (lineStart ()) reached (DocumentTurn source answers state) := by
    apply (hasMore_returns reached).bind
    rintro more asked ⟨kept, position, ended⟩
    split
    · exact returns_fail_bind
    · apply nextLine_returns (undisturbed.trans kept)
      · constructor
        · rw [position]
          exact head.starts
        · rw [position]
          exact fun nothing => head.ended (ended nothing)
      · rw [position]
        exact later
  clear_value lineStart
  have first := lineLength_pos mark
  have unread : state.input.rest ≠ [] := by
    intro nothing
    rw [nothing] at first
    exact absurd first (by decide)
  apply (skipLine_returns received fun nothing => absurd nothing unread).bind
  rintro _ opened ⟨undisturbed, done, position⟩
  have later : state.input.position < opened.input.position := by omega
  refine repeatUntil_returns (fun _ current => InDocument source answers state current)
    ⟨undisturbed, done, later⟩ ?_
  rintro _ current ⟨undisturbed, done, later⟩
  have turn : Returns (do
      if (← peek) == '\n' then
        advance 1
        lineStart ()
      else lineStart ()) current (DocumentTurn source answers state) := by
    apply Returns.peek_bind
    split
    · next lineFeed =>
        have there := undisturbed.received source answers received
        apply Returns.modify_bind
        apply lineStart_returns (undisturbed.trans (.advance current 1 current.lexer))
        · exact lineHead_advance there (eq_of_beq lineFeed)
        · exact Nat.lt_succ_of_lt later
    · next other =>
        exact lineStart_returns undisturbed (done.head (by simpa using other)) later
  apply turn.mono
  intro result after ends
  cases result with
  | again _ => exact ends
  | done _ => exact ends

/-! ### The search for a token -/

def TurnFinds (source : Bytes) (answers : List (Option Chunk)) (before : State)
    (result : Turn Bool Token) (after : State) : Prop :=
  match result with
  | .again _ => before.Passes source answers after
  | .done token => before.Finds source answers token after

theorem turnFinds_done {step : Scan Token}
    (finds : Returns step state fun token after => before.Finds source answers token after) :
    Returns (step >>= fun token => pure (.done token)) state (TurnFinds source answers before) :=
  finds.bind fun _ _ found => returns_pure found

theorem invalidCharacter_passes (state : State) :
    Returns invalidCharacter state fun _ after => state.Passes source answers after := by
  unfold invalidCharacter
  apply Returns.get_bind
  dsimp only
  apply Returns.modify_bind
  apply Returns.position_bind
  exact passes_report (.advance state _ state.lexer) (.inl rfl)

theorem endOfInput_finds {reached : State} (passes : before.Passes source answers state)
    (moved : state.Undisturbed reached) :
    Returns (endOfInput state.input.position) reached fun token after =>
      before.Finds source answers token after := by
  have ends : Returns (endOfInput state.input.position) reached fun token after =>
      token.kind = .endOfInput ∧
        token.span = ⟨state.input.position, after.input.position⟩ := by
    unfold endOfInput
    apply Returns.get_bind
    extract_lets lexer rest
    have rest_returns : Returns (rest ()) reached fun token after =>
        token.kind = .endOfInput ∧
          token.span = ⟨state.input.position, after.input.position⟩ := by
      unfold rest
      split
      · exact returns_throw _
      · exact Returns.modify_bind ⟨fun run => by cases run; exact ⟨rfl, rfl⟩⟩
    clear_value rest
    split
    · exact returns_fail_bind
    · exact rest_returns
  apply ((Lexical.returns reached).and ends).mono
  rintro token after ⟨kept, kind, span⟩
  exact passes.findsEnd (moved.trans kept) kind span

theorem lineFeed_finds (received : state.input.Received source answers)
    (here : state.input.peek = '\n') :
    Returns lineFeed state (TurnFinds source answers state) := by
  let moved : State := { state with input := state.input.advance 1 }
  have passes : state.Passes source answers moved :=
    ⟨.advance state 1 state.lexer,
      .single (received.skips_space (isSpace_of_lineFeed here))⟩
  have token {reached : State} (kept : moved.Undisturbed reached) :
      Returns (newline state.input.position) reached fun token after =>
        state.Finds source answers token after := by
    have stands : StartsAt state.input.position (newline state.input.position) := inferInstance
    apply ((Lexical.returns reached).and (stands.returns reached)).mono
    intro token after both
    exact State.Passes.findsStanding (.refl state)
      ((passes.undisturbed.trans kept).trans both.1) both.2
  unfold lineFeed
  apply Returns.get_bind
  dsimp only
  apply Returns.modify_bind
  split
  · apply Returns.modify_bind
    have flagged : moved.Undisturbed
        { moved with lexer := { moved.lexer with heredocsDue := true } } :=
      .ofFields rfl rfl rfl rfl rfl rfl
    split
    · apply turnFinds_done
      exact finds_starts (passes.trans (.ofStill flagged rfl)) inferInstance inferInstance
    · exact turnFinds_done (token flagged)
  · split
    · exact returns_pure passes
    · split
      · next length continued =>
          have length_eq : Space.commentLinesFrom false (state.input.rest.drop 1) = length := by
            unfold Space.continuation? at continued
            dsimp only at continued
            split at continued
            · exact Option.some.inj continued
            · cases continued
          subst length_eq
          apply (passes_advance passes fun _ =>
            Space.skipped_commentLines _ (received.ahead.drop 1)).bind
          intro _ _ passed
          exact returns_pure passed.1
      · exact turnFinds_done (token (.refl moved))

/-- Where a byte stands that is not white space, a token starts or nothing does. -/
theorem tokenHere_finds (before : Surroundings) (received : state.input.Received source answers) :
    Returns (tokenHere before) state (TurnFinds source answers state) := by
  unfold tokenHere
  apply Returns.get_bind
  dsimp only
  apply Returns.checkRange_bind
  split
  · next document =>
      rw [Bool.and_eq_true, Bool.and_eq_true, beq_iff_eq] at document
      obtain ⟨⟨mark, atStart⟩, opening⟩ := document
      apply (embeddedDocument_passes received mark atStart opening).bind
      intro _ _ passes
      exact returns_pure passes
  · split
    · split
      · apply (invalidCharacter_passes state).bind
        intro _ _ passes
        exact returns_pure passes
      · apply turnFinds_done
        apply ((Lexical.returns state).and (name_returns _ rfl)).mono
        rintro token after ⟨undisturbed, ended | worded⟩
        · obtain ⟨kind, span⟩ := ended
          refine State.Passes.finds (.refl state) undisturbed ?_ ?_ ?_ ?_
          · rw [span]
          · rw [span]
            exact Nat.le_add_right _ 7
          · exact fun other => absurd kind other
          · intro word
            rw [kind] at word
            cases word
        · exact State.Passes.findsWorded (.refl state) undisturbed worded
            received.ahead.isPrefix
    · split
      · exact turnFinds_done (finds_starts (.refl state) inferInstance inferInstance)
      · apply ((Lexical.returns state).and (mark?_returns before rfl)).bind
        rintro mark reached ⟨undisturbed, result⟩
        cases mark with
        | some token =>
            exact returns_pure (State.Passes.findsStanding (.refl state) undisturbed result)
        | none =>
            obtain rfl : reached = state := result
            apply Returns.modify_bind
            have moved : reached.Undisturbed { reached with input := reached.input.advance 1 } :=
              .advance reached 1 reached.lexer
            apply (passes_report moved (.inr ⟨_, rfl⟩)).bind
            intro _ _ passes
            exact returns_pure passes

theorem TurnFinds.after {result : Turn Bool Token} {after : State}
    (passes : before.Passes source answers state)
    (finds : TurnFinds source answers state result after) :
    TurnFinds source answers before result after := by
  cases result with
  | again _ => exact passes.trans finds
  | done token => exact passes.findsAfter finds

theorem tokenTurn_finds (before : Surroundings) (received : state.input.Received source answers) :
    Returns (tokenTurn before) state (TurnFinds source answers state) := by
  unfold tokenTurn
  apply Returns.get_bind
  apply (passes_advance (.refl state) fun _ => Space.skipped_length received.ahead).bind
  rintro _ moved ⟨passes, -⟩
  have received := passes.undisturbed.received source answers received
  apply Returns.get_bind
  dsimp only
  split
  · apply turnFinds_done
    exact ⟨fun run => by cases run; exact passes.findsEnd (.refl moved) rfl rfl⟩
  · split
    · split
      · split
        · apply ((Lexical.returns moved).and (Stays.returns moved)).bind
          rintro more asked ⟨kept, still⟩
          split
          · exact returns_pure (passes.trans (.ofStill kept still))
          · exact turnFinds_done (endOfInput_finds passes kept)
        · exact turnFinds_done (endOfInput_finds passes (.refl moved))
      · apply Returns.modify_bind
        exact turnFinds_done (endOfInput_finds passes (.advance moved 1 moved.lexer))
    · split
      · next lineFeed =>
          exact (lineFeed_finds received (eq_of_beq lineFeed)).mono fun _ _ finds =>
            finds.after passes
      · exact (tokenHere_finds _ received).mono fun _ _ finds => finds.after passes

/-- Between the position and the next token nothing stands but what may stand between
tokens. -/
theorem nextToken_finds (received : state.input.Received source answers) :
    Returns nextToken state fun token after => state.Finds source answers token after := by
  unfold nextToken
  apply Returns.get_bind
  dsimp only
  split
  · exact literalToken_finds _ received
  · split
    · exact finds_starts (.refl state) inferInstance inferInstance
    · apply Returns.modify_bind
      have flagged : state.Undisturbed { state with lexer := { state.lexer with
          statementStart := false, afterArrow := false } } :=
        .ofFields rfl rfl rfl rfl rfl rfl
      refine repeatUntil_returns (fun _ current => state.Passes source answers current)
        (.ofStill flagged rfl) ?_
      intro blank current passes
      apply (tokenTurn_finds _ (passes.undisturbed.received source answers received)).mono
      intro result after finds
      have finds := finds.after passes
      cases result with
      | again _ => exact finds
      | done token => exact finds

end Scan

end RubySyntax
