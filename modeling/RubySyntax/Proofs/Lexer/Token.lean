/-
The next token, whatever it is.

Reading a token never fails but for fatal errors, and makes what is left
shorter unless the token is the end of the input or the marker before the
bodies of heredocs.
-/

import RubySyntax.Proofs.Lexer.Mark

namespace RubySyntax

namespace Space

/-- After the rest of a line comes a line feed or the end. -/
theorem after_line (rest : Bytes) :
    rest.drop (lineLength rest) = [] ∨
      ((rest.drop (lineLength rest)).headD 0).char = '\n' := by
  unfold lineLength
  induction rest with
  | nil => exact .inl rfl
  | cons byte rest ih =>
      rw [List.takeWhile_cons]
      split
      · rw [List.length_cons, List.drop_succ_cons]
        exact ih
      · next line =>
          rw [bne_iff_ne, Decidable.not_not] at line
          exact .inr line

end Space

namespace Scan

variable {base state : State}

def TurnEnds (base : State) (result : Turn Bool Token) (after : State) : Prop :=
  match result with
  | .again _ => Lexed base after ∧ after.remaining < base.remaining
  | .done token => Next base token after

theorem endOfInput_ends (lexed : Lexed base state) (start : Nat) :
    Ends (endOfInput start) state fun result after => Gives base result after := by
  refine Ends.get_bind (Ends.when (state = ·) (fun _ => ends_fail lexed.lexing.map) (fun _ => rfl) ?_)
  rintro _ rfl
  split
  · exact ends_fail lexed.lexing.map
  · refine (setFlags_ends lexed.lexing rfl rfl rfl rfl rfl).bind fun _ ended set => ?_
    refine (token_ends _ _).mono ?_
    rintro result after ⟨kind, rfl⟩
    refine ⟨lexed.trans set.toLexed, ?_, .inl kind, ?_⟩
    · rw [kind]
      simp [TokenKind.names]
    · rw [kind]
      simp [TokenKind.Plain]

theorem newline_ends (lexed : Lexed base state) (less : state.remaining < base.remaining)
    (start : Nat) :
    Ends (newline start) state fun result after => Gives base result after := by
  refine (setFlags_ends lexed.lexing rfl rfl rfl rfl rfl).bind fun _ flagged set => ?_
  exact token_gives (lexed.trans set.toLexed) (Nat.lt_of_le_of_lt set.remaining less)
    (by simp [TokenKind.names]) (by simp [TokenKind.Plain]) _

theorem heredocMarker_ends (carried : Carried base state) (reads : state.Reads)
    (due : state.lexer.heredocsDue = true) :
    Ends heredocMarker state fun result after => Next base result after := by
  refine Ends.position_bind ((token_ends _ _).mono ?_)
  rintro result after ⟨kind, rfl⟩
  refine ⟨carried, reads, ?_, .inr (.inl kind), fun _ => due, ?_⟩
  · rw [kind]
    simp [TokenKind.names]
  · rw [kind]
    rintro ⟨⟩

theorem lineFeed_ends (lexing : state.Lexing) (some : 0 < state.input.rest.length) :
    Ends lineFeed state (TurnEnds state) := by
  refine Ends.get_bind ((advance_ends lexing some).bind fun _ moved step => ?_)
  have less := step.less Nat.one_pos
  refine Ends.ite (fun _ => ?_) fun _ => Ends.ite (fun _ => ?_) fun _ => ?_
  · have shorter := step.shorter
    have weight : 2 * moved.input.unread +
        LexerState.weight { moved.lexer with heredocsDue := true } < state.remaining := by
      unfold State.remaining LexerState.weight at shorter
      unfold State.remaining LexerState.weight
      dsimp only
      split at shorter <;> rw [if_pos rfl] <;> omega
    have lexed : Lexed state { moved with lexer := { moved.lexer with heredocsDue := true } } :=
      step.toLexed.setLexer lexing (Nat.le_of_lt weight) step.awaited step.lexing.idle
        step.lexing.regexp
    refine Ends.setLexer_bind (Ends.ite (fun _ => ?_) fun _ => ?_)
    · exact (heredocMarker_ends lexed.toCarried lexed.lexing.toReads rfl).bind
        fun _ _ next => ends_pure next
    · exact (newline_ends lexed weight _).bind fun _ _ gives => ends_pure gives.next
  · exact ends_pure ⟨step.toLexed, less⟩
  · split
    · next length continued =>
        have enough := Space.continuation?_le continued
        rw [← step.rest lexing] at enough
        refine (advance_ends step.lexing enough).bind fun _ after passed => ends_pure ?_
        exact ⟨step.toLexed.trans passed.toLexed, Nat.lt_of_le_of_lt passed.remaining less⟩
    · exact (newline_ends step.toLexed less _).bind fun _ _ gives => ends_pure gives.next

theorem skipLine_ends (lexing : state.Lexing) :
    Ends (do advance (Space.lineLength (← get).input.rest)) state fun _ after =>
      Passed state (Space.lineLength state.input.rest) after ∧
        (after.input.rest = [] ∨ (after.input.rest.headD 0).char = '\n') := by
  refine Ends.get_bind ((advance_ends lexing (Space.lineLength_le _)).mono fun _ after step => ?_)
  refine ⟨step, ?_⟩
  rw [step.rest lexing]
  exact Space.after_line _

theorem embeddedDocument_ends (lexing : state.Lexing)
    (first : 0 < Space.lineLength state.input.rest) :
    Ends embeddedDocument state fun _ after =>
      Lexed state after ∧ after.remaining < state.remaining := by
  refine Ends.position_bind ((skipLine_ends lexing).bind ?_)
  rintro _ started ⟨passed, stops⟩
  have turns := passed.lexing.turns
  refine repeatUntil_ends
    (fun _ current => (Lexed state current ∧ current.remaining < state.remaining) ∧
      (current.input.rest = [] ∨ (current.input.rest.headD 0).char = '\n'))
    (fun _ current => current.remaining) _ ⟨⟨passed.toLexed, passed.less first⟩, stops⟩
    (by omega) ?_
  rintro _ current ⟨⟨lexed, less⟩, stops⟩
  refine Ends.peek_bind (Ends.when (fun reached => Lexed current reached ∧
    (reached.remaining < current.remaining ∨ reached.input.rest = [])) (fun line => ?_)
    (fun line => ?_) ?_)
  · have some := length_pos_of_char (eq_of_beq line) (by decide)
    exact (advance_ends lexed.lexing some).mono fun _ _ step =>
      ⟨step.toLexed, .inl (step.less Nat.one_pos)⟩
  · refine ⟨Lexed.refl lexed.lexing, .inr (stops.resolve_right fun atLine => ?_)⟩
    exact line (beq_iff_eq.mpr atLine)
  · rintro fed ⟨fedLexed, progress⟩
    refine (hasMore_ends fedLexed.lexing).bind ?_
    rintro found reached ⟨looked, -, -, -, result⟩
    cases found with
    | false => exact Ends.bind (ends_fail looked.lexing.map) fun _ _ impossible => False.elim impossible
    | true =>
        obtain ⟨inside, -, shorter⟩ := result
        refine Ends.position_bind (Ends.position_bind (Ends.checkRange_bind (Nat.le_refl _)
          inside (Ends.get_bind ((skipLine_ends looked.lexing).bind ?_))))
        rintro _ skipped ⟨passed, stops⟩
        have fewer : skipped.remaining < current.remaining := by
          have last := passed.remaining
          have earlier := fedLexed.remaining
          rcases shorter with ⟨rfl, filled⟩ | fetched
          · rcases progress with line | ended
            · omega
            · rw [ended] at filled
              exact absurd filled (Nat.lt_irrefl _)
          · omega
        have whole := (lexed.trans (fedLexed.trans looked)).trans passed.toLexed
        refine ends_pure ?_
        cases Space.startsWithWord (ascii "=end") reached.input.rest with
        | true => exact ⟨whole, Nat.lt_trans fewer less⟩
        | false => exact ⟨⟨⟨whole, Nat.lt_trans fewer less⟩, stops⟩, fewer⟩

theorem invalidCharacter_ends (lexing : state.Lexing) (some : 0 < state.input.rest.length) :
    Ends invalidCharacter state fun _ after =>
      Lexed state after ∧ after.remaining < state.remaining := by
  have tails := length_takeWhile_le Utf8.isTail (state.input.rest.drop 1)
  rw [List.length_drop] at tails
  refine Ends.get_bind ((advance_ends lexing (by omega)).bind fun _ moved step => ?_)
  refine Ends.position_bind ((report_ends step.lexing.toReads _ _).mono fun _ _ silent => ?_)
  have passed := step.silent silent
  exact ⟨passed.toLexed, passed.less (by omega)⟩

theorem lineLength_pos {rest : Bytes} (mark : (rest.headD 0).char = '=') :
    0 < Space.lineLength rest := by
  cases rest with
  | nil => exact absurd mark (by decide)
  | cons byte rest =>
      change byte.char = '=' at mark
      unfold Space.lineLength
      rw [List.takeWhile_cons, if_pos (by rw [mark]; decide)]
      simp

theorem tokenHere_ends (lexing : state.Lexing) (before : Surroundings)
    (some : 0 < state.input.rest.length) :
    Ends (tokenHere before) state (TurnEnds state) := by
  have first := lexing.input.inside some some
  refine Ends.get_bind (Ends.checkByte_bind first ?_)
  refine Ends.ite (fun document => ?_) fun _ => Ends.ite (fun starts => Ends.ite (fun _ => ?_)
    fun valid => ?_) fun _ => Ends.ite (fun digit => ?_) fun _ => ?_
  · rw [Bool.and_eq_true, Bool.and_eq_true, beq_iff_eq] at document
    exact (embeddedDocument_ends lexing (lineLength_pos document.1.1)).bind
      fun _ _ passed => ends_pure passed
  · exact (invalidCharacter_ends lexing some).bind fun _ _ passed => ends_pure passed
  · exact (name_ends lexing _ starts valid).bind fun _ _ gives => ends_pure gives.next
  · have positive := NumberReading.ofDigits_length_pos digit
    refine (number_ends (Lexed.refl lexing) (by omega) (NumberReading.ofDigits_length_le _)
      first (Nat.le_of_lt first) (NumberReading.ofDigits_value _)).bind ?_
    exact fun _ _ gives => ends_pure gives.next
  · refine (mark?_ends lexing before some).bind fun mark reached result => ?_
    cases mark with
    | some token => exact ends_pure (Gives.next result)
    | none =>
        subst result
        refine (advance_ends lexing some).bind fun _ moved step => ?_
        refine (report_ends step.lexing.toReads _ _).bind fun _ _ silent => ends_pure ?_
        have passed := step.silent silent
        exact ⟨passed.toLexed, passed.less Nat.one_pos⟩

theorem TurnEnds.after {result : Turn Bool Token} {after : State} (lexed : Lexed base state)
    (ends : TurnEnds state result after) : TurnEnds base result after := by
  cases result with
  | again _ => exact ⟨lexed.trans ends.1, Nat.lt_of_lt_of_le ends.2 lexed.remaining⟩
  | done _ => exact Next.after lexed ends

theorem tokenTurn_ends (lexing : state.Lexing) (before : Surroundings) :
    Ends (tokenTurn before) state (TurnEnds state) := by
  have space : Space.length state.input.rest ≤ state.input.rest.length :=
    Space.lengthFrom_le false _
  refine Ends.get_bind ((advance_ends lexing space).bind fun _ moved step => ?_)
  have finished (start : Nat) {reached : State} (lexed : Lexed state reached) :
      Ends (do
          let token ← endOfInput start
          pure (Turn.done token)) reached (TurnEnds state) :=
    (endOfInput_ends lexed start).bind fun _ _ gives => ends_pure gives.next
  refine Ends.get_bind (Ends.ite (fun _ => ?_) fun _ => Ends.ite (fun _ => Ends.ite
    (fun _ => Ends.ite (fun _ => ?_) fun _ => finished _ step.toLexed) fun more => ?_)
    fun filled => Ends.ite (fun line => ?_) fun _ => ?_)
  · refine (token_ends _ _).bind ?_
    rintro result after ⟨kind, rfl⟩
    refine ends_pure ⟨step.toCarried, step.lexing.toReads, ?_, .inl kind, ?_, ?_⟩
    · rw [kind]
      simp [TokenKind.names]
    · rw [kind]
      rintro ⟨⟩
    · rw [kind]
      rintro ⟨⟩
  · refine (fetchMore_ends step.lexing).bind ?_
    rintro found fetched ⟨lexed, -, -, result⟩
    cases found with
    | true =>
        have least := step.remaining
        exact ends_pure ⟨step.toLexed.trans lexed, by have := result.1; omega⟩
    | false => exact finished _ (step.toLexed.trans lexed)
  · have some : 1 ≤ moved.input.rest.length := by
      cases listed : moved.input.rest with
      | nil => rw [Input.atEnd, listed] at more; exact absurd rfl more
      | cons => simp
    refine (advance_ends step.lexing some).bind fun _ marked passed => ?_
    exact finished _ (step.toLexed.trans passed.toLexed)
  · have some := length_pos_of_char (eq_of_beq line) (by decide)
    exact (lineFeed_ends step.lexing some).mono fun _ _ ends => ends.after step.toLexed
  · have some : 0 < moved.input.rest.length := by
      refine length_pos_of_headD rfl fun zero => filled ?_
      unfold Input.peekByte
      rw [zero]
      rfl
    exact (tokenHere_ends step.lexing _ some).mono fun _ _ ends => ends.after step.toLexed

theorem literalToken_ends (reads : state.Reads) {literal : OpenLiteral}
    (opened : state.lexer.literal = some literal) :
    Ends (literalToken literal) state fun result after =>
      Next state result after ∧
        (state.lexer.variablePending = true → IsVariable result.kind) := by
  refine Ends.get_bind (Ends.ite (fun pending => ?_) fun idle => ?_)
  · obtain ⟨-, mark, after, rest, -⟩ := reads.pendingVariable pending
    have some : 0 < state.input.rest.length := by
      rw [rest]
      simp
    have lexed : Lexed state { state with
        lexer := { state.lexer with variablePending := false } } :=
      { lexing := ⟨⟨reads.input, reads.map, nofun, reads.regexp, reads.turns⟩, rfl⟩
        arena := rfl
        quotedKey := rfl
        lookahead := rfl
        limits := rfl
        tokens := Nat.le_refl _
        names := Nat.le_refl _
        awaited := rfl
        remaining := Nat.le_refl _ }
    refine Ends.setLexer_bind (Ends.ite (fun _ => ?_) fun _ => ?_)
    · exact (globalVariable_ends lexed.lexing some).mono fun _ _ ends =>
        ⟨Next.after lexed ends.1.next, fun _ => ends.2⟩
    · exact (atVariable_ends lexed.lexing some).mono fun _ _ ends =>
        ⟨Next.after lexed ends.1.next, fun _ => ends.2⟩
  · have lexing : state.Lexing := ⟨reads, Bool.not_eq_true _ ▸ idle⟩
    split
    · exact (quotation_ends lexing opened).mono fun _ _ next =>
        ⟨next, fun pending => absurd pending idle⟩
    · exact (heredocBody_ends lexing opened).mono fun _ _ next =>
        ⟨next, fun pending => absurd pending idle⟩

/-- What the next token is, and what is left after it. After the mark of an
interpolated variable it is that variable. -/
theorem nextToken_ends (reads : state.Reads) :
    Ends nextToken state fun result after =>
      Next state result after ∧
        (state.lexer.variablePending = true → IsVariable result.kind) := by
  refine Ends.get_bind ?_
  dsimp only
  split
  · next literal opened => exact literalToken_ends reads opened
  · next closed =>
      have idle : state.lexer.variablePending = false := by
        cases pending : state.lexer.variablePending with
        | false => rfl
        | true =>
            have opened := (reads.pendingVariable pending).1
            rw [closed] at opened
            cases opened
      have lexing : state.Lexing := ⟨reads, idle⟩
      have settle {result : Token} {after : State} (next : Next state result after) :
          Next state result after ∧
            (state.lexer.variablePending = true → IsVariable result.kind) :=
        ⟨next, fun pending => by rw [idle] at pending; cases pending⟩
      refine Ends.ite (fun due => ?_) fun _ => ?_
      · exact (heredocMarker_ends (Lexed.refl lexing).toCarried reads due).mono
          fun _ _ => settle
      · refine (setFlags_ends lexing rfl rfl rfl rfl rfl).bind fun _ started set => ?_
        have turns := set.lexing.turns
        refine repeatUntil_ends (fun _ current => Lexed state current)
          (fun _ current => current.remaining) _ set.toLexed (by omega) ?_
        intro blank current lexed
        refine (tokenTurn_ends lexed.lexing _).mono fun result after ends => ?_
        cases result with
        | again _ => exact ⟨lexed.trans ends.1, ends.2⟩
        | done token => exact settle (Next.after lexed ends)

/-- The record of what was read is no part of what is left to be read. -/
theorem readToken_ends (reads : state.Reads) :
    Ends readToken state fun result after =>
      Next state result after ∧ state.tokens.length < after.tokens.length ∧
        (state.lexer.variablePending = true → IsVariable result.kind) := by
  apply (nextToken_ends reads).bind
  intro token reached ends
  have next := ends.1
  have counted : state.tokens.length < (token :: reached.tokens).length :=
    Nat.lt_succ_of_le next.tokens
  apply Ends.modify_bind
  apply ends_pure
  refine ⟨?_, counted, ends.2⟩
  exact
    { arena := next.arena
      quotedKey := next.quotedKey
      lookahead := next.lookahead
      limits := next.limits
      tokens := Nat.le_of_lt counted
      names := next.names
      awaited := next.awaited
      remaining := next.remaining
      reads := ⟨next.reads.input, next.reads.map, next.reads.pendingVariable,
        next.reads.regexp, next.reads.turns⟩
      known := next.known
      progress := next.progress
      due := next.due
      pending := next.pending }

end Scan

end RubySyntax
