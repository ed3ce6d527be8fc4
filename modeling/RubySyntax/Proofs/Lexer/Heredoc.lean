/-
Openers and bodies of heredocs.

At the head of a line a body may give a token of no width, after which the
line goes on; the weight of the state of the lexer accounts for it.
-/

import RubySyntax.Proofs.Lexer.Literal

namespace RubySyntax

namespace Scan

variable {base state : State}

theorem heredocOpener?_ends (lexing : state.Lexing) (two : 2 ≤ state.input.rest.length) :
    Ends heredocOpener? state fun result after =>
      match result with
      | some token => Gives state token after
      | none => Silent state after := by
  refine Ends.get_bind ?_
  dsimp only
  split
  · exact ends_pure (Silent.refl state)
  · exact (report_ends lexing.toReads _ _).bind fun _ _ silent => ends_pure silent
  · next delimiter indented dedented quote length opened =>
      have enough := HeredocOpening.read_length_le opened
      rw [List.length_drop] at enough
      have fits : 2 + length ≤ state.input.rest.length := by omega
      refine (advance_ends lexing fits).bind fun _ moved step => ?_
      have inside := step.inside lexing (by omega) fits
      refine Ends.position_bind (Ends.checkRange_bind (Nat.sub_le _ _)
        (Nat.le_trans (Nat.sub_le _ _) inside) ?_)
      have shorter := step.shorter
      have lexed : Lexed state { moved with
          lexer := { moved.lexer with
            mode := .operandEnd
            heredocs := moved.lexer.heredocs ++ [{ heredoc :=
              { delimiter, indented, dedented, quote, start := state.input.position } }] } } ∧
          ({ moved with
            lexer := { moved.lexer with
              mode := .operandEnd
              heredocs := moved.lexer.heredocs ++ [{ heredoc :=
                { delimiter, indented, dedented, quote, start := state.input.position } }] }
            } : State).remaining < state.remaining := by
        have weight : 2 * moved.input.unread + LexerState.weight { moved.lexer with
            mode := .operandEnd
            heredocs := moved.lexer.heredocs ++ [{ heredoc :=
              { delimiter, indented, dedented, quote, start := state.input.position } }] } <
            state.remaining := by
          unfold State.remaining LexerState.weight at shorter
          unfold LexerState.weight
          simp only [List.length_append, List.length_singleton]
          unfold State.remaining LexerState.weight
          omega
        refine ⟨step.toLexed.setLexer lexing (Nat.le_of_lt weight) ?_ step.lexing.idle
          fun _ _ _ => inside, weight⟩
        rw [← step.awaited]
        unfold LexerState.awaited
        rw [List.filterMap_append]
        exact List.append_nil _
      refine Ends.setLexer_bind ((token_gives lexed.1 lexed.2 (by simp [TokenKind.names])
        (by simp [TokenKind.Plain]) _).bind ?_)
      exact fun _ _ gives => ends_pure gives

structure BodyText (heredoc : Heredoc) (base : State) (lineEnd : Bool) (state : State) : Prop
    extends Within base state where
  lineEnd : lineEnd = true → state.remaining + 2 ≤ base.remaining
  stopped : state.remaining + 2 ≤ base.remaining ∨
    (state.input.position = base.input.position ∧ state.input.rest = []) ∨
    (state = base ∧ heredoc.interpolates = true ∧
      (Interpolation.at? base.input.rest).isSome = true)

theorem heredocText_ends (lexing : state.Lexing) {heredoc : Heredoc} {lineHead : Bool}
    (opened : state.lexer.literal = some (.heredocBody heredoc lineHead)) :
    Ends (heredocText heredoc) state fun result after =>
      BodyText heredoc state result.2 after := by
  have turns := lexing.turns
  have noRegexp : ∀ literal, state.lexer.literal ≠ some (.quotation literal) := by
    intro literal quoted
    rw [opened] at quoted
    cases quoted
  refine repeatUntil_ends
    (fun _ current => Within state current ∧
      (current = state ∨ current.remaining + 2 ≤ state.remaining))
    (fun _ current => current.remaining) _ ⟨Within.refl lexing, .inl rfl⟩ (by omega) ?_
  rintro bytes current ⟨within, since⟩
  refine within.hasMore.bind ?_
  rintro found reached ⟨looked, position, shrunk, result⟩
  cases found with
  | false =>
      refine ends_pure ⟨looked, nofun, ?_⟩
      rcases since with rfl | moved
      · exact .inr (.inl ⟨position, result⟩)
      · exact .inl (by omega)
  | true =>
      obtain ⟨inside, -, shorter⟩ := result
      have least := within.remaining
      refine Ends.get_bind (Ends.ite (fun interpolated => ends_pure ?_) fun _ => ?_)
      · rw [Bool.and_eq_true] at interpolated
        refine ⟨looked, nofun, ?_⟩
        rcases shorter with ⟨rfl, filled⟩ | fetched
        · rcases since with rfl | moved
          · exact .inr (.inr ⟨rfl, interpolated⟩)
          · exact .inl moved
        · exact .inl (by omega)
      · refine Ends.ite (fun backslash => ?_) fun _ => ?_
        · rw [Bool.and_eq_true] at backslash
          have some := length_pos_of_char (eq_of_beq backslash.2) (by decide)
          have length := EscapeReading.read_length_le (reached.input.rest.drop 1)
          rw [List.length_drop] at length
          refine (looked.advance inside (by omega)
            (fun _ quoted => absurd quoted (noRegexp _)) ?_).bind ?_
          · rcases shorter with ⟨rfl, filled⟩ | fetched <;> omega
          · rintro _ moved ⟨passed, -, -, less⟩
            refine (escapeRemarks_ends passed.lexing.toReads _ _).bind fun _ after silent => ?_
            refine ends_pure ⟨⟨passed.silent silent, .inr ?_⟩, ?_⟩
            · rw [silent.remaining]
              rcases shorter with ⟨rfl, filled⟩ | fetched <;> omega
            · rw [silent.remaining]
              rcases shorter with ⟨rfl, filled⟩ | fetched <;> omega
        · refine (looked.advance inside (Nat.le_add_left _ _)
            (fun _ quoted => absurd quoted (noRegexp _)) ?_).bind ?_
          · rcases shorter with ⟨rfl, filled⟩ | fetched <;> omega
          · rintro _ moved ⟨passed, -, -, less⟩
            have fewer : moved.remaining + 2 ≤ current.remaining := by
              rcases shorter with ⟨rfl, filled⟩ | fetched <;> omega
            refine Ends.ite (fun _ => ?_) fun _ => ?_
            · exact ends_pure ⟨passed, fun _ => by omega, .inl (by omega)⟩
            · exact ends_pure ⟨⟨passed, .inr (by omega)⟩, by omega⟩

/-- A line of the body goes on, or a new one starts after a line feed. -/
theorem setBody_ends (lexing : base.Lexing) (within : Within base state)
    {heredoc : Heredoc} {lineHead : Bool} (lineEnd : Bool)
    (opened : base.lexer.literal = some (.heredocBody heredoc lineHead))
    (less : state.remaining + (if lineEnd then 1 else 0) <
      base.remaining + (if lineHead then 1 else 0)) :
    Ends (setLiteral (some (.heredocBody heredoc lineEnd))) state fun _ after =>
      Lexed base after ∧ after.remaining < base.remaining := by
  have before : OpenLiteral.headWeight state.lexer.literal = if lineHead then 1 else 0 := by
    rw [within.lexer, opened]
    cases lineHead <;> rfl
  have after : OpenLiteral.headWeight (some (.heredocBody heredoc lineEnd)) =
      if lineEnd then 1 else 0 := by
    cases lineEnd <;> rfl
  have weight : 2 * state.input.unread + LexerState.weight { state.lexer with
      literal := some (.heredocBody heredoc lineEnd) } < base.remaining := by
    unfold State.remaining LexerState.weight at less
    unfold State.remaining LexerState.weight
    dsimp only
    omega
  refine ends_modify ⟨within.toLexed.setLexer lexing (Nat.le_of_lt weight)
    within.awaited within.lexing.idle nofun, weight⟩

theorem heredocContent_ends (lexing : state.Lexing) {heredoc : Heredoc} {lineHead : Bool}
    (opened : state.lexer.literal = some (.heredocBody heredoc lineHead))
    (fresh : lineHead = false → heredoc.interpolates = true →
      Interpolation.at? state.input.rest = none) :
    Ends (heredocContent heredoc lineHead) state fun result after =>
      Gives state result after := by
  refine Ends.position_bind ((heredocText_ends lexing opened).bind ?_)
  rintro ⟨bytes, lineEnd⟩ read text
  refine Ends.get_bind (Ends.when (fun reached => read = reached ∧
    (read.remaining + 2 ≤ state.remaining ∨ read = state ∧ lineHead = true))
    (fun _ => ends_fail text.lexing.map) (fun unended => ⟨rfl, ?_⟩) ?_)
  · rcases text.stopped with moved | ⟨position, ended⟩ | ⟨same, interpolates, starts⟩
    · exact .inl moved
    · refine absurd ?_ unended
      rw [Bool.and_eq_true, decide_eq_true_eq]
      exact ⟨position, by rw [Input.atEnd, ended]; rfl⟩
    · refine .inr ⟨same, ?_⟩
      cases lineHead with
      | true => rfl
      | false =>
          rw [fresh rfl interpolates] at starts
          cases starts
  · rintro _ ⟨rfl, since⟩
    have finish {reached : State} (silent : Silent read reached) :
        Ends (do
            setLiteral (some (.heredocBody heredoc lineEnd))
            token (.content bytes.toList lineHead) state.input.position) reached
          fun result after => Gives state result after := by
      refine (setBody_ends lexing (text.silent silent) lineEnd opened ?_).bind ?_
      · rw [silent.remaining]
        rcases since with moved | ⟨rfl, rfl⟩
        · split <;> split <;> omega
        · cases lineEnd with
          | true =>
              have moved := text.lineEnd rfl
              omega
          | false => simp
      · rintro _ after ⟨lexed, less⟩
        exact token_gives lexed less (by simp [TokenKind.names]) (by simp [TokenKind.Plain]) _
    refine Ends.ite (fun _ => ?_) fun _ => finish (Silent.refl read)
    exact (report_ends text.lexing.toReads _ _).bind fun _ _ silent => finish silent

theorem heredocBody_ends (lexing : state.Lexing) {heredoc : Heredoc} {lineHead : Bool}
    (opened : state.lexer.literal = some (.heredocBody heredoc lineHead)) :
    Ends (heredocBody heredoc lineHead) state fun result after =>
      Next state result after := by
  refine Ends.position_bind (Ends.ite (fun atHead => ?_) fun inLine => ?_)
  · refine (hasMore_ends lexing).bind ?_
    rintro found reached ⟨lexed, lexer, -, -, result⟩
    cases found with
    | false => exact Ends.bind (ends_fail lexed.lexing.map) fun _ _ impossible => False.elim impossible
    | true =>
        refine Ends.position_bind (Ends.position_bind (Ends.checkRange_bind (Nat.le_refl _)
          result.1 (Ends.get_bind ?_)))
        have still : reached.lexer.literal = some (.heredocBody heredoc true) := by
          rw [lexer, opened, atHead]
        split
        · next length closing =>
            have enough := Heredoc.closingLength?_le closing
            refine (advance_past_ends lexed.lexing result.1 (Nat.le_succ_of_le enough)
              fun _ _ _ => enough).bind ?_
            rintro _ moved ⟨passed, same, -, -, -⟩
            refine (setLiteral_ends passed.lexing none rfl (by rintro _ ⟨⟩)).bind ?_
            rintro _ closed ⟨set, -, lighter⟩
            have first := lexed.remaining
            have second := passed.remaining
            have weight : OpenLiteral.headWeight moved.lexer.literal = 1 := by
              rw [same, still]
              rfl
            exact (token_gives ((lexed.trans passed).trans set.toLexed) (by omega)
              (by simp [TokenKind.names]) (by simp [TokenKind.Plain]) _).mono
              fun _ _ gives => gives.next
        · refine (heredocContent_ends lexed.lexing still (by rintro ⟨⟩)).mono fun _ _ gives => ?_
          exact Next.after lexed gives.next
  · refine Ends.get_bind ?_
    dsimp only
    split
    · next kind found =>
        refine interpolation_ends lexing (by rw [opened]; rfl) ?_
        split at found
        · exact found
        · cases found
    · next none =>
        rw [Bool.not_eq_true] at inLine
        refine (heredocContent_ends lexing (by rw [opened, inLine]) fun _ interpolates => ?_).mono
          fun _ _ gives => gives.next
        rw [if_pos interpolates] at none
        exact none

end Scan

end RubySyntax
