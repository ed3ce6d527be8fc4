/-
Literals between delimiters, piece by piece.

A piece may end one byte past the input where the byte 0 closes a literal.
Everywhere else the position stays inside, and for regexps it always does.
-/

import RubySyntax.Proofs.Lexer.Name

namespace RubySyntax

namespace Interpolation

theorem at?_code {rest : Bytes} (found : at? rest = some .code) : 2 ≤ rest.length := by
  unfold at? at found
  split at found
  · next sharp after =>
      split at found
      · cases found
      · split at found
        · next brace =>
            have some := length_pos_of_char (eq_of_beq brace) (by decide)
            rw [List.length_cons]
            omega
        · split at found <;> cases found
  · cases found

theorem at?_variable {rest : Bytes} (found : at? rest = some .variableName) :
    1 ≤ rest.length ∧ VariableAhead (rest.drop 1) := by
  unfold at? at found
  split at found
  · next sharp after =>
      split at found
      · cases found
      · split at found
        · cases found
        · split at found
          · next follows =>
              refine ⟨by simp, ?_⟩
              unfold variableFollows at follows
              split at follows
              · refine ⟨_, _, rfl, ?_⟩
                split at follows
                · next atSign => exact .inr atSign
                · next dollar => exact .inl dollar
                · cases follows
              · cases follows
          · cases found
  · cases found

end Interpolation

namespace Scan

variable {base state : State}

theorem escapeRemarks_ends (reads : state.Reads) (backslash : Nat) (reading : EscapeReading) :
    Ends (escapeRemarks backslash reading) state fun _ after => Silent state after :=
  forM_silent _ _ (fun _ _ reads => report_ends reads _ _) reads

theorem closeLiteral_ends (lexed : Lexed base state)
    (less : state.remaining < base.remaining) (literal : Quotation) (start : Nat)
    (regexp : literal.kind = .regexp → state.input.position ≤ state.input.bytes.size) :
    Ends (closeLiteral literal start) state fun result after => Gives base result after := by
  refine (setLiteral_ends lexed.lexing none rfl nofun).bind ?_
  rintro _ closed ⟨passed, -⟩
  have closedLess : closed.remaining < base.remaining :=
    Nat.lt_of_le_of_lt passed.remaining less
  have done {distance : Nat} {reached : State} {kind : TokenKind} {mode : Mode}
      (moved : Passed closed distance reached)
      (names : kind.names = []) (plain : kind.Plain) :
      Ends (do setMode mode; token kind start) reached
        fun result after => Gives base result after := by
    refine (setMode_ends moved.lexing _).bind fun _ moded set => ?_
    have whole := (lexed.trans passed.toLexed).trans (moved.trans set).toLexed
    refine token_gives whole ?_ ?_ plain _
    · exact Nat.lt_of_le_of_lt (moved.trans set).remaining closedLess
    · rw [names]
      exact fun _ member => absurd member List.not_mem_nil
  refine Ends.get_bind (Ends.ite (fun kind => ?_) fun _ => Ends.ite (fun label => ?_) fun _ => ?_)
  · have letters := length_takeWhile_le Byte.isAlpha closed.input.rest
    refine (advance_ends passed.lexing letters).bind fun _ moved step => ?_
    refine Ends.position_bind ?_
    have inside : moved.input.position ≤ moved.input.bytes.size := by
      have within := regexp kind
      have size := passed.lexing.input.size
      rw [step.position, step.bytes, passed.position, passed.bytes]
      rw [passed.position, passed.bytes] at size
      omega
    refine Ends.checkRange_bind (by rw [step.position]; omega) inside ?_
    refine Ends.ite (fun _ => Ends.position_bind ?_) fun _ => done step rfl ⟨nofun, nofun⟩
    refine (report_ends step.lexing.toReads _ _).bind fun _ _ silent => ?_
    exact done (step.silent silent) rfl ⟨nofun, nofun⟩
  · simp only [Bool.and_eq_true, beq_iff_eq] at label
    have colon := length_pos_of_char label.1.2 (by decide)
    refine (advance_ends passed.lexing colon).bind fun _ moved step => ?_
    exact done step rfl ⟨nofun, nofun⟩
  · have still := Passed.of_silent (Silent.refl closed) passed.lexing
    exact done still rfl ⟨nofun, nofun⟩

structure Within (base state : State) : Prop extends Lexed base state where
  lexer : state.lexer = base.lexer
  ordered : base.input.position ≤ state.input.position
  less : base.input.position < state.input.position → state.remaining < base.remaining

theorem Within.refl (lexing : base.Lexing) : Within base base :=
  ⟨Lexed.refl lexing, rfl, Nat.le_refl _, fun absent => absurd absent (Nat.lt_irrefl _)⟩

theorem Within.hasMore (within : Within base state) :
    Ends hasMore state fun found after =>
      Within base after ∧ after.input.position = state.input.position ∧
        after.remaining ≤ state.remaining ∧
        if found then
          after.input.position ≤ after.input.bytes.size ∧
            (state.input.position ≤ state.input.bytes.size →
              0 < after.input.rest.length) ∧
            (after = state ∧ 0 < state.input.rest.length ∨
              after.remaining + 2 ≤ state.remaining)
        else after.input.rest = [] := by
  refine (hasMore_ends within.lexing).mono fun found after looked => ?_
  obtain ⟨lexed, lexer, position, -, result⟩ := looked
  refine ⟨⟨within.toLexed.trans lexed, lexer.trans within.lexer, ?_, ?_⟩, position,
    lexed.remaining, result⟩
  · rw [position]
    exact within.ordered
  · intro moved
    rw [position] at moved
    exact Nat.lt_of_le_of_lt lexed.remaining (within.less moved)

theorem Within.advance (within : Within base state) {distance : Nat}
    (inside : state.input.position ≤ state.input.bytes.size)
    (enough : distance ≤ state.input.rest.length + 1)
    (regexp : ∀ literal, base.lexer.literal = some (.quotation literal) →
      literal.kind = .regexp → distance ≤ state.input.rest.length)
    (less : state.remaining < base.remaining + 2 * min distance state.input.rest.length) :
    Ends (advance distance) state fun _ after =>
      Within base after ∧ after.remaining < base.remaining ∧
        after.input.position = state.input.position + distance ∧
        after.remaining + 2 * min distance state.input.rest.length = state.remaining := by
  rw [← within.lexer] at regexp
  refine (advance_past_ends within.lexing inside enough regexp).mono fun _ after moved => ?_
  obtain ⟨lexed, lexer, position, -, shorter⟩ := moved
  have fewer : after.remaining < base.remaining := by omega
  refine ⟨⟨within.toLexed.trans lexed, lexer.trans within.lexer, ?_, fun _ => fewer⟩, fewer,
    position, shorter⟩
  have ordered := within.ordered
  omega

theorem Within.silent {reached : State} (within : Within base state)
    (silent : Silent state reached) : Within base reached where
  toLexed := within.toLexed.silent silent
  lexer := silent.lexer.trans within.lexer
  ordered := by
    rw [silent.input]
    exact within.ordered
  less moved := by
    rw [silent.input] at moved
    rw [silent.remaining]
    exact within.less moved

theorem skipGap_ends (lexing : state.Lexing) :
    Ends skipGap state fun gap after =>
      Within state after ∧ (gap = true → after.remaining < state.remaining) := by
  refine Ends.position_bind ?_
  have turns := lexing.turns
  refine (repeatUntil_ends (fun _ current => Within state current)
    (fun _ current => current.remaining) (fun _ after => Within state after)
    (Within.refl lexing) (by omega) ?_).bind ?_
  · intro _ current within
    refine within.hasMore.bind ?_
    rintro found reached ⟨looked, -, -, result⟩
    cases found with
    | false => exact ends_pure looked
    | true =>
        obtain ⟨inside, -, shorter⟩ := result
        refine Ends.get_bind (Ends.ite (fun space => ?_) fun _ => ends_pure looked)
        have some : 1 ≤ reached.input.rest.length := by
          refine length_pos_of_headD rfl fun zero => ?_
          unfold Input.peekByte at space
          rw [zero] at space
          exact absurd space (by decide)
        have remaining := within.remaining
        have earlier := looked.toLexed.remaining
        refine (looked.advance inside (by omega) (fun _ _ _ => some) (by omega)).bind ?_
        rintro _ moved ⟨moved, -, -, less⟩
        refine ends_pure ⟨moved, ?_⟩
        rcases shorter with ⟨rfl, -⟩ | fetched <;> omega
  · intro _ after within
    refine Ends.position_bind (ends_pure ⟨within, fun moved => ?_⟩)
    exact within.less (of_decide_eq_true moved)

structure Gathering (literal : Quotation) (base : State) (text : Gathered) (state : State) :
    Prop extends Within base state where
  kind : text.literal.kind = literal.kind
  moved : text.bytes.isEmpty = false → base.input.position < state.input.position

theorem Gathered.add_literal (text : Gathered) (limit : Nat) (bytes : Bytes) :
    (text.add limit bytes).literal = text.literal := by
  unfold Gathered.add
  split <;> rfl

theorem nest_kind (literal : Quotation) (byte : Byte) :
    (literal.nest byte).kind = literal.kind := by
  unfold Quotation.nest
  split
  · rfl
  · split
    · rfl
    · split <;> rfl

theorem gather_ends (lexing : state.Lexing) {literal : Quotation}
    (opened : state.lexer.literal = some (.quotation literal)) :
    Ends (gather literal) state (Gathering literal state) := by
  have turns := lexing.turns
  refine repeatUntil_ends (Gathering literal state) (fun _ current => current.remaining)
    (Gathering literal state) ⟨Within.refl lexing, rfl, fun some => absurd some (by simp)⟩
    (by omega) ?_
  intro text current gathering
  refine gathering.hasMore.bind ?_
  rintro found reached ⟨looked, position, -, result⟩
  have gathered : Gathering literal state text reached :=
    ⟨looked, gathering.kind, fun some => position ▸ gathering.moved some⟩
  cases found with
  | false => exact ends_pure gathered
  | true =>
      obtain ⟨inside, stays, shorter⟩ := result
      refine Ends.get_bind (Ends.ite (fun _ => ends_pure gathered) fun _ => ?_)
      refine Ends.ite (fun _ => ends_pure gathered) fun _ => ?_
      have regexp : ∀ other, state.lexer.literal = some (.quotation other) →
          other.kind = .regexp → literal.kind = .regexp ∧ 0 < reached.input.rest.length := by
        intro other listed kind
        rw [opened] at listed
        cases listed
        refine ⟨kind, stays (gathering.lexing.regexp literal ?_ kind)⟩
        rw [gathering.lexer, opened]
      have earlier := gathering.remaining
      have next {kept : Gathered} {moved : State} (distance : Nat)
          (within : Within state moved) (some : 0 < distance)
          (step : moved.input.position = reached.input.position + distance)
          (kind : kept.literal.kind = literal.kind)
          (less : moved.remaining + 2 * min distance reached.input.rest.length =
            reached.remaining) :
          Gathering literal state kept moved ∧ moved.remaining < current.remaining := by
        have ordered := looked.ordered
        refine ⟨⟨within, kind, fun _ => by omega⟩, ?_⟩
        rcases shorter with ⟨rfl, filled⟩ | fetched <;> omega
      refine Ends.ite (fun backslash => ?_) fun _ => ?_
      · have some := length_pos_of_char (eq_of_beq backslash) (by decide)
        have length := EscapeReading.readIn_length_le literal.escapeRule literal.kind.isList
          literal.opening literal.closing (reached.input.rest.drop 1)
        generalize EscapeReading.readIn _ _ _ _ _ = reading at *
        rw [List.length_drop] at length
        refine (looked.advance inside (by omega) (fun other listed kind => ?_) ?_).bind ?_
        · have keeps : literal.escapeRule = .keep := if_pos (regexp other listed kind).1
          rcases length with short | ⟨-, decodes, -⟩
          · omega
          · exact absurd keeps decodes
        · rcases shorter with ⟨rfl, filled⟩ | fetched <;> omega
        · rintro _ moved ⟨within, -, step, less⟩
          refine (escapeRemarks_ends within.lexing.toReads _ _).bind fun _ after silent => ?_
          refine ends_pure (next (1 + reading.length) (within.silent silent) (by omega) ?_ ?_ ?_)
          · rw [silent.input, step]
          · rw [Gathered.add_literal]
            exact gathering.kind
          · rw [silent.remaining, less]
      · refine (looked.advance inside (Nat.le_add_left _ _)
          (fun other listed kind => (regexp other listed kind).2) ?_).bind ?_
        · rcases shorter with ⟨rfl, filled⟩ | fetched <;> omega
        · rintro _ moved ⟨within, -, step, less⟩
          refine ends_pure (next 1 within Nat.one_pos step ?_ less)
          rw [Gathered.add_literal]
          exact (nest_kind _ _).trans gathering.kind

theorem literalText_ends (lexing : state.Lexing) {literal : Quotation}
    (opened : state.lexer.literal = some (.quotation literal)) :
    Ends (literalText literal) state fun result after => Gives state result after := by
  refine Ends.position_bind ((gather_ends lexing opened).bind fun text gathered gathering => ?_)
  refine Ends.position_bind (Ends.when (fun reached => gathered = reached ∧
    gathered.remaining < state.remaining) (fun _ => ends_fail gathering.lexing.map) (fun some => ⟨rfl, ?_⟩) ?_)
  · refine gathering.less ?_
    rw [Bool.and_eq_true, decide_eq_true_eq, not_and] at some
    have ordered := gathering.ordered
    cases empty : text.bytes.isEmpty with
    | true =>
        have moved := some empty
        omega
    | false => exact gathering.moved empty
  · rintro _ ⟨rfl, less⟩
    have finish {reached : State} (silent : Silent gathered reached) :
        Ends (do
            setLiteral (some (.quotation { text.literal with wordStarted := true }))
            token (.content text.bytes.toList false) state.input.position) reached
          fun result after => Gives state result after := by
      have within := gathering.silent silent
      refine (setLiteral_ends within.lexing _ rfl ?_).bind ?_
      · intro quotation listed kind
        cases listed
        refine within.lexing.regexp literal ?_ (gathering.kind ▸ kind)
        rw [within.lexer, opened]
      · rintro _ after ⟨passed, -⟩
        have least := passed.remaining
        rw [silent.remaining] at least
        exact token_gives (within.toLexed.trans passed.toLexed) (by omega)
          (by simp [TokenKind.names]) (by simp [TokenKind.Plain]) _
    refine Ends.ite (fun _ => Ends.position_bind ?_) fun _ => finish (Silent.refl gathered)
    exact (report_ends gathering.lexing.toReads _ _).bind fun _ _ silent => finish silent

theorem enterInterpolation_ends (lexing : state.Lexing) (start : Nat) :
    Ends (enterInterpolation start) state fun _ after => Passed state 0 after := by
  refine Ends.get_bind (Ends.when (state = ·) (fun _ => ends_fail lexing.map) (fun _ => rfl) ?_)
  rintro _ rfl
  refine ends_modify ⟨lexing.setLexer ?_ ?_ ?_ ?_, rfl, rfl, ?_⟩
  · unfold LexerState.weight
    simp only [List.map_cons, List.sum_cons, OpenLiteral.headWeight]
    omega
  · rfl
  · exact lexing.idle
  · nofun
  · unfold State.remaining LexerState.weight
    simp only [List.map_cons, List.sum_cons, OpenLiteral.headWeight]
    omega

theorem leaveInterpolation_ends (lexing : state.Lexing)
    (inside : state.input.position ≤ state.input.bytes.size) :
    Ends leaveInterpolation state fun _ after => Passed state 0 after := by
  refine ends_modify (Passed.of_setLexer (lexing.setLexer ?_ ?_ ?_ fun _ _ _ => inside)) <;>
    dsimp only
  · split
    · exact Nat.le_refl _
    · next listed =>
        unfold LexerState.weight
        rw [listed, List.map_cons, List.sum_cons]
        dsimp only
        omega
  · split <;> rfl
  · split <;> exact lexing.idle

theorem interpolation_ends (lexing : state.Lexing) {kind : Interpolation}
    (opened : state.lexer.literal.isSome = true)
    (found : Interpolation.at? state.input.rest = some kind) :
    Ends (interpolation kind) state fun result after => Next state result after := by
  refine Ends.position_bind ?_
  cases kind with
  | code =>
      refine (advance_ends lexing (Interpolation.at?_code found)).bind fun _ moved step => ?_
      refine (enterInterpolation_ends step.lexing _).bind fun _ entered passed => ?_
      have whole := step.trans passed
      exact (token_gives whole.toLexed (whole.less (by omega)) (by simp [TokenKind.names])
        (by simp [TokenKind.Plain]) _).mono fun _ _ gives => gives.next
  | variableName =>
      obtain ⟨some, ahead⟩ := Interpolation.at?_variable found
      have moved := advance_passed lexing some
      refine Ends.advance_bind (Ends.setLexer_bind ((token_ends _ _).mono ?_))
      rintro result after ⟨kind, rfl⟩
      have less := moved.less Nat.one_pos
      refine ⟨⟨rfl, rfl, rfl, rfl, Nat.le_refl _, Nat.le_refl _, rfl,
        Nat.le_of_lt less⟩, ?_, ?_, .inr (.inr less), ?_, fun _ => rfl⟩
      · exact ⟨moved.lexing.input, lexing.map, fun _ => ⟨opened, ahead⟩,
          moved.lexing.regexp, moved.lexing.turns⟩
      · rw [kind]
        simp [TokenKind.names]
      · rw [kind]
        rintro ⟨⟩

theorem quotation_ends (lexing : state.Lexing) {literal : Quotation}
    (opened : state.lexer.literal = some (.quotation literal)) :
    Ends (quotation literal) state fun result after => Next state result after := by
  refine Ends.position_bind ?_
  refine Ends.choose false (fun gap after => Within state after ∧
    (gap = true → after.remaining < state.remaining)) (fun _ => skipGap_ends lexing)
    (fun _ => ⟨Within.refl lexing, nofun⟩) ?_
  · rintro gap skipped ⟨within, less⟩
    have still : skipped.lexer.literal = some (.quotation literal) := by
      rw [within.lexer, opened]
    refine Ends.ite (fun separated => ?_) fun _ => ?_
    · rw [Bool.and_eq_true] at separated
      refine (setLiteral_ends within.lexing _ rfl ?_).bind ?_
      · intro quotation listed kind
        cases listed
        exact within.lexing.regexp literal still kind
      · rintro _ after ⟨passed, -⟩
        have least := passed.remaining
        have fewer := less separated.1
        exact (token_gives (within.toLexed.trans passed.toLexed) (by omega)
          (by simp [TokenKind.names]) (by simp [TokenKind.Plain]) _).mono
          fun _ _ gives => gives.next
    · refine Ends.position_bind ((within.hasMore).bind ?_)
      rintro found reached ⟨looked, -, -, result⟩
      cases found with
      | false => exact Ends.bind (ends_fail looked.lexing.map) fun _ _ impossible => False.elim impossible
      | true =>
          obtain ⟨inside, stays, shorter⟩ := result
          have open' : reached.lexer.literal = some (.quotation literal) := by
            rw [looked.lexer, opened]
          have regexp : literal.kind = .regexp → 0 < reached.input.rest.length :=
            fun kind => stays (within.lexing.regexp literal still kind)
          refine Ends.get_bind (Ends.ite (fun _ => ?_) fun _ => ?_)
          · refine (looked.advance inside (Nat.le_add_left _ _) ?_ ?_).bind ?_
            · intro other listed kind
              rw [opened] at listed
              cases listed
              exact regexp kind
            · have least := within.remaining
              rcases shorter with ⟨rfl, filled⟩ | fetched <;> omega
            · rintro _ moved ⟨passed, less, -⟩
              refine (closeLiteral_ends passed.toLexed less literal _ fun kind => ?_).mono
                fun _ _ gives => gives.next
              refine passed.lexing.regexp literal ?_ kind
              rw [passed.lexer, opened]
          · split
            · next kind found =>
                have starts : Interpolation.at? reached.input.rest = some kind := by
                  split at found
                  · exact found
                  · cases found
                refine (setLiteral_ends looked.lexing _ rfl ?_).bind ?_
                · intro quotation listed kind
                  cases listed
                  exact looked.lexing.regexp literal open' kind
                · rintro _ after ⟨passed, lexer, -⟩
                  refine (interpolation_ends passed.lexing ?_ ?_).mono fun _ _ next =>
                    Next.after (looked.toLexed.trans passed.toLexed) next
                  · rw [lexer]
                    rfl
                  · rw [passed.rest looked.lexing]
                    exact starts
            · exact (literalText_ends looked.lexing open').mono fun _ _ gives =>
                Next.after looked.toLexed gives.next

/-! ### The start of a literal -/

theorem openLiteral_ends (lexed : Lexed base state) (less : state.remaining < base.remaining)
    (literal : Quotation)
    (regexp : literal.kind = .regexp → state.input.position ≤ state.input.bytes.size) :
    Ends (openLiteral literal) state fun result after => Gives base result after := by
  refine (setLiteral_ends lexed.lexing _ rfl ?_).bind ?_
  · intro quotation listed kind
    cases listed
    exact regexp kind
  · rintro _ after ⟨passed, -⟩
    exact token_gives (lexed.trans passed.toLexed)
      (Nat.lt_of_le_of_lt passed.remaining less) (by simp [TokenKind.names])
      (by simp [TokenKind.Plain]) _

theorem percentLiteral_ends (begun : Begun base state) (start : Nat) :
    Ends (percentLiteral start) state fun result after => Gives base result after := by
  refine Ends.get_bind (Ends.when (Begun base) (fun letter => begun.advance ?_)
    (fun _ => begun) fun lettered begun => ?_)
  · refine length_pos_of_headD rfl fun zero => ?_
    unfold Input.peekByte at letter
    rw [zero] at letter
    exact absurd letter (by decide)
  · refine (hasMore_ends begun.lexing).bind ?_
    rintro found reached ⟨lexed, -, -, -, result⟩
    cases found with
    | false => exact Ends.bind (ends_fail lexed.lexing.map) fun _ _ impossible => False.elim impossible
    | true =>
        obtain ⟨inside, stays, -⟩ := result
        have ready : Begun base reached :=
          ⟨begun.toLexed.trans lexed, Nat.lt_of_le_of_lt lexed.remaining begun.less, inside⟩
        refine Ends.get_bind ((ready.advance (stays begun.inside)).bind fun _ moved begun => ?_)
        refine Ends.position_bind (Ends.when (Begun base) (fun _ => begun.report _ _)
          (fun _ => begun) fun warned begun => ?_)
        refine Ends.when (Begun base) (fun _ => begun.report _ _) (fun _ => begun)
          fun warned begun => ?_
        exact openLiteral_ends begun.toLexed begun.less _ fun _ => begun.inside

theorem characterLiteral?_ends (begun : Begun base state) (mode : Mode) (start : Nat) :
    Ends (characterLiteral? mode start) state fun result after =>
      match result with
      | some token => Gives base token after
      | none => after = state := by
  refine Ends.get_bind ?_
  dsimp only
  split
  · exact ends_pure rfl
  · next byte after rest =>
      refine Ends.ite (fun _ => ends_pure rfl) fun _ => ?_
      have finish {bytes : Bytes} {reached : State} (begun : Begun base reached) :
          Ends (do
              setMode .operandEnd
              let token ← token (.character bytes) start
              pure (some token)) reached
            fun result after =>
              match result with
              | some token => Gives base token after
              | none => after = state := by
        refine (begun.setMode _).bind fun _ moded begun => ?_
        refine (begun.token (by simp [TokenKind.names]) (by simp [TokenKind.Plain]) _).bind ?_
        exact fun _ _ gives => ends_pure gives
      refine Ends.ite (fun _ => ?_) fun _ => ?_
      · have length := EscapeReading.read_length_le after
        refine (begun.advance ?_).bind fun _ moved begun => ?_
        · rw [rest, List.length_cons]
          omega
        · refine (escapeRemarks_ends begun.lexing.toReads _ _).bind fun _ reported silent => ?_
          exact finish (begun.silent silent)
      · have length := List.length_take_le' (Utf8.announcedLength byte) state.input.rest
        have size := begun.lexing.input.size
        have inside := begun.inside
        refine Ends.checkRange_bind (Nat.le_add_right _ _) (by omega) ?_
        refine (begun.advance length).bind fun _ moved begun => ?_
        exact finish begun

theorem symbolName?_ends (begun : Begun base state) :
    Ends symbolName? state fun result after =>
      match result with
      | some symbol => Begun base after ∧ after.symbols.Knows symbol
      | none => after = state := by
  refine Ends.get_bind (Ends.checkRange_bind (Nat.le_refl _) begun.inside ?_)
  split
  · exact ends_pure rfl
  · next length read =>
      refine Ends.ite (fun _ => ends_pure rfl) fun _ => ?_
      have enough := symbolLength?_le read
      refine (advance_ends begun.lexing enough).bind fun _ moved step => ?_
      have begun := begun.passed step enough
      refine (internFrom_ends begun.lexing.toReads _ (by rw [step.position]; omega)
        begun.inside).bind ?_
      rintro symbol interned ⟨silent, known⟩
      exact ends_pure ⟨begun.silent silent, known⟩

end Scan

end RubySyntax
