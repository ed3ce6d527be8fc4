/-
Tokens that start with a mark.
-/

import RubySyntax.Proofs.Lexer.Heredoc

namespace RubySyntax

namespace Scan

variable {base state : State}

theorem operatorToken_ends {length : Nat} {reached : State} (positive : 0 < length)
    (passed : Passed state length reached) (reading : OperatorReading) :
    Ends (do
        setMode reading.mode
        match reading.kind with
        | .mark mark => token (.punct mark) state.input.position
        | .assign mark =>
            token (.operatorAssign (← intern (ascii mark.spelling))) state.input.position
        | .method name =>
            token (.methodName (← intern (ascii name))) state.input.position) reached
      fun result after => Passed state length after ∧ Gives state result after := by
  refine (setMode_ends passed.lexing _).bind fun _ moded set => ?_
  have passed := passed.trans set
  have named {kind : Symbol → TokenKind} {name : Bytes}
      (names : ∀ symbol, (kind symbol).names = [symbol])
      (plain : ∀ symbol, (kind symbol).Plain) :
      Ends (do
          let symbol ← intern name
          token (kind symbol) state.input.position) moded
        fun result after => Passed state length after ∧ Gives state result after := by
    refine (intern_ends name).bind ?_
    rintro symbol interned ⟨silent, known⟩
    have passed := passed.silent silent
    refine (token_ends _ _).mono ?_
    rintro result after ⟨kind, rfl⟩
    refine ⟨passed, passed.toLexed, ?_, .inr (passed.less positive), ?_⟩
    · rw [kind, names]
      exact fun other member => by rwa [List.mem_singleton.mp member]
    · rw [kind]
      exact plain symbol
  split
  · refine (token_ends _ _).mono ?_
    rintro result after ⟨kind, rfl⟩
    refine ⟨passed, passed.toLexed, ?_, .inr (passed.less positive), ?_⟩
    · rw [kind]
      simp [TokenKind.names]
    · rw [kind]
      simp [TokenKind.Plain]
  · exact named (fun _ => rfl) fun _ => by simp [TokenKind.Plain]
  · exact named (fun _ => rfl) fun _ => by simp [TokenKind.Plain]

theorem operator_ends (lexing : state.Lexing) {reading : OperatorReading}
    (fits : reading.Fits (state.input.rest.drop 1)) (some : 0 < state.input.rest.length) :
    Ends (operator reading) state fun result after =>
      Passed state reading.length after ∧ Gives state result after := by
  obtain ⟨positive, enough⟩ := fits
  rw [List.length_drop] at enough
  refine Ends.position_bind ((advance_ends lexing (by omega)).bind fun _ moved step => ?_)
  cases reading.warning with
  | none => exact operatorToken_ends positive step reading
  | some warning =>
      exact (report_ends step.lexing.toReads _ _).bind fun _ _ silent =>
        operatorToken_ends positive (step.silent silent) reading

theorem operator_gives (lexing : state.Lexing) {reading : OperatorReading}
    (fits : reading.Fits (state.input.rest.drop 1)) (some : 0 < state.input.rest.length) :
    Ends (operator reading) state fun result after => Gives state result after :=
  (operator_ends lexing fits some).mono fun _ _ ends => ends.2

theorem number_ends (lexed : Lexed base state) {start : Nat} {reading : NumberReading}
    (less : state.remaining < base.remaining + 2 * reading.length)
    (enough : reading.length ≤ state.input.rest.length)
    (first : start < state.input.bytes.size)
    (inside : state.input.position ≤ state.input.bytes.size)
    (value : (∃ number, reading.value = .integer number) ∨
      ∃ number, reading.value = .float number) :
    Ends (number start reading) state fun result after => Gives base result after := by
  refine Ends.position_bind (Ends.checkByte_bind first ?_)
  refine (advance_ends lexed.lexing enough).bind fun _ moved step => ?_
  have size := lexed.lexing.input.size
  refine Ends.position_bind (Ends.checkRange_bind (by rw [step.position]; omega)
    (by rw [step.position, step.bytes]; omega) ?_)
  refine (forM_silent _ _ (fun item current reads => ?_) step.lexing.toReads).bind ?_
  · obtain ⟨offset, problem⟩ := item
    cases offset with
    | some offset => exact report_ends reads _ _
    | none => exact report_ends reads _ _
  · intro _ reported silent
    have passed := step.silent silent
    refine (setMode_ends passed.lexing _).bind fun _ moded set => ?_
    have whole := passed.trans set
    have shorter := whole.shorter
    refine token_gives (lexed.trans whole.toLexed) (by omega) ?_ ?_ _
    · rcases value with ⟨number, value⟩ | ⟨number, value⟩ <;> simp [value, TokenKind.names]
    · rcases value with ⟨number, value⟩ | ⟨number, value⟩ <;> simp [value, TokenKind.Plain]

theorem plusMark_ends (lexing : state.Lexing) {mode : Mode} {blank : Bool}
    (some : 0 < state.input.rest.length) :
    Ends (plusMark (OperatorReading.plus mode blank (state.input.rest.drop 1))) state
      fun result after => Gives state result after := by
  have fits : (OperatorReading.plus mode blank (state.input.rest.drop 1)).Fits
      (state.input.rest.drop 1) := OperatorReading.sign_fits rfl
  refine Ends.get_bind (Ends.ite (fun signed => ?_) fun _ => operator_gives lexing fits some)
  rw [Bool.and_eq_true, beq_iff_eq] at signed
  have one := OperatorReading.plus_length signed.1
  refine (operator_ends lexing fits some).bind ?_
  rintro _ moved ⟨passed, -⟩
  rw [one] at passed
  have rest := passed.rest lexing
  refine number_ends passed.toLexed ?_ ?_ ?_ ?_ (NumberReading.ofDigits_value _)
  · have less := passed.less Nat.one_pos
    omega
  · rw [rest]
    exact NumberReading.ofDigits_length_le _
  · rw [passed.bytes]
    exact lexing.input.inside some some
  · exact passed.inside lexing some some

theorem dotMark_ends (lexing : state.Lexing) {reading : OperatorReading}
    (fits : reading.Fits (state.input.rest.drop 1)) (some : 0 < state.input.rest.length) :
    Ends (dotMark reading) state fun result after => Gives state result after := by
  refine Ends.get_bind (Ends.ite (fun digit => ?_) fun _ => operator_gives lexing fits some)
  refine (advance_ends lexing some).bind fun _ moved passed => ?_
  have rest := passed.rest lexing
  refine (number_ends passed.toLexed ?_ ?_ ?_ ?_ (.inr ⟨_, rfl⟩)).bind ?_
  · have less := passed.less Nat.one_pos
    omega
  · rw [rest]
    exact NumberReading.ofFraction_length_le _
  · rw [passed.bytes]
    exact lexing.input.inside some some
  · exact passed.inside lexing some some
  · intro result read gives
    refine (report_ends gives.lexing.toReads _ _).bind fun _ _ silent => ?_
    exact ends_pure (gives.silent silent)

theorem lessMark_ends (lexing : state.Lexing) (before : Surroundings)
    {reading : OperatorReading} (fits : reading.Fits (state.input.rest.drop 1))
    (some : 0 < state.input.rest.length) :
    Ends (lessMark before reading) state fun result after => Gives state result after := by
  refine Ends.get_bind (Ends.choose none (fun opener after =>
    opener.elim (Silent state after) (Gives state · after)) (fun opens => ?_)
    (fun _ => Silent.refl state) ?_)
  · rw [Bool.and_eq_true, beq_iff_eq] at opens
    refine (heredocOpener?_ends lexing (Input.length_of_peekAt opens.1 (by decide))).mono ?_
    rintro (_ | token) _ opened <;> exact opened
  · intro opener reached opened
    cases opener with
    | some token => exact ends_pure opened
    | none =>
        have lexed : Lexed state reached := Silent.lexed opened lexing
        have operate {after : State} (passed : Passed reached 0 after) :
            Ends (operator reading) after fun result after => Gives state result after := by
          have rest := passed.rest lexed.lexing
          rw [List.drop_zero, opened.input] at rest
          refine (operator_gives passed.lexing (by rwa [rest]) (by rwa [rest])).mono
            fun _ _ gives => Gives.after (lexed.trans passed.toLexed) gives
        refine Ends.ite (fun _ => ?_) fun _ =>
          operate (Passed.of_silent (Silent.refl reached) lexed.lexing)
        exact (setFlags_ends lexed.lexing rfl rfl rfl rfl rfl).bind fun _ _ set => operate set

theorem minusMark_ends (lexing : state.Lexing) {reading : OperatorReading}
    (fits : reading.Fits (state.input.rest.drop 1)) (some : 0 < state.input.rest.length) :
    Ends (minusMark reading) state fun result after => Gives state result after := by
  refine Ends.ite (fun _ => ?_) fun _ => operator_gives lexing fits some
  refine (setFlags_ends lexing rfl rfl rfl rfl rfl).bind fun _ flagged set => ?_
  have rest := set.rest lexing
  rw [List.drop_zero] at rest
  exact (operator_gives set.lexing (by rwa [rest]) (by rwa [rest])).mono
    fun _ _ gives => Gives.after set.toLexed gives

theorem literalMark_ends (lexing : state.Lexing) (before : Surroundings)
    {reading : OperatorReading} (fits : reading.Fits (state.input.rest.drop 1))
    (some : 0 < state.input.rest.length) {literal : Nat → Scan Token}
    (opens : ∀ reached start, Begun state reached →
      Ends (literal start) reached fun result after => Gives state result after) :
    Ends (literalMark before reading literal) state
      fun result after => Gives state result after := by
  refine Ends.get_bind (Ends.ite (fun _ => ?_) fun _ => Ends.ite (fun _ => ?_) fun _ =>
    operator_gives lexing fits some)
  · refine (begun_ends lexing Nat.one_pos some).bind ?_
    exact fun _ reached begun => opens reached _ begun.1
  · refine (report_ends lexing.toReads _ _).bind fun _ warned silent => ?_
    have still := Passed.of_silent silent lexing
    have enough : 1 ≤ warned.input.rest.length := by
      rw [silent.input]
      exact some
    refine (advance_ends still.lexing enough).bind fun _ reached step => opens reached _ ?_
    exact ⟨still.toLexed.trans step.toLexed, (still.trans step).less (by omega),
      step.inside still.lexing enough enough⟩

theorem colonMark_ends (lexing : state.Lexing) (before : Surroundings)
    {reading : OperatorReading} (fits : reading.Fits (state.input.rest.drop 1))
    (some : 0 < state.input.rest.length) :
    Ends (colonMark before reading) state fun result after => Gives state result after := by
  refine Ends.get_bind (Ends.ite (fun double => ?_) fun _ => Ends.ite (fun _ => ?_) fun _ =>
    Ends.ite (fun quoted => ?_) fun _ => ?_)
  · refine operator_gives lexing ?_ some
    unfold OperatorReading.colonColon
    split
    · exact OperatorReading.fits_two _ rfl (eq_of_beq double) (by decide)
    · exact OperatorReading.fits_two _ rfl (eq_of_beq double) (by decide)
  · exact operator_gives lexing fits some
  · have two : 1 < state.input.rest.length := by
      rw [Bool.or_eq_true, beq_iff_eq, beq_iff_eq] at quoted
      rcases quoted with double | single
      · exact length_of_char_drop double (by decide)
      · exact length_of_char_drop single (by decide)
    refine (begun_ends lexing (by omega) two).bind fun _ reached begun => ?_
    exact openLiteral_ends begun.1.toLexed begun.1.less _ fun _ => begun.1.inside
  · refine (begun_ends lexing Nat.one_pos some).bind ?_
    rintro _ reached ⟨begun, -⟩
    refine (symbolName?_ends begun).bind fun symbol named result => ?_
    cases symbol with
    | some symbol =>
        obtain ⟨begun, known⟩ := result
        refine (setMode_ends begun.lexing _).bind fun _ moded set => ?_
        have begun := begun.passed set (Nat.zero_le _)
        refine begun.token ?_ (by simp [TokenKind.Plain]) _
        intro name member
        rw [List.mem_singleton.mp member]
        exact Nat.lt_of_lt_of_le known set.names
    | none =>
        subst result
        refine (begun.setMode _).bind fun _ moded begun => ?_
        exact begun.token (by simp [TokenKind.names]) (by simp [TokenKind.Plain]) _

theorem questionMark_ends (lexing : state.Lexing) (before : Surroundings)
    (some : 0 < state.input.rest.length) :
    Ends (questionMark before) state fun result after => Gives state result after := by
  refine Ends.position_bind ((begun_ends lexing Nat.one_pos some).bind ?_)
  rintro _ reached ⟨begun, -⟩
  refine (characterLiteral?_ends begun _ _).bind fun literal read result => ?_
  cases literal with
  | some token => exact ends_pure result
  | none =>
      subst result
      refine (begun.setMode _).bind fun _ moded begun => ?_
      exact begun.token (by simp [TokenKind.names]) (by simp [TokenKind.Plain]) _

theorem quoteMark_ends (lexing : state.Lexing) (before : Surroundings) (interpolates : Bool)
    (some : 0 < state.input.rest.length) :
    Ends (quoteMark before interpolates) state
      fun result after => Gives state result after := by
  refine Ends.get_bind ((begun_ends lexing Nat.one_pos some).bind ?_)
  rintro _ reached ⟨begun, -⟩
  exact openLiteral_ends begun.toLexed begun.less _ fun _ => begun.inside

theorem backquoteMark_ends (lexing : state.Lexing) (before : Surroundings)
    (some : 0 < state.input.rest.length) :
    Ends (backquoteMark before) state fun result after => Gives state result after := by
  refine Ends.position_bind ((begun_ends lexing Nat.one_pos some).bind ?_)
  rintro _ reached ⟨begun, -⟩
  refine Ends.ite (fun _ => ?_) fun _ => ?_
  · refine (begun.setMode _).bind fun _ moded begun => ?_
    refine (intern_ends _).bind ?_
    rintro symbol interned ⟨silent, known⟩
    refine (begun.silent silent).token ?_ (by simp [TokenKind.Plain]) _
    exact fun name member => by rwa [List.mem_singleton.mp member]
  · exact openLiteral_ends begun.toLexed begun.less _ fun _ => begun.inside

theorem openBracket_ends (lexing : state.Lexing) (mark : Punct)
    (some : 0 < state.input.rest.length) :
    Ends (openBracket mark) state fun result after => Gives state result after := by
  refine Ends.position_bind ((begun_ends lexing Nat.one_pos some).bind ?_)
  rintro _ reached ⟨begun, -⟩
  refine (setFlags_ends begun.lexing rfl rfl rfl rfl rfl).bind fun _ flagged set => ?_
  exact (begun.passed set (Nat.zero_le _)).token (by simp [TokenKind.names])
    (by simp [TokenKind.Plain]) _

theorem closeBracket_ends (lexing : state.Lexing) (mark : Punct) (mode : Mode)
    (some : 0 < state.input.rest.length) :
    Ends (closeBracket mark mode) state fun result after => Gives state result after := by
  refine Ends.position_bind ((begun_ends lexing Nat.one_pos some).bind ?_)
  rintro _ reached ⟨begun, -⟩
  refine (setFlags_ends begun.lexing rfl rfl rfl rfl rfl).bind fun _ flagged set => ?_
  exact (begun.passed set (Nat.zero_le _)).token (by simp [TokenKind.names])
    (by simp [TokenKind.Plain]) _

theorem parenMark_ends (lexing : state.Lexing) (before : Surroundings)
    (some : 0 < state.input.rest.length) :
    Ends (parenMark before) state fun result after => Gives state result after := by
  refine Ends.position_bind (Ends.ite (fun _ => openBracket_ends lexing _ some) fun _ =>
    Ends.ite (fun _ => openBracket_ends lexing _ some) fun _ =>
      Ends.ite (fun _ => openBracket_ends lexing _ some) fun _ => ?_)
  refine Ends.when (Silent state) (fun _ => report_ends lexing.toReads _ _)
    (fun _ => Silent.refl state) fun reached silent => ?_
  have lexed := silent.lexed lexing
  refine (openBracket_ends lexed.lexing _ ?_).mono fun _ _ gives => Gives.after lexed gives
  rw [silent.input]
  exact some

theorem squareMark_ends (lexing : state.Lexing) (before : Surroundings)
    (some : 0 < state.input.rest.length) :
    Ends (squareMark before) state fun result after => Gives state result after := by
  refine Ends.get_bind (Ends.ite (fun _ => Ends.ite (fun pair => ?_) fun _ => ?_) fun _ =>
    Ends.ite (fun _ => openBracket_ends lexing _ some) fun _ => openBracket_ends lexing _ some)
  · have two := Input.length_of_peekAt (eq_of_beq pair) (by decide)
    refine operator_gives lexing ?_ some
    unfold OperatorReading.Fits OperatorReading.plain
    rw [List.length_drop]
    dsimp only
    split
    · next write =>
        have three := Input.length_of_peekAt (eq_of_beq write) (by decide)
        omega
    · omega
  · refine (openBracket_ends lexing _ some).bind fun result opened gives => ?_
    refine (setMode_ends gives.lexing _).bind fun _ moded set => ends_pure ?_
    exact
      { toLexed := gives.toLexed.trans set.toLexed
        known := fun name member =>
          Nat.lt_of_lt_of_le (gives.known name member) set.names
        progress := gives.progress.imp_right fun less =>
          Nat.lt_of_le_of_lt set.remaining less
        plain := gives.plain }

theorem braceMark_ends (lexing : state.Lexing) (before : Surroundings)
    (some : 0 < state.input.rest.length) :
    Ends (braceMark before) state fun result after => Gives state result after := by
  have flagged (mark : Punct) :
      Ends (do
          setLexer fun lexer => { lexer with statementStart := true }
          openBracket mark) state fun result after => Gives state result after := by
    refine (setFlags_ends lexing rfl rfl rfl rfl rfl).bind fun _ reached set => ?_
    refine (openBracket_ends set.lexing _ ?_).mono fun _ _ gives =>
      Gives.after set.toLexed gives
    rw [set.rest lexing]
    exact some
  exact Ends.ite (fun _ => flagged _) fun _ => Ends.ite (fun _ => flagged _) fun _ =>
    openBracket_ends lexing _ some

theorem closeBrace_ends (lexing : state.Lexing) (some : 0 < state.input.rest.length) :
    Ends closeBrace state fun result after => Gives state result after := by
  refine Ends.get_bind (Ends.ite (fun _ => ?_) fun _ => closeBracket_ends lexing _ _ some)
  refine (begun_ends lexing Nat.one_pos some).bind ?_
  rintro _ reached ⟨begun, -⟩
  refine (leaveInterpolation_ends begun.lexing begun.inside).bind fun _ left step => ?_
  exact (begun.passed step (Nat.zero_le _)).token (by simp [TokenKind.names])
    (by simp [TokenKind.Plain]) _

theorem semicolonMark_ends (lexing : state.Lexing) (some : 0 < state.input.rest.length) :
    Ends semicolonMark state fun result after => Gives state result after := by
  refine Ends.position_bind ((begun_ends lexing Nat.one_pos some).bind ?_)
  rintro _ reached ⟨begun, -⟩
  refine (setFlags_ends begun.lexing rfl rfl rfl rfl rfl).bind fun _ flagged set => ?_
  exact (begun.passed set (Nat.zero_le _)).token (by simp [TokenKind.names])
    (by simp [TokenKind.Plain]) _

theorem operatorMark_ends (lexing : state.Lexing) (before : Surroundings) {first : Char}
    {reading : OperatorReading}
    (read : OperatorReading.of? before first (state.input.rest.drop 1) = some reading)
    (some : 0 < state.input.rest.length) :
    Ends (operatorMark before first reading) state
      fun result after => Gives state result after := by
  have fits := OperatorReading.of?_fits read
  unfold operatorMark
  split
  · cases Option.some.inj read
    exact plusMark_ends lexing some
  · exact minusMark_ends lexing fits some
  · exact dotMark_ends lexing fits some
  · exact lessMark_ends lexing before fits some
  · refine literalMark_ends lexing before fits some fun reached start begun => ?_
    exact openLiteral_ends begun.toLexed begun.less _ fun _ => begun.inside
  · exact literalMark_ends lexing before fits some fun _ start begun =>
      percentLiteral_ends begun start
  · exact colonMark_ends lexing before fits some
  · exact questionMark_ends lexing before some
  · exact operator_gives lexing fits some

theorem mark?_ends (lexing : state.Lexing) (before : Surroundings)
    (filled : 0 < state.input.rest.length) :
    Ends (mark? before) state fun result after =>
      match result with
      | some token => Gives state token after
      | none => after = state := by
  have give {step : Scan Token}
      (ends : Ends step state fun result after => Gives state result after) :
      Ends (do
          let token ← step
          pure (some token)) state fun result after =>
        match result with
        | some token => Gives state token after
        | none => after = state :=
    ends.bind fun _ _ gives => ends_pure gives
  refine Ends.get_bind ?_
  dsimp only
  split
  · next reading read => exact give (operatorMark_ends lexing before read filled)
  · split
    · exact give (quoteMark_ends lexing before true filled)
    · exact give (quoteMark_ends lexing before false filled)
    · exact give (parenMark_ends lexing before filled)
    · exact give (squareMark_ends lexing before filled)
    · exact give (braceMark_ends lexing before filled)
    · exact give (closeBracket_ends lexing _ _ filled)
    · exact give (closeBracket_ends lexing _ _ filled)
    · exact give (closeBrace_ends lexing filled)
    · exact give (semicolonMark_ends lexing filled)
    · exact give ((globalVariable_ends lexing filled).mono fun _ _ ends => ends.1)
    · exact give ((atVariable_ends lexing filled).mono fun _ _ ends => ends.1)
    · exact Ends.ite (fun _ => give (backquoteMark_ends lexing before filled))
        fun _ => ends_pure rfl

end Scan

end RubySyntax
