/-
Names and variables: each reading gives a token, and moves on.
-/

import RubySyntax.Proofs.Lexer.Length
import RubySyntax.Proofs.Lexer.Step

namespace RubySyntax

namespace Scan

variable {base state : State} {distance : Nat}

theorem keyword_ends (passed : Passed base distance state) (some : 0 < distance)
    (word : Keyword) (mode : Mode) (start : Nat) :
    Ends (keyword word mode start) state fun result after => Gives base result after := by
  have done {kind : Keyword} {reached : State} (passed : Passed base distance reached) :
      Ends (token (.keyword kind) start) reached fun result after =>
        Gives base result after :=
    token_gives passed.toLexed (passed.less some) (by simp [TokenKind.names]) (by simp [TokenKind.Plain]) start
  refine Ends.ite (fun _ => ?_) fun _ => ?_
  · exact (setMode_ends passed.lexing _).bind fun _ _ set => done (passed.trans set)
  · refine (setMode_ends passed.lexing _).bind fun _ moded set => ?_
    have first := passed.trans set
    refine Ends.when (Passed base distance) (fun _ => ?_) (fun _ => first) ?_
    · exact (setFlags_ends first.lexing rfl rfl rfl rfl rfl).mono fun _ _ set => first.trans set
    · intro reached passed
      refine Ends.ite (fun _ => Ends.get_bind (done passed)) fun _ => ?_
      refine Ends.ite (fun _ => ?_) fun _ => done passed
      refine Ends.when (Passed base distance) (fun _ => ?_) (fun _ => passed) fun _ => done
      exact (setMode_ends passed.lexing _).mono fun _ _ set => passed.trans set

theorem plainName_ends (passed : Passed base distance state) (some : 0 < distance)
    (mode : Mode) (statementStart marked : Bool) (first : Byte) {start : Nat}
    (ordered : start ≤ state.input.position)
    (inside : state.input.position ≤ state.input.bytes.size) :
    Ends (plainName mode statementStart marked first start) state fun result after =>
      Gives base result after := by
  refine (internFrom_ends passed.lexing.toReads _ ordered inside).bind ?_
  rintro symbol interned ⟨silent, known⟩
  have read := passed.silent silent
  refine Ends.get_bind ((setMode_ends read.lexing _).bind fun _ moded set => ?_)
  have symbolKnown : moded.symbols.Knows symbol := Nat.lt_of_lt_of_le known set.names
  refine token_gives (read.trans set).toLexed ((read.trans set).less some) ?_ ?_ start
  · intro name member
    split at member
    · rwa [List.mem_singleton.mp member]
    · split at member
      · rwa [List.mem_singleton.mp member]
      · rwa [List.mem_singleton.mp member]
  · split
    · exact ⟨nofun, nofun⟩
    · split <;> exact ⟨nofun, nofun⟩

/-- The word that ends the program takes all that has been received. -/
theorem endLine_gives (passed : Passed base distance state) (span : Span) :
    Gives base ⟨.endOfInput, span⟩
      { state with
        input := state.input.advance state.input.rest.length
        lexer := { state.lexer with ended := true } } where
  toLexed :=
    have moved := passed.lexing.advance (Nat.le_refl _)
    (passed.toLexed.trans moved).trans
      (moved.lexing.setFlags rfl rfl rfl rfl rfl)
  known := by simp [TokenKind.names]
  progress := .inl rfl
  plain := ⟨nofun, nofun⟩

theorem name_ends (lexing : state.Lexing) (statementStart : Bool)
    (starts : (state.input.rest.headD 0).isNameStart = true)
    (valid : ¬(decide (state.input.rest.headD 0 ≥ 0x80) &&
      (Utf8.charLength? state.input.rest).isNone) = true) :
    Ends (name statementStart) state fun result after => Gives state result after := by
  refine Ends.get_bind ?_
  have body := Utf8.nameLength_le state.input.rest
  have some := Utf8.nameLength_pos starts valid
  have suffix := suffixLength_le state.lexer.mode
    (state.input.rest.drop (Utf8.nameLength state.input.rest))
  rw [List.length_drop] at suffix
  dsimp only
  generalize suffixLength _ _ = extra at *
  generalize Utf8.nameLength _ = length at *
  have enough : length + extra ≤ state.input.rest.length := by omega
  have passed := advance_passed lexing enough
  have first : 0 < state.input.rest.length := by omega
  have inside := passed.inside lexing first enough
  have ordered : state.input.position ≤ (state.input.advance (length + extra)).position :=
    Nat.le_add_right _ _
  refine Ends.set_bind (Ends.checkByte_bind ?_ ?_)
  · exact lexing.input.inside first first
  · refine Ends.checkRange_bind ordered inside ?_
    refine Ends.ite (fun label => ?_) fun _ => Ends.ite (fun _ => ?_) fun _ => ?_
    · simp only [Bool.and_eq_true, beq_iff_eq] at label
      have colon := length_pos_of_char label.1.1.2 (by decide)
      refine (internFrom_ends passed.lexing.toReads _ ordered inside).bind ?_
      rintro symbol interned ⟨silent, known⟩
      have read := passed.silent silent
      refine (advance_ends read.lexing (by rw [silent.input]; exact colon)).bind ?_
      intro _ moved step
      refine (setMode_ends step.lexing _).bind fun _ moded set => ?_
      have whole := (read.trans step).trans set
      refine token_gives whole.toLexed (whole.less (by omega)) ?_
        (by simp [TokenKind.Plain]) _
      intro name member
      rw [List.mem_singleton.mp member]
      exact Nat.lt_of_lt_of_le known (Nat.le_trans step.names set.names)
    · exact Ends.modify_bind (ends_pure (endLine_gives passed _))
    · split
      · exact keyword_ends passed (by omega) _ _ _
      · exact plainName_ends passed (by omega) _ _ _ _ ordered inside

/-! ### Variables -/

def IsVariable (kind : TokenKind) : Prop :=
  match kind with
  | .instanceVariable _ | .classVariable _ | .globalVariable _ | .numberedReference _
  | .backReference _ => True
  | _ => False

theorem IsVariable.plain {kind : TokenKind} (isVariable : IsVariable kind) : kind.Plain := by
  constructor <;> (rintro rfl; exact isVariable)

theorem variable_gives (passed : Passed base distance state) (some : 0 < distance)
    {kind : TokenKind} (known : ∀ name ∈ kind.names, state.symbols.Knows name)
    (isVariable : IsVariable kind) (start : Nat) :
    Ends (token kind start) state fun result after =>
      Gives base result after ∧ IsVariable result.kind := by
  refine (token_ends kind start).mono ?_
  rintro result after ⟨same, rfl⟩
  have shorter := passed.shorter
  rw [← same] at known isVariable
  exact ⟨⟨passed.toLexed, known, .inr (by omega), isVariable.plain⟩, isVariable⟩

theorem referenceNumber_ends (reads : state.Reads) (start : Nat) (digits : Bytes) :
    Ends (referenceNumber start digits) state fun _ after => Silent state after := by
  refine Ends.ite (fun _ => ends_pure (Silent.refl state)) fun _ => ?_
  refine Ends.position_bind ?_
  exact (report_ends reads _ _).bind fun _ _ silent => ends_pure silent

theorem globalVariable_ends (lexing : state.Lexing) (some : 0 < state.input.rest.length) :
    Ends globalVariable state fun result after =>
      Gives state result after ∧ IsVariable result.kind := by
  refine Ends.get_bind ((advance_ends lexing some).bind fun _ marked mark => ?_)
  refine (setMode_ends mark.lexing _).bind fun _ moded set => ?_
  have opened : Passed state 1 moded := mark.trans set
  have rest := opened.rest lexing
  have named {distance : Nat} {reached : State} (passed : Passed moded distance reached)
      (enough : distance ≤ moded.input.rest.length) :
      Ends (do
          let name ← internFrom state.input.position .identifier
          token (.globalVariable name) state.input.position) reached
        fun result after => Gives state result after ∧ IsVariable result.kind := by
    have whole := opened.trans passed
    rw [rest, List.length_drop] at enough
    have inside := whole.inside lexing some (by omega)
    refine (internFrom_ends whole.lexing.toReads _ ?_ inside).bind ?_
    · rw [whole.position]
      omega
    · rintro symbol interned ⟨silent, known⟩
      refine variable_gives (whole.silent silent) (by omega) ?_ (by trivial) _
      intro name member
      rwa [List.mem_singleton.mp member]
  refine Ends.ite (fun reference => ?_) fun _ => Ends.ite (fun _ => ?_) fun _ => ?_
  · have next : 1 ≤ moded.input.rest.length := by
      rw [rest]
      refine length_pos_of_headD rfl fun zero => ?_
      rw [zero] at reference
      exact absurd reference (by decide)
    refine (advance_ends opened.lexing next).bind fun _ moved step => ?_
    refine Ends.ite (fun _ => ?_) fun _ => named step next
    exact variable_gives (opened.trans step) (by omega) (by simp [TokenKind.names])
      (by trivial) _
  · have digits : ((state.input.rest.drop 1).takeWhile Byte.isDigit).length ≤
        moded.input.rest.length := by
      rw [rest]
      exact length_takeWhile_le _ _
    refine (advance_ends opened.lexing digits).bind fun _ moved step => ?_
    refine Ends.ite (fun _ => ?_) fun _ => named step digits
    have whole := opened.trans step
    have inside := whole.inside lexing some (by
      rw [rest, List.length_drop] at digits
      omega)
    refine Ends.position_bind ?_
    refine Ends.checkRange_bind (by rw [whole.position]; omega) inside ?_
    refine (referenceNumber_ends whole.lexing.toReads _ _).bind fun number reached silent => ?_
    exact variable_gives (whole.silent silent) (by omega) (by simp [TokenKind.names])
      (by trivial) _
  · have length : globalLength (state.input.rest.drop 1) ≤ moded.input.rest.length := by
      rw [rest]
      exact globalLength_le _
    refine Ends.when (Silent moded)
      (fun _ => report_ends opened.lexing.toReads _ _) (fun _ => Silent.refl moded) ?_
    intro reached silent
    have still := Passed.of_silent silent opened.lexing
    refine (advance_ends still.lexing (by rw [silent.input]; exact length)).bind ?_
    exact fun _ moved step => named (still.trans step) (by omega)

/-- After the reports the name of a variable is read in any case. -/
theorem atVariableName_ends (lexing : state.Lexing) (some : 0 < state.input.rest.length)
    {distance : Nat} {reached : State} (passed : Passed state distance reached)
    (positive : 0 < distance) (enough : distance ≤ state.input.rest.length)
    (kind : AtVariable) :
    Ends (do
        let state' ← get
        advance (Utf8.nameLength state'.input.rest)
        setMode .operandEnd
        let symbol ← internFrom state.input.position .identifier
        token
          (match kind with
           | .ofClass => .classVariable symbol
           | .ofInstance => .instanceVariable symbol)
          state.input.position) reached
      fun result after => Gives state result after ∧ IsVariable result.kind := by
  have length := Utf8.nameLength_le reached.input.rest
  refine Ends.get_bind ((advance_ends passed.lexing length).bind fun _ moved step => ?_)
  refine (setMode_ends step.lexing _).bind fun _ moded set => ?_
  have whole := (passed.trans step).trans set
  rw [passed.rest lexing, List.length_drop] at length
  have ordered : state.input.position ≤ moded.input.position := by
    rw [whole.position]
    omega
  have inRange := whole.inside lexing some (by rw [passed.rest lexing]; omega)
  refine (internFrom_ends whole.lexing.toReads _ ordered inRange).bind ?_
  rintro symbol interned ⟨silent, known⟩
  refine variable_gives (whole.silent silent) (by omega) ?_ ?_ _
  · cases kind <;> exact fun name member => by rwa [List.mem_singleton.mp member]
  · cases kind <;> trivial

theorem atVariable_ends (lexing : state.Lexing) (some : 0 < state.input.rest.length) :
    Ends atVariable state fun result after =>
      Gives state result after ∧ IsVariable result.kind := by
  refine Ends.get_bind ?_
  dsimp only
  generalize chosen : (if state.input.peekAt 1 == '@' then AtVariable.ofClass
    else .ofInstance) = kind
  have marks : (if kind = .ofClass then 2 else 1) ≤ state.input.rest.length := by
    split
    · next twice =>
        split at chosen
        · next second => exact Input.length_of_peekAt (eq_of_beq second) (by decide)
        · rw [← chosen] at twice
          cases twice
    · exact some
  refine (advance_ends lexing marks).bind fun _ marked opened => Ends.get_bind ?_
  have positive : 0 < (if kind = .ofClass then 2 else 1) := by split <;> decide
  clear chosen
  generalize (if kind = .ofClass then 2 else 1) = mark at *
  have rest := opened.rest lexing
  have inside {distance : Nat} {reached : State} (passed : Passed marked distance reached)
      (enough : distance ≤ marked.input.rest.length) :
      state.input.position ≤ reached.input.position ∧
        reached.input.position ≤ reached.input.bytes.size := by
    have whole := opened.trans passed
    rw [rest, List.length_drop] at enough
    refine ⟨?_, whole.inside lexing some (by omega)⟩
    rw [whole.position]
    omega
  have named {distance : Nat} {reached : State} (passed : Passed marked distance reached)
      (enough : distance ≤ marked.input.rest.length) :=
    atVariableName_ends lexing some (opened.trans passed) (by omega)
      (by rw [rest, List.length_drop] at enough; omega) kind
  have reported {distance : Nat} {reached : State} (passed : Passed marked distance reached)
      (enough : distance ≤ marked.input.rest.length) (problem : Bytes → Problem)
      {next : Unit → Scan Token} {post : Token → State → Prop}
      (follow : ∀ after, Passed marked distance after → Ends (next ()) after post) :
      Ends (do
          let stop ← position
          checkRange state.input.position stop
          let state' ← get
          let done ← report ⟨state.input.position, stop⟩
            (problem (state'.input.slice ⟨state.input.position, stop⟩))
          next done) reached post := by
    obtain ⟨ordered, inRange⟩ := inside passed enough
    refine Ends.position_bind ?_
    refine Ends.checkRange_bind ordered inRange ?_
    refine Ends.get_bind ((report_ends passed.lexing.toReads _ _).bind ?_)
    exact fun _ after silent => follow after (passed.silent silent)
  refine Ends.ite (fun _ => ?_) fun _ => Ends.ite (fun _ => ?_) fun _ => ?_
  · have digits := length_takeWhile_le Byte.isDigit marked.input.rest
    refine (advance_ends opened.lexing digits).bind fun _ moved step => ?_
    exact reported step digits (.digitVariable · kind) fun _ passed => named passed digits
  · have still := Passed.of_silent (Silent.refl marked) opened.lexing
    exact reported still (Nat.zero_le _) (.bareVariable · kind) fun _ passed =>
      named passed (Nat.zero_le _)
  · have still := Passed.of_silent (Silent.refl marked) opened.lexing
    exact named still (Nat.zero_le _)

end Scan

end RubySyntax
