/-
The position stays inside the input.

Past the end of the input the byte 0 is read, which may be the delimiter of a literal. After a
backslash a delimiter is taken without a look at how many bytes there are, so there the position
can leave the input. All other steps that move on have seen a byte that is not 0, count bytes
that are there, or have been told that there is more.
-/

import RubySyntax.Proofs.Lexer.Finds

namespace RubySyntax

variable {α β σ : Type}

/-! ### Inside the input -/

structure Quotation.Marked (literal : Quotation) : Prop where
  closing : literal.closing ≠ 0
  opening : literal.opening ≠ some 0

theorem Quotation.Marked.single {literal : Quotation} (closing : literal.closing ≠ 0)
    (opening : literal.opening = none) : literal.Marked where
  closing := closing
  opening := by
    rw [opening]
    exact (Option.some_ne_none 0).symm

theorem Quotation.Marked.nest {literal : Quotation} (marked : literal.Marked) (byte : Byte) :
    (literal.nest byte).Marked := by
  unfold Quotation.nest
  split
  · exact marked
  · split
    · exact ⟨marked.closing, marked.opening⟩
    · split
      · exact ⟨marked.closing, marked.opening⟩
      · exact marked

structure Input.Inside (input : Input) : Prop where
  rest : input.rest = input.bytes.toList.drop input.position
  position : input.position ≤ input.bytes.size

namespace Input.Inside

variable {input : Input}

theorem sound (inside : input.Inside) : input.Sound :=
  ⟨inside.rest, Nat.le_succ_of_le inside.position⟩

theorem size (inside : input.Inside) : input.position + input.rest.length = input.bytes.size := by
  have size := inside.sound.size
  have position := inside.position
  omega

theorem advance (inside : input.Inside) {distance : Nat}
    (enough : distance ≤ input.rest.length) : (input.advance distance).Inside where
  rest := (inside.sound.advance enough).rest
  position := by
    have size := inside.size
    change input.position + distance ≤ input.bytes.size
    omega

theorem append (inside : input.Inside) (bytes : Bytes) :
    (input.ask.append bytes).Inside ∧ (input.ask.append bytes).rest = input.rest ++ bytes := by
  have rest : (input.ask.append bytes).rest = input.rest ++ bytes := if_pos inside.position
  refine ⟨⟨?_, ?_⟩, rest⟩
  · rw [rest, inside.rest]
    change _ = (input.bytes ++ bytes).toList.drop input.position
    rw [Array.toList_appendList, List.drop_append_of_le_length]
    rw [Array.length_toList]
    exact inside.position
  · have position := inside.position
    change input.position ≤ (input.bytes ++ bytes).size
    rw [← Array.length_toList, Array.toList_appendList, List.length_append, Array.length_toList]
    omega

theorem last (inside : input.Inside)
    (filled : 0 < input.rest.length) :
    (input.advance 1).bytes[(input.advance 1).position - 1]? = some input.peekByte := by
  change input.bytes[input.position + 1 - 1]? = some (input.rest.headD 0)
  rw [Nat.add_sub_cancel, ← Array.getElem?_toList]
  have rest := inside.rest
  cases unread : input.rest with
  | nil =>
      rw [unread] at filled
      exact absurd filled (Nat.lt_irrefl 0)
  | cons byte after =>
      rw [unread] at rest
      rw [← Nat.add_zero input.position, ← List.getElem?_drop, ← rest]
      rfl

end Input.Inside

/-- The position lies inside the input, and can be kept there: no literal is open that takes the
end of the input for its delimiter. -/
structure State.Contained (state : State) : Prop where
  input : state.input.Inside
  marked : ∀ literal ∈ state.lexer.quotations, literal.Marked

structure State.Aligned (state : State) : Prop where
  rest : state.input.rest = state.input.bytes.toList.drop state.input.position
  marked : ∀ literal ∈ state.lexer.quotations, literal.Marked

def Token.OpensAtNul (bytes : Bytes) (token : Token) : Prop :=
  (∃ kind, token.kind = .literalBegin kind) ∧ bytes[token.span.stop - 1]? = some 0

/-- A token ends inside the input, and so does what follows, unless it opens a literal whose
delimiter is the byte as which the end of the input is read. -/
structure Token.Lands (token : Token) (after : State) : Prop where
  input : after.input.Inside
  stop : token.span.stop ≤ after.input.bytes.size
  marked : (∀ literal ∈ after.lexer.quotations, literal.Marked) ∨
    token.OpensAtNul after.input.bytes.toList

namespace State.Contained

variable {state after : State}

theorem aligned (contained : state.Contained) : state.Aligned :=
  ⟨contained.input.rest, contained.marked⟩

theorem lands (contained : state.Contained) {token : Token}
    (stop : token.span.stop ≤ state.input.bytes.size) : token.Lands state :=
  ⟨contained.input, stop, .inl contained.marked⟩

theorem advance (contained : state.Contained) {distance : Nat}
    (enough : distance ≤ state.input.rest.length) :
    State.Contained { state with input := state.input.advance distance } :=
  ⟨contained.input.advance enough, contained.marked⟩

theorem narrow (contained : state.Contained) (input : after.input = state.input)
    (quotations : after.lexer.quotations ⊆ state.lexer.quotations) : after.Contained where
  input := input ▸ contained.input
  marked _ member := contained.marked _ (quotations member)

end State.Contained

namespace Scan

/-! ### Steps that rest where they are -/

class Rests (step : Scan α) : Prop where
  returns : ∀ state, Returns step state fun _ after =>
    after.input = state.input ∧ after.lexer.quotations ⊆ state.lexer.quotations

section

variable {first : Scan α} {next : α → Scan β}

instance (value : α) : Rests (pure value : Scan α) where
  returns _ := returns_pure ⟨rfl, List.Subset.refl _⟩

instance (halt : Halt) : Rests (throw halt : Scan α) where
  returns _ := returns_throw halt

instance : Rests (get : Scan State) where
  returns _ := ⟨fun run => by cases run; exact ⟨rfl, List.Subset.refl _⟩⟩

instance Rests.bind [Rests first] [∀ value, Rests (next value)] : Rests (first >>= next) where
  returns state := (Rests.returns state).bind fun _ reached before =>
    (Rests.returns reached).mono fun _ _ later =>
      ⟨later.1.trans before.1, List.Subset.trans later.2 before.2⟩

instance {condition : Prop} [Decidable condition] {left right : Scan α} [Rests left]
    [Rests right] : Rests (if condition then left else right) := by
  split
  · infer_instance
  · infer_instance

instance {items : List α} {body : α → Scan PUnit} [∀ item, Rests (body item)] :
    Rests (items.forM body) := by
  induction items with
  | nil => exact inferInstanceAs (Rests (pure _))
  | cons item items ih => exact inferInstanceAs (Rests (body item >>= fun _ => items.forM body))

end

instance (f : LexerState → LexerState) [narrows : LexerState.Narrows f] : Rests (setLexer f) where
  returns state := returns_modify ⟨rfl, narrows.quotations state.lexer⟩

instance (mode : Mode) : Rests (setMode mode) := by
  unfold setMode
  infer_instance

instance (name : Bytes) : Rests (intern name) where
  returns _ := ⟨fun run => by cases run; exact ⟨rfl, List.Subset.refl _⟩⟩

instance (holds : Bool) (fault : Fault) : Rests (relyOn holds fault) := by
  unfold relyOn
  infer_instance

instance (span : Span) (problem : Problem) : Rests (report span problem) where
  returns _ := by
    apply Returns.get_bind
    apply Returns.relyOn_bind
    exact returns_modify ⟨rfl, List.Subset.refl _⟩

instance : Rests position := by
  unfold position
  infer_instance

instance : Rests peek := by
  unfold peek
  infer_instance

instance (start stop : Nat) : Rests (checkRange start stop) := by
  unfold checkRange
  infer_instance

instance (position : Nat) : Rests (checkByte position) := by
  unfold checkByte
  infer_instance

instance (error : Fatal) : Rests (fail error : Scan α) := by
  unfold fail
  infer_instance

instance (kind : TokenKind) (start : Nat) : Rests (token kind start) := by
  unfold token
  infer_instance

instance (start : Nat) (what : Truncated) : Rests (internFrom start what) := by
  unfold internFrom
  infer_instance

instance (start : Nat) (digits : Bytes) : Rests (referenceNumber start digits) := by
  unfold referenceNumber
  infer_instance

instance (backslash : Nat) (reading : EscapeReading) :
    Rests (escapeRemarks backslash reading) := by
  unfold escapeRemarks
  infer_instance

theorem Rests.contained {step : Scan α} {state : State} [Rests step]
    (contained : state.Contained) :
    Returns step state fun _ after => after.Contained ∧ after.input = state.input :=
  (Rests.returns state).mono fun _ _ ⟨input, quotations⟩ =>
    ⟨contained.narrow input quotations, input⟩

theorem Rests.returns_bind {first : Scan α} {next : α → Scan β} {state : State}
    {post : β → State → Prop} [Rests first] (contained : state.Contained)
    (follow : ∀ value reached, reached.Contained → reached.input = state.input →
      Returns (next value) reached post) : Returns (first >>= next) state post :=
  (Rests.contained contained).bind fun value reached still =>
    follow value reached still.1 still.2

theorem Returns.advance_bind {distance : Nat} {next : PUnit → Scan α} {state : State}
    {post : α → State → Prop} (contained : state.Contained)
    (enough : distance ≤ state.input.rest.length)
    (follow : ∀ reached, reached.Contained →
      reached.input = state.input.advance distance → Returns (next ⟨⟩) reached post) :
    Returns (advance distance >>= next) state post :=
  .modify_bind (follow _ (contained.advance enough) rfl)

/-! ### Steps that give a token -/

class Lands (step : Scan Token) : Prop where
  returns : ∀ {state : State}, state.Contained →
    Returns step state fun token after => token.Lands after

section

variable {first : Scan α} {next : α → Scan Token}

instance (kind : TokenKind) (start : Nat) : Lands (token kind start) where
  returns contained := ⟨fun run => by cases run; exact contained.lands contained.input.position⟩

instance (halt : Halt) : Lands (throw halt) where
  returns _ := returns_throw halt

instance Lands.bind [Rests first] [∀ value, Lands (next value)] : Lands (first >>= next) where
  returns contained := Rests.returns_bind contained fun _ _ contained _ =>
    Lands.returns contained

instance {condition : Prop} [Decidable condition] {left right : Scan Token} [Lands left]
    [Lands right] : Lands (if condition then left else right) := by
  split
  · infer_instance
  · infer_instance

end

instance (error : Fatal) : Lands (fail error) := by
  unfold fail
  infer_instance

theorem Lands.remarks {items : List α} {body : α → Scan PUnit} {next : PUnit → Scan Token}
    [∀ value, Lands (next value)] (each : ∀ item, Rests (body item)) :
    Lands (items.forM body >>= next) :=
  inferInstance

theorem Lands.returns_after {step : Scan Token} {rest : Token → Scan PUnit} {state : State}
    [∀ token, Rests (rest token)]
    (lands : Returns step state fun token after => token.Lands after) :
    Returns (step >>= fun token => rest token >>= fun _ => pure token) state
      fun token after => token.Lands after :=
  lands.bind fun _ reached landed =>
    (Rests.returns reached).bind fun _ _ still => returns_pure
      { input := still.1 ▸ landed.input
        stop := still.1 ▸ landed.stop
        marked := landed.marked.imp (fun marked _ member => marked _ (still.2 member))
          fun opens => still.1 ▸ opens }

theorem Lands.returns_advance {distance : Nat} {state : State} {next : PUnit → Scan Token}
    [Lands (next ⟨⟩)] (contained : state.Contained) (enough : distance ≤ state.input.rest.length) :
    Returns (advance distance >>= next) state fun token after => token.Lands after :=
  .advance_bind contained enough fun _ contained _ => Lands.returns contained

/-! ### More input -/

theorem fetchMore_contained {state : State} (contained : state.Contained) :
    Returns fetchMore state fun more after =>
      after.Contained ∧ (more = true → 0 < after.input.rest.length) := by
  apply Returns.get_bind
  apply Returns.relyOn_bind
  constructor
  intro _ _ run
  cases run
  dsimp only
  have asked : State.Contained { state with input := state.input.ask } :=
    ⟨⟨contained.input.rest, contained.input.position⟩, contained.marked⟩
  split
  · exact ⟨asked, fun more => absurd more Bool.false_ne_true⟩
  · next chunk answer =>
      split
      · exact ⟨asked, fun more => absurd more Bool.false_ne_true⟩
      · next filled =>
          obtain ⟨inside, rest⟩ := contained.input.append chunk.bytes
          refine ⟨⟨inside, contained.marked⟩, fun _ => ?_⟩
          rw [rest]
          exact List.length_pos_iff.mpr
            (List.append_ne_nil_of_right_ne_nil _ (mt List.isEmpty_iff.mpr filled))

theorem hasMore_contained {state : State} (contained : state.Contained) :
    Returns hasMore state fun more after =>
      after.Contained ∧ (more = true → 0 < after.input.rest.length) := by
  apply Returns.get_bind
  split
  · exact fetchMore_contained contained
  · next unread =>
      refine returns_pure ⟨contained, fun _ => ?_⟩
      exact List.length_pos_iff.mpr (mt List.isEmpty_iff.mpr unread)

/-! ### Names and variables -/

section

variable {state : State}

instance (word : Keyword) (mode : Mode) (start : Nat) : Lands (keyword word mode start) := by
  unfold keyword
  infer_instance

instance (mode : Mode) (statementStart marked : Bool) (first : Byte) (start : Nat) :
    Lands (plainName mode statementStart marked first start) := by
  unfold plainName
  infer_instance

theorem name_lands (contained : state.Contained) (statementStart : Bool) :
    Returns (name statementStart) state fun token after => token.Lands after := by
  have body := Utf8.nameLength_le state.input.rest
  have suffix := suffixLength_le state.lexer.mode
    (state.input.rest.drop (Utf8.nameLength state.input.rest))
  rw [List.length_drop] at suffix
  unfold name
  apply Returns.get_bind
  dsimp only
  generalize suffixLength _ _ = extra at *
  generalize Utf8.nameLength _ = length at *
  have enough : length + extra ≤ state.input.rest.length := by omega
  have moved := contained.advance enough
  apply Returns.set_bind
  unfold checkByte
  apply Returns.checkRange_bind
  apply Returns.checkRange_bind
  split
  · next label =>
      simp only [Bool.and_eq_true, beq_iff_eq] at label
      have colon := length_pos_of_char label.1.1.2 (by decide)
      refine Rests.returns_bind moved fun symbol reached contained same => ?_
      apply Returns.modify_bind
      exact Lands.returns (contained.advance (by rw [same]; exact colon))
  · split
    · next marker =>
        apply Returns.modify_bind
        have ended := moved.advance (Nat.le_refl _)
        refine returns_pure ⟨ended.input, ?_, .inl ended.marked⟩
        rw [Bool.and_eq_true, isEndLine, Bool.and_eq_true, Bool.and_eq_true, beq_iff_eq] at marker
        have seven : Keyword.endMarker.length = 7 := rfl
        rw [← marker.2.1.1, List.length_take] at seven
        have size := contained.input.size
        change state.input.position + 7 ≤ state.input.bytes.size
        omega
    · split
      · exact Lands.returns moved
      · exact Lands.returns moved

end

/-! ### Steps that check where they are -/

class Moves (step : Scan α) : Prop where
  returns : ∀ {state : State}, state.Aligned → Returns step state fun _ after => after.Aligned

/-- A step that gives a token from inside the input wherever it starts, as it checks the bytes up
to the position. -/
class Checks (step : Scan Token) : Prop where
  returns : ∀ {state : State}, state.Aligned →
    Returns step state fun token after => token.Lands after

section

variable {first : Scan α} {next : α → Scan β} {last : α → Scan Token}

instance (step : Scan α) [Rests step] : Moves step where
  returns {state} aligned := (Rests.returns state).mono fun _ _ ⟨input, quotations⟩ =>
    { rest := input ▸ aligned.rest
      marked := fun _ member => aligned.marked _ (quotations member) }

instance (distance : Nat) : Moves (advance distance) where
  returns {state} aligned := by
    refine returns_modify ⟨?_, aligned.marked⟩
    change state.input.rest.drop distance =
      state.input.bytes.toList.drop (state.input.position + distance)
    rw [aligned.rest, List.drop_drop]

instance Moves.bind [Moves first] [∀ value, Moves (next value)] : Moves (first >>= next) where
  returns aligned := (Moves.returns aligned).bind fun _ _ aligned => Moves.returns aligned

instance Checks.bind [Moves first] [∀ value, Checks (last value)] : Checks (first >>= last) where
  returns aligned := (Moves.returns aligned).bind fun _ _ aligned => Checks.returns aligned

instance {condition : Prop} [Decidable condition] {left right : Scan Token} [Checks left]
    [Checks right] : Checks (if condition then left else right) := by
  split
  · infer_instance
  · infer_instance

theorem Checks.andThen [Moves first] (rest : ∀ value, Checks (last value)) :
    Checks (first >>= last) :=
  inferInstance

/-- Bytes that are checked up to the position lie inside the input, and so does the position. -/
theorem checkRange_inside {state : State} (aligned : state.Aligned) {start : Nat}
    {next : Unit → Scan Token} [Lands (next ())] :
    Returns (checkRange start state.input.position >>= next) state
      fun token after => token.Lands after := by
  unfold checkRange
  rw [bind_assoc]
  apply Returns.get_bind
  cases covered : state.input.covers ⟨start, state.input.position⟩ with
  | false => exact ⟨fun run => by cases run⟩
  | true =>
      have inside := (Bool.and_eq_true_iff.mp covered).2
      exact Lands.returns ⟨⟨aligned.rest, of_decide_eq_true inside⟩, aligned.marked⟩

instance {start : Nat} {next : Nat → Unit → Scan Token} [∀ stop, Lands (next stop ())] :
    Checks (position >>= fun stop => checkRange start stop >>= next stop) where
  returns aligned := Returns.position_bind (checkRange_inside aligned)

instance {start : Nat} {what : Truncated} {next : Symbol → Scan Token}
    [∀ symbol, Lands (next symbol)] : Checks (internFrom start what >>= next) where
  returns aligned := by
    unfold internFrom
    rw [bind_assoc]
    apply Returns.get_bind
    dsimp only
    rw [bind_assoc]
    exact checkRange_inside aligned

end

section

variable {state : State}

set_option synthInstance.maxSize 1024 in
theorem globalVariable_lands (contained : state.Contained) :
    Returns globalVariable state fun token after => token.Lands after := by
  unfold globalVariable
  apply Returns.get_bind
  dsimp only
  by_cases reference : isBackReference ((state.input.rest.drop 1).headD 0) = true
  · have two : 1 < state.input.rest.length := by
      refine length_of_headD_drop fun zero => ?_
      rw [zero] at reference
      exact absurd reference (by decide)
    apply Returns.advance_bind contained (Nat.le_of_lt two)
    intro moved contained here
    refine Rests.returns_bind contained fun _ moded contained same => ?_
    rw [if_pos reference]
    apply Returns.advance_bind contained
    · rw [same, here]
      exact List.length_drop ▸ Nat.le_sub_of_add_le two
    · intro _ contained _
      exact Lands.returns contained
  · rw [if_neg reference]
    exact Checks.returns contained.aligned

set_option synthInstance.maxSize 1024 in
instance : Checks atVariable := by
  unfold atVariable
  dsimp only
  infer_instance

instance (start : Nat) (reading : NumberReading) : Checks (number start reading) := by
  unfold number
  apply Checks.andThen
  intro digits
  apply Checks.andThen
  intro _
  apply Checks.andThen
  intro _
  have remarked (stop : Nat) : Lands (do
      reading.remarks.forM fun (offset, problem) =>
        match offset with
        | some offset => report ⟨digits + offset, digits + offset + 1⟩ problem
        | none => report ⟨start, stop⟩ problem
      setMode .operandEnd
      token reading.value start) := by
    apply Lands.remarks
    intro remark
    obtain ⟨offset, problem⟩ := remark
    cases offset with
    | none => infer_instance
    | some offset => infer_instance
  infer_instance

end

/-! ### Interpolations -/

section

variable {state : State}

instance (start : Nat) : Rests (enterInterpolation start) := by
  have enters : LexerState.Narrows fun lexer : LexerState =>
      { lexer with
        contexts :=
          { literal := lexer.literal
            mode := lexer.mode
            statementStart := lexer.statementStart
            loopFlags := lexer.loopFlags
            commandFlags := lexer.commandFlags
            brackets := lexer.brackets } :: lexer.contexts
        literal := none
        mode := .begin
        statementStart := true
        loopFlags := {}
        commandFlags := {}
        brackets := 0 } :=
    ⟨fun lexer => List.Subset.refl lexer.quotations⟩
  unfold enterInterpolation
  infer_instance

instance : Rests leaveInterpolation where
  returns state := by
    refine returns_modify ⟨rfl, ?_⟩
    intro literal member
    rw [LexerState.mem_quotations] at member ⊢
    dsimp only at member
    cases contexts : state.lexer.contexts with
    | nil =>
        rw [contexts] at member
        dsimp only at member
        rwa [contexts] at member
    | cons context outer =>
        rw [contexts] at member
        exact List.mem_cons_of_mem _ member

theorem interpolation_lands (contained : state.Contained) {kind : Interpolation}
    (found : Interpolation.at? state.input.rest = some kind) :
    Returns (interpolation kind) state fun token after => token.Lands after := by
  apply Returns.position_bind
  cases kind with
  | code => exact Lands.returns_advance contained (Interpolation.at?_code found)
  | variableName => exact Lands.returns_advance contained (Interpolation.at?_variable found).1

end

end Scan

end RubySyntax
