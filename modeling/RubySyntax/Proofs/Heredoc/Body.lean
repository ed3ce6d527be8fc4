/-
The bodies of heredocs whose text is taken as it stands.

A body is read line by line. Each line is one token, up to the one that closes the
heredoc. The bodies come in the order of their openers, and each fills the node that
waits for it.
-/

import RubySyntax.Proofs.Heredoc.Opener

namespace RubySyntax

/-! ### The line that closes a heredoc -/

namespace RawHeredoc

theorem blank_eq : (fun byte : Byte => byte.char == ' ' || byte.char == '\t') = Margin.isBlank := by
  funext byte
  revert byte
  exact Byte.forall_of_lt (by decide +kernel)

def flush (heredoc : RawHeredoc) (line : Bytes) : Bytes :=
  if heredoc.dedented then line.dropWhile Margin.isBlank else line

theorem takeWhile_line (line more : Bytes) :
    (line ++ 0x0A :: more).takeWhile Margin.isBlank = line.takeWhile Margin.isBlank := by
  induction line with
  | nil => rfl
  | cons byte line ih =>
      rw [List.cons_append, List.takeWhile_cons, List.takeWhile_cons, ih]

theorem drop_blanks (heredoc : RawHeredoc) (line more : Bytes) :
    (line ++ 0x0A :: more).drop (if heredoc.dedented = true then
      ((line ++ 0x0A :: more).takeWhile Margin.isBlank).length else 0) =
      heredoc.flush line ++ 0x0A :: more := by
  unfold flush
  cases heredoc.dedented with
  | false => rfl
  | true =>
      have parts : line ++ 0x0A :: more =
          line.takeWhile Margin.isBlank ++ (line.dropWhile Margin.isBlank ++ 0x0A :: more) := by
        rw [← List.append_assoc, List.takeWhile_append_dropWhile]
      simp only [if_true, takeWhile_line]
      rw [parts, List.drop_left]

/-- What stands for the end of a line is no part of a delimiter. -/
theorem isPrefixOf_line (heredoc : RawHeredoc) {text more : Bytes}
    (starts : heredoc.delimiter.isPrefixOf (text ++ 0x0A :: more) = true) :
    ∃ rest, text = heredoc.delimiter ++ rest := by
  obtain ⟨rest, same⟩ := List.isPrefixOf_iff_prefix.mp starts
  rcases List.append_eq_append_iff.mp same with ⟨rest, same, -⟩ | ⟨beyond, same, line⟩
  · exact ⟨rest, same⟩
  · cases beyond with
    | nil => exact ⟨[], by rw [same]; simp⟩
    | cons byte beyond =>
        rw [List.cons_append, List.cons.injEq] at line
        have inside : byte ∈ heredoc.delimiter := by simp [same]
        exact absurd line.1.symm (heredoc.quotable byte inside).2

/-- A line that does not close the heredoc belongs to its text. -/
theorem closingLength?_inner (heredoc : RawHeredoc) (start : Nat) {line : Bytes}
    (whole : 0x0A ∉ line) (inner : closes heredoc.delimiter heredoc.dedented line = false)
    (more : Bytes) : (heredoc.opened start).closingLength? (line ++ 0x0A :: more) = none := by
  have other : heredoc.flush line ≠ heredoc.delimiter ∧
      heredoc.flush line ≠ heredoc.delimiter ++ [0x0D] := by
    simpa [closes, flush] using inner
  have plain : 0x0A ∉ heredoc.flush line := by
    unfold flush
    split
    · exact fun member => whole (List.dropWhile_sublist _ |>.subset member)
    · exact whole
  unfold Heredoc.closingLength?
  simp only [opened, blank_eq, drop_blanks]
  split
  · next starts =>
    obtain ⟨rest, same⟩ := heredoc.isPrefixOf_line starts
    rw [same] at other plain ⊢
    rw [List.append_assoc, List.drop_left]
    have notLine : 0x0A ∉ rest := fun member => plain (List.mem_append_right _ member)
    match rest with
    | [] => exact absurd (List.append_nil _) other.1
    | [byte] =>
        have notReturn : byte ≠ 0x0D := fun same => other.2 (same ▸ rfl)
        split <;> simp_all
    | first :: second :: rest => split <;> simp_all
  · rfl

theorem closingLength?_delimiter (heredoc : RawHeredoc) (start : Nat) (more : Bytes) :
    (heredoc.opened start).closingLength? (heredoc.delimiter ++ 0x0A :: more) =
      some (heredoc.delimiter.length + 1) := by
  have whole : heredoc.flush heredoc.delimiter = heredoc.delimiter := by
    have reached : heredoc.flush heredoc.delimiter = heredoc.delimiter ∨
        heredoc.flush heredoc.delimiter = heredoc.delimiter ++ [0x0D] := by
      simpa [closes, flush] using heredoc.reached
    refine reached.resolve_right fun longer => ?_
    have shorter : (heredoc.flush heredoc.delimiter).length ≤ heredoc.delimiter.length := by
      unfold flush
      split
      · exact (List.dropWhile_sublist _).length_le
      · exact Nat.le_refl _
    rw [longer, List.length_append, List.length_singleton] at shorter
    omega
  have rest := heredoc.drop_blanks heredoc.delimiter more
  rw [whole] at rest
  have unmoved : (if heredoc.dedented = true then
      ((heredoc.delimiter ++ 0x0A :: more).takeWhile Margin.isBlank).length else 0) = 0 := by
    have lengths := congrArg List.length rest
    rw [List.length_drop, List.length_append, List.length_cons] at lengths
    omega
  have starts : heredoc.delimiter.isPrefixOf (heredoc.delimiter ++ 0x0A :: more) = true :=
    List.isPrefixOf_iff_prefix.mpr (List.prefix_append _ _)
  unfold Heredoc.closingLength?
  simp only [opened, blank_eq, unmoved, List.drop_zero, starts, List.drop_left, if_true,
    Nat.zero_add]

end RawHeredoc

/-! ### The tokens of a body -/

structure State.InBody (state : State) (heredoc : RawHeredoc) (start : Nat)
    (lines : List Bytes) (following : Bytes) (waiting : List PendingHeredoc) : Prop where
  literal : state.lexer.literal = some (.heredocBody (heredoc.opened start) true)
  between : LexerState.Between { state.lexer with literal := none } 0 waiting
  starts : state.lexer.statementStart = true
  sound : state.input.Sound
  text : state.input.rest =
    lines.flatMap (· ++ [0x0A]) ++ (heredoc.delimiter ++ 0x0A :: following)

structure State.AfterBody (state : State) (following : Bytes) (waiting : List PendingHeredoc) :
    Prop where
  between : state.lexer.Between 0 waiting
  starts : state.lexer.statementStart = true
  sound : state.input.Sound
  text : state.input.rest = following

namespace Scan

variable {state : State} {heredoc : RawHeredoc} {start : Nat} {line following : Bytes}
  {lines : List Bytes} {waiting : List PendingHeredoc} {excused : Fatal → State → Prop}

/-- A line is taken as it stands, through its end, if it is kept as a whole. -/
theorem heredocText_yields {more : Bytes} (whole : 0x0A ∉ line)
    (short : line.length + 1 < state.limits.tokenMax)
    (text : state.input.rest = line ++ 0x0A :: more) :
    Yields (heredocText (heredoc.opened start)) state (fun result after =>
      result.1.toList = line ++ [0x0A] ∧ result.2 = true ∧
        after = { state with input := state.input.advance (line.length + 1) }) excused := by
  have plain : (heredoc.opened start).interpolates = false := rfl
  apply repeatUntil_yields fun (bytes : Array Byte) current => ∃ left,
    line = bytes.toList ++ left ∧
      current = { state with input := state.input.advance bytes.size }
  · exact ⟨line, rfl, rfl⟩
  rintro bytes _ ⟨left, parts, rfl⟩
  have here : (state.input.advance bytes.size).rest = left ++ 0x0A :: more := by
    rw [Input.advance, text, parts, List.append_assoc, ← Array.length_toList, List.drop_left]
  have room : bytes.size < state.limits.tokenMax := by
    have lengths := congrArg List.length parts
    rw [List.length_append] at lengths
    have size : bytes.toList.length = bytes.size := Array.length_toList
    omega
  have further : (state.input.advance bytes.size).advance 1 =
      state.input.advance (bytes.size + 1) := Input.advance_advance ..
  cases left with
  | nil =>
      have byte : (state.input.advance bytes.size).peekByte = 0x0A := by
        rw [Input.peekByte, here]
        rfl
      refine Yields.hasMore_bind here (Yields.get_bind ?_)
      simp only [plain, byte, room, Bool.false_and, Bool.false_eq_true, if_false, if_true]
      refine Yields.advance_bind ?_
      rw [List.append_nil] at parts
      refine yields_pure ⟨?_, rfl, ?_⟩
      · rw [Array.toList_push, ← parts]
      · rw [parts, Array.length_toList, ← further]
  | cons byte left =>
      have first : (state.input.advance bytes.size).peekByte = byte := by
        rw [Input.peekByte, here]
        rfl
      have goesOn : (byte.char == '\n') = false := by
        refine beq_false_of_ne fun same => whole ?_
        have line : byte = 0x0A := Byte.char_injective same
        simp [parts, line]
      refine Yields.hasMore_bind here (Yields.get_bind ?_)
      simp only [plain, first, room, goesOn, Bool.false_and, Bool.false_eq_true, if_false, if_true]
      refine Yields.advance_bind (yields_pure ⟨left, ?_, ?_⟩)
      · rw [Array.toList_push, parts, List.append_assoc, List.singleton_append]
      · rw [Array.size_push, ← further]

/-- At the start of a line of a body the line decides what is read. -/
theorem bodyToken_yields {post : Token → State → Prop} {byte : Byte} {more : Bytes}
    (body : state.InBody heredoc start lines following waiting)
    (here : state.input.rest = byte :: more)
    (yields : Yields (match (heredoc.opened start).closingLength? state.input.rest with
      | some length => do
          advance length
          setLiteral none
          token (.literalEnd []) state.input.position
      | none => heredocContent (heredoc.opened start) true) state post excused) :
    Yields nextToken state post excused := by
  refine Yields.get_bind ?_
  simp only [body.literal]
  refine Yields.get_bind ?_
  simp only [show state.lexer.variablePending = false from body.between.unmarked,
    Bool.false_eq_true, if_false]
  refine Yields.position_bind ?_
  simp only [if_true]
  refine Yields.hasMore_bind here ?_
  exact Yields.position_bind (Yields.position_bind (Yields.checkRange_bind (Yields.get_bind yields)))

theorem contentToken_yields (body : state.InBody heredoc start (line :: lines) following waiting)
    (member : line ∈ heredoc.lines) (short : line.length + 1 < state.limits.tokenMax) :
    Yields nextToken state (fun token after =>
      (∃ span, token = ⟨.content (line ++ [0x0A]) true, span⟩) ∧
      after.InBody heredoc start lines following waiting ∧
      ∃ input lexer, after = { state with input, lexer }) excused := by
  have whole := heredoc.whole line member
  have text : state.input.rest = line ++ 0x0A ::
      (lines.flatMap (· ++ [0x0A]) ++ (heredoc.delimiter ++ 0x0A :: following)) := by
    rw [body.text]
    simp
  obtain ⟨byte, more, here⟩ : ∃ byte more, state.input.rest = byte :: more := by
    rw [text]
    cases line with
    | nil => exact ⟨_, _, rfl⟩
    | cons byte line => exact ⟨_, _, rfl⟩
  refine bodyToken_yields body here ?_
  rw [text, heredoc.closingLength?_inner start whole (heredoc.inner line member)]
  refine Yields.position_bind ((heredocText_yields whole short text).bind ?_)
  rintro ⟨bytes, lineEnd⟩ _ ⟨taken, rfl, rfl⟩
  have moved : state.input.position + (line.length + 1) ≠ state.input.position := by omega
  have kept : ¬state.limits.tokenMax ≤ bytes.size := by
    rw [← Array.length_toList, taken, List.length_append, List.length_singleton]
    omega
  refine Yields.get_bind ?_
  simp only [Input.advance, moved, kept, decide_false, Bool.false_and, Bool.false_eq_true, if_false]
  refine Yields.setLexer_bind (Yields.position_bind (yields_pure ?_))
  refine ⟨⟨_, by rw [taken]⟩, ⟨rfl, body.between, body.starts, ?_, ?_⟩, _, _, rfl⟩
  · refine body.sound.advance ?_
    rw [text, List.length_append, List.length_cons]
    omega
  · change state.input.rest.drop (line.length + 1) = _
    rw [text, ← List.drop_drop, List.drop_left]
    rfl

theorem closingToken_yields (body : state.InBody heredoc start [] following waiting) :
    Yields nextToken state (fun token after => token.kind = .literalEnd [] ∧
      after.AfterBody following waiting ∧
      ∃ input lexer, after = { state with input, lexer }) excused := by
  have text : state.input.rest = heredoc.delimiter ++ 0x0A :: following := body.text
  obtain ⟨byte, more, here⟩ : ∃ byte more, state.input.rest = byte :: more := by
    rw [text]
    cases heredoc.delimiter with
    | nil => exact ⟨_, _, rfl⟩
    | cons byte delimiter => exact ⟨_, _, rfl⟩
  refine bodyToken_yields body here ?_
  rw [text, heredoc.closingLength?_delimiter start following]
  refine Yields.advance_bind (Yields.setLexer_bind (Yields.position_bind (yields_pure ?_)))
  refine ⟨rfl, ⟨body.between, body.starts, ?_, ?_⟩, _, _, rfl⟩
  · refine body.sound.advance ?_
    rw [text, List.length_append, List.length_cons]
    omega
  · change state.input.rest.drop (heredoc.delimiter.length + 1) = _
    rw [text, ← List.drop_drop, List.drop_left]
    rfl

end Scan

end RubySyntax
