/-
Text between the delimiters of a literal.

What a written text stands for is said one step at a time, a step for each turn of the
loop that gathers it: a byte stands for itself, and an escape sequence for what it reads
as, with remarks if something is wrong with it. How many brackets are open is kept in the
literal, so the text goes from one literal to another one that differs in this.
-/

import RubySyntax.Proofs.Reading.Step

namespace RubySyntax

/-! ### Remarks on a text -/

abbrev Remarks := List (Span × Problem)

def Remarks.later (remarks : Remarks) (distance : Nat) : Remarks :=
  remarks.map fun (span, problem) => (⟨distance + span.start, distance + span.stop⟩, problem)

def Report.addAt (report : Report) (position : Nat) (remarks : Remarks) : Report :=
  remarks.foldl (fun report (span, problem) =>
    report.add ⟨position + span.start, position + span.stop⟩ problem) report

theorem Report.addAt_append (report : Report) (position : Nat) (first second : Remarks) :
    report.addAt position (first ++ second) =
      (report.addAt position first).addAt position second :=
  List.foldl_append

theorem Report.addAt_later (report : Report) (position distance : Nat) (remarks : Remarks) :
    report.addAt position (remarks.later distance) =
      report.addAt (position + distance) remarks := by
  unfold addAt Remarks.later
  rw [List.foldl_map]
  simp only [Nat.add_assoc]

theorem Remarks.later_append (first second : Remarks) (distance : Nat) :
    Remarks.later (first ++ second) distance =
      Remarks.later first distance ++ Remarks.later second distance :=
  List.map_append

theorem Remarks.later_later (remarks : Remarks) (first second : Nat) :
    (remarks.later first).later second = remarks.later (second + first) := by
  simp [later, Nat.add_assoc]

namespace Quotation

/-- Whether the bytes go on with the text of a literal: they do not close it, and start
neither the next word of a list nor an interpolation. -/
def goesOnAt (literal : Quotation) : Bytes → Bool
  | [] => false
  | byte :: rest =>
      !(literal.closesAt byte || literal.gapAt byte) &&
        !(literal.interpolates && (Interpolation.at? (byte :: rest)).isSome)

/-- Where no bracket is open the closing delimiter ends the text. -/
theorem goesOnAt_closing {literal : Quotation} (settled : literal.nesting = 0) (rest : Bytes) :
    literal.goesOnAt (literal.closing :: rest) = false := by
  have closes : literal.closesAt literal.closing = true := by
    rw [closesAt, settled, beq_self_eq_true]
    rfl
  rw [goesOnAt, closes]
  rfl

def escapeOf (literal : Quotation) (rest : Bytes) : EscapeReading :=
  EscapeReading.readIn literal.escapeRule literal.kind.isList literal.opening literal.closing rest

/-- A text is read up to the rest of the source as some bytes, with some remarks. -/
inductive Reads (rest : Bytes) : Quotation → Bytes → Bytes → Quotation → Remarks → Prop
  | done {literal : Quotation} : Reads rest literal [] [] literal []
  | plain {literal last : Quotation} {byte : Byte} {text value : Bytes} {remarks : Remarks}
      (goesOn : literal.goesOnAt (byte :: (text ++ rest)) = true) (unescaped : byte ≠ 0x5C)
      (more : Reads rest (literal.nest byte) text value last remarks) :
      Reads rest literal (byte :: text) (byte :: value) last (remarks.later 1)
  | escaped {literal last : Quotation} {written bytes text value : Bytes} {found remarks : Remarks}
      (goesOn : literal.goesOnAt (0x5C :: (written ++ (text ++ rest))) = true)
      (reading : literal.escapeOf (written ++ (text ++ rest)) =
        { bytes, length := written.length, remarks := found })
      (more : Reads rest literal text value last remarks) :
      Reads rest literal (0x5C :: (written ++ text)) (bytes ++ value) last
        (found ++ remarks.later (written.length + 1))

/-- Nothing but the number of open brackets depends on the text. -/
theorem nest_keeps (literal : Quotation) (byte : Byte) :
    ∃ nesting, literal.nest byte = { literal with nesting } := by
  unfold nest
  split
  · exact ⟨_, rfl⟩
  · split
    · exact ⟨_, rfl⟩
    · split
      · exact ⟨_, rfl⟩
      · exact ⟨_, rfl⟩

theorem escapeOf_nest (literal : Quotation) (byte : Byte) :
    (literal.nest byte).escapeOf = literal.escapeOf := by
  obtain ⟨nesting, same⟩ := literal.nest_keeps byte
  rw [same]
  rfl

/-- Where there is text, the literal goes on. -/
theorem Reads.goesOn {rest text value : Bytes} {literal last : Quotation} {remarks : Remarks}
    (reads : Reads rest literal text value last remarks) (written : text ≠ []) :
    ∃ byte more, text ++ rest = byte :: more ∧ literal.goesOnAt (byte :: more) = true := by
  cases reads with
  | done => exact absurd rfl written
  | plain goesOn _ _ => exact ⟨_, _, rfl, goesOn⟩
  | escaped goesOn _ _ => exact ⟨_, _, by rw [List.cons_append, List.append_assoc], goesOn⟩

theorem Reads.keeps {rest text value : Bytes} {literal last : Quotation} {remarks : Remarks}
    (reads : Reads rest literal text value last remarks) :
    ∃ nesting, last = { literal with nesting } := by
  induction reads with
  | done => exact ⟨_, rfl⟩
  | @plain literal _ byte _ _ _ _ _ _ ih =>
      obtain ⟨inner, same⟩ := literal.nest_keeps byte
      obtain ⟨nesting, rfl⟩ := ih
      exact ⟨nesting, by rw [same]⟩
  | escaped _ _ _ ih => exact ih

def Holds (literal : Quotation) (text value rest : Bytes) (remarks : Remarks := []) : Prop :=
  ∃ last, literal.Reads (literal.closing :: rest) text value last remarks ∧ last.nesting = 0

end Quotation

namespace Scan

variable {state : State} {literal last : Quotation} {text value rest : Bytes} {remarks : Remarks}
  {excused : Fatal → State → Prop}

structure TextGathering (state : State) (literal last : Quotation) (text value rest : Bytes)
    (remarks : Remarks) (gathered : Gathered) (current : State) : Prop where
  settings : gathered.literal.escapeOf = literal.escapeOf
  whole : gathered.truncated = false
  left : ∃ read text' value' made remarks', text = read ++ text' ∧
    value = gathered.bytes.toList ++ value' ∧ remarks = made ++ remarks'.later read.length ∧
    gathered.literal.Reads rest text' value' last remarks' ∧
    current = { state with
      input := state.input.advance read.length
      report := state.report.addAt state.input.position made }

/-- What a turn of the loop adds is kept as a whole if the text is short enough. -/
theorem TextGathering.add {gathered : Gathered} {current : State} {read bytes more after : Bytes}
    {made found later : Remarks} (written : Bytes)
    (settings : gathered.literal.escapeOf = literal.escapeOf)
    (whole : gathered.truncated = false) (texts : text = read ++ (written ++ more))
    (values : value = gathered.bytes.toList ++ (bytes ++ after))
    (problems : remarks = made ++ Remarks.later (found ++ later.later written.length) read.length)
    (short : value.length ≤ state.limits.tokenMax)
    (reads : gathered.literal.Reads rest more after last later)
    (moved : current = { state with
      input := (state.input.advance read.length).advance written.length
      report := (state.report.addAt state.input.position made).addAt
        (state.input.position + read.length) found }) :
    TextGathering state literal last text value rest remarks
      (gathered.add state.limits.tokenMax bytes) current := by
  have room : gathered.bytes.size + bytes.length ≤ state.limits.tokenMax := by
    have lengths := congrArg List.length values
    simp only [List.length_append, Array.length_toList] at lengths
    omega
  unfold Gathered.add
  rw [if_pos room]
  refine ⟨settings, whole, read ++ written, more, after, made ++ found.later read.length, later,
    ?_, ?_, ?_, reads, ?_⟩
  · rw [texts, List.append_assoc]
  · rw [values, ← List.append_assoc]
    congr 1
    exact (Array.toList_appendList ..).symm
  · rw [problems, Remarks.later_append, Remarks.later_later, List.length_append, List.append_assoc]
  · rw [moved, Input.advance_advance, List.length_append, Report.addAt_append, Report.addAt_later]

theorem escapeRemarks_yields (backslash : Nat) (reading : EscapeReading) :
    Yields (escapeRemarks backslash reading) state (fun _ after =>
      after = { state with report := state.report.addAt backslash reading.remarks }) excused := by
  unfold escapeRemarks
  generalize reading.remarks = remarks
  induction remarks generalizing state with
  | nil => exact yields_pure rfl
  | cons remark more ih =>
      obtain ⟨span, problem⟩ := remark
      have once : Yields
          (report ⟨backslash + span.start, backslash + span.stop⟩ problem) state
          (fun _ after => after = { state with
            report := state.report.addAt backslash [(span, problem)] }) excused :=
        Yields.get_bind (Yields.relyOn_bind (yields_modify rfl))
      refine Yields.bind once ?_
      rintro _ _ rfl
      exact ih

/-- The text of a literal is gathered if it is short enough to be kept. -/
theorem gather_yields (reads : literal.Reads rest text value last remarks)
    (stops : last.goesOnAt rest = false) (goesOn : rest ≠ [])
    (short : value.length ≤ state.limits.tokenMax) (here : state.input.rest = text ++ rest) :
    Yields (gather literal) state (fun gathered after =>
      gathered = { literal := last, bytes := value.toArray } ∧
        after = { state with
          input := state.input.advance text.length
          report := state.report.addAt state.input.position remarks }) excused := by
  apply repeatUntil_yields (TextGathering state literal last text value rest remarks)
  · refine ⟨rfl, rfl, [], text, value, [], remarks, rfl, rfl, ?_, reads, rfl⟩
    simp [Remarks.later]
  rintro ⟨current, bytes, truncated⟩ _
    ⟨settings, rfl, read, more, after, made, later, texts, values, problems, reads, rfl⟩
  have left : (state.input.advance read.length).rest = more ++ rest := by
    rw [Input.advance, here, texts, List.append_assoc, List.drop_left]
  cases reads with
  | done =>
      obtain ⟨byte, others, rfl⟩ := List.exists_cons_of_ne_nil goesOn
      have first : (state.input.advance read.length).peekByte = byte := by
        rw [Input.peekByte, left]
        rfl
      have problems : remarks = made := problems.trans (List.append_nil made)
      rw [List.append_nil] at texts values
      simp only [Quotation.goesOnAt, Bool.and_eq_false_iff, Bool.not_eq_false'] at stops
      refine Yields.hasMore_bind left (Yields.get_bind ?_)
      simp only [first, left, List.nil_append]
      by_cases closes : (current.closesAt byte || current.gapAt byte) = true
      · rw [if_pos closes]
        exact yields_pure ⟨by rw [values], by rw [texts, problems]⟩
      · rw [if_neg closes, if_pos (stops.resolve_left closes)]
        exact yields_pure ⟨by rw [values], by rw [texts, problems]⟩
  | @plain _ _ byte text' value' _ goesOn unescaped more =>
      have first : (state.input.advance read.length).peekByte = byte := by
        rw [Input.peekByte, left]
        rfl
      have noEscape : (byte.char == '\\') = false :=
        beq_false_of_ne fun same => unescaped (Byte.char_injective same)
      simp only [Quotation.goesOnAt, Bool.and_eq_true, Bool.not_eq_true'] at goesOn
      refine Yields.hasMore_bind left (Yields.get_bind ?_)
      simp only [first, left, List.cons_append, goesOn.1, goesOn.2, noEscape, Bool.false_eq_true,
        if_false]
      refine Yields.advance_bind (yields_pure ?_)
      have problems : remarks = made ++ Remarks.later ([] ++ Remarks.later _ [byte].length)
          read.length := problems
      exact TextGathering.add [byte] ((current.escapeOf_nest byte).trans settings) rfl
        texts values problems short more rfl
  | @escaped _ _ written decoded text' value' found _ goesOn reading more =>
      have first : (state.input.advance read.length).peekByte = 0x5C := by
        rw [Input.peekByte, left]
        rfl
      have escape : EscapeReading.readIn literal.escapeRule literal.kind.isList literal.opening
          literal.closing (written ++ (text' ++ rest)) =
            { bytes := decoded, length := written.length, remarks := found } :=
        (congrFun settings _).symm.trans reading
      have isEscape : ((0x5C : Byte).char == '\\') = true := rfl
      simp only [Quotation.goesOnAt, Bool.and_eq_true, Bool.not_eq_true'] at goesOn
      refine Yields.hasMore_bind left (Yields.get_bind ?_)
      simp only [first, left, List.cons_append, List.append_assoc, List.drop_succ_cons,
        List.drop_zero, goesOn.1, goesOn.2, isEscape, escape, Bool.false_eq_true, if_false, if_true]
      refine Yields.advance_bind ((escapeRemarks_yields _ _).bind ?_)
      rintro _ _ rfl
      refine yields_pure (TextGathering.add (0x5C :: written) settings rfl texts values
        problems short more ?_)
      rw [Nat.add_comm 1]
      rfl

end Scan

end RubySyntax
