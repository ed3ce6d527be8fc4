/-
Programs of one integer literal.

A literal that is written well is the whole tree of its program, and nothing is reported. One
with an underscore out of place is reported on when its token is read, and what comes after
withdraws no report.
-/

import RubySyntax.Proofs.Integer.Literal
import RubySyntax.Proofs.Reading.Begun
import RubySyntax.Proofs.Reading.Number

namespace RubySyntax

/-! ### Reports on a literal -/

namespace Scan

variable {state : State} {excused : Fatal → State → Prop}

/-- All remarks on a literal are reported, and those that are errors are counted. -/
theorem remarks_yields (start stop digits : Nat) (remarks : List (Option Nat × Problem)) :
    Yields (remarks.forM fun (offset, problem) =>
        match offset with
        | some offset => report ⟨digits + offset, digits + offset + 1⟩ problem
        | none => report ⟨start, stop⟩ problem) state
      (fun _ after => ∃ report, after = { state with report } ∧ report.errors =
        state.report.errors + remarks.countP fun remark => remark.2.severity = .error) excused := by
  induction remarks generalizing state with
  | nil => exact yields_pure ⟨state.report, rfl, rfl⟩
  | cons remark more ih =>
      obtain ⟨offset, problem⟩ := remark
      have once : Yields
          (match offset with
          | some offset => report ⟨digits + offset, digits + offset + 1⟩ problem
          | none => report ⟨start, stop⟩ problem) state
          (fun _ after => ∃ report, after = { state with report } ∧ report.errors =
            state.report.errors + if problem.severity = .error then 1 else 0) excused := by
        cases offset with
        | some offset => exact report_yields _ rfl
        | none => exact report_yields _ rfl
      refine Yields.bind once ?_
      rintro _ _ ⟨first, rfl, counted⟩
      refine ih.mono ?_
      rintro _ _ ⟨last, rfl, errors⟩
      refine ⟨last, rfl, ?_⟩
      rw [errors, List.countP_cons, counted]
      simp only [decide_eq_true_eq]
      omega

theorem number_faulty {start : Nat} {reading : NumberReading} (faulty : Faulty reading.remarks) :
    Yields (number start reading) state (fun _ after => 1 ≤ after.report.errors) excused := by
  refine Yields.position_bind (Yields.checkRange_bind (Yields.advance_bind ?_))
  refine Yields.position_bind (Yields.checkRange_bind ((remarks_yields _ _ _ _).bind ?_))
  rintro _ _ ⟨report, rfl, errors⟩
  have some : 0 < reading.remarks.countP fun remark => remark.2.severity = .error := by
    obtain ⟨remark, member, severe⟩ := faulty
    exact List.countP_pos_iff.mpr ⟨remark, member, decide_eq_true severe⟩
  change 1 ≤ report.errors
  omega

end Scan

/-- What is reported on when the first token of a program is read is reported in the end. -/
theorem parse_reports {source : Bytes} {options : ParseOptions} {symbols : SymbolTable}
    {errors : Nat}
    (reports : Scan.Yields Scan.nextToken (State.start source options symbols)
      (fun _ after => errors ≤ after.report.errors) fun _ after => errors ≤ after.report.errors) :
    errors ≤ (parse source options symbols).report.errors := by
  rcases runProgram_yields fun _ =>
    Parse.program_shows_of_peek (Parse.peekToken_shows rfl reports) with
    ⟨root, after, known, run⟩ | ⟨error, after, known, run⟩
  · unfold parse
    rw [run]
    exact known
  · unfold parse
    rw [run]
    exact Nat.le_trans known (Report.errors_le_add ..)

/-! ### The program -/

/-- A program that is read as an integer is its number. -/
theorem parse_spellsInteger {source : Bytes} {value : Int} (spells : source.SpellsInteger value)
    (options : ParseOptions) (symbols : SymbolTable) (shallow : 0 < options.maxDepth)
    (room : 2 ≤ options.maxNodes) :
    let parsed := parse source options symbols
    parsed.Clean ∧ ∃ id, parsed.statements? = some [id] ∧
      parsed.arena.Shaped id (.integer value) := by
  let begun := State.start source options symbols
  have left : begun.Left source := State.start_left ..
  have space : begun.Room 2 := State.start_room room
  have number : ∀ depth token current, current.lookahead = some token →
      token.kind.opensOperand = true → Parse.IntegerAhead begun value current →
      Parse.Succeeds (Parse.table depth) Parse.statement current (Closed fun id after =>
        after.arena.Shaped id (.integer value) ∧ begun.EndSeen 1 after) := by
    rintro depth _ current - - ⟨⟨span, seen⟩, left, mode, looked⟩
    have deep : current.depth < current.limits.maxDepth := by
      rw [looked.depth, looked.limits]
      exact shallow
    have room : current.Room 1 := (space.of_le (by decide)).after looked.toGains
    refine (Parse.statement_lastNumber left mode seen room deep).mono ?_
    rintro id after ⟨⟨stored, ended⟩, unlabelled, following⟩
    exact ⟨⟨stored, ended.since looked⟩, unlabelled, following⟩
  intro parsed
  obtain ⟨fatal, report, id, middle, after, stored, builds, statements, arena, -⟩ :=
    parse_statement (fun _ => Parse.peekKind_integer left rfl spells) number space
      fun id after stored => ⟨.integer value, stored, nofun⟩
  rw [arena]
  exact ⟨.of_quiet fatal report, id, statements, builds.shaped stored⟩

/-- An integer literal is the value of its number in the base that its mark announces. With an
underscore out of place it is an error. -/
theorem parse_integer {base : Nat} {mark : Bytes} (announced : mark ∈ baseMarks base)
    (options : ParseOptions) (symbols : SymbolTable) (shallow : 0 < options.maxDepth)
    (room : 2 ≤ options.maxNodes) :
    (∀ number : WrittenNumber base, number.FitsMark mark →
      let parsed := parse (mark ++ number.text) options symbols
      parsed.Clean ∧ ∃ id, parsed.statements? = some [id] ∧
        parsed.arena.Shaped id (.integer number.value)) ∧
    ∀ row, RowAfterMark base mark row → MisplacedUnderscore (mark ++ row) →
      1 ≤ (parse (mark ++ row) options symbols).report.errors := by
  constructor
  · intro number fits parsed
    have spells : (mark ++ number.text).SpellsInteger number.value :=
      ⟨baseMarks_startsDigit announced fun _ decimal =>
        ⟨_, _, rfl, number.first.isDigit (Nat.le_of_eq decimal)⟩,
        NumberReading.ofDigits_number announced fits⟩
    exact parse_spellsInteger spells options symbols shallow room
  · intro row after misplaced
    apply parse_reports
    obtain ⟨digit, others, written, isDigit⟩ :=
      baseMarks_startsDigit announced fun bare _ => after.2 bare
    have left := State.start_left (mark ++ row) options symbols
    refine Scan.digitToken_yields left.idle (.inl rfl) written isDigit left.text ?_
    exact Scan.number_faulty (NumberReading.ofDigits_remarks announced after misplaced)

/-- `0xF_f` is 255, and `0xF__f` is an error. -/
theorem parse_integer_hexadecimal :
    ascii "0x" ∈ baseMarks 16 ∧ RowAfterMark 16 (ascii "0x") (ascii "F__f") ∧
      MisplacedUnderscore (ascii "0xF__f") ∧
      1 ≤ (parse (ascii "0xF__f") {} {}).report.errors ∧
      let parsed := parse (ascii "0xF_f") {} {}
      parsed.Clean ∧ ∃ id, parsed.statements? = some [id] ∧
        parsed.arena.Shaped id (.integer 255) := by
  have announced : ascii "0x" ∈ baseMarks 16 := List.mem_cons_self
  have within : ∀ byte ∈ [0x46, 0x5F, 0x5F, 0x66], byte = 0x5F ∨ Byte.isDigitIn 16 byte = true := by
    simp only [List.forall_mem_cons]
    exact ⟨.inr rfl, .inl trivial, .inl trivial, .inr rfl, nofun⟩
  have after : RowAfterMark 16 (ascii "0x") (ascii "F__f") := ⟨within, nofun⟩
  have misplaced : MisplacedUnderscore (ascii "0xF__f") := .inl ⟨ascii "0xF", ascii "f", rfl⟩
  let number : WrittenNumber 16 :=
    ⟨⟨0x46, 15, rfl, by decide⟩, [(true, ⟨0x66, 15, rfl, by decide⟩)]⟩
  have text : ascii "0x" ++ number.text = ascii "0xF_f" := by decide
  have value : number.value = 255 := by decide
  have row : ascii "0x" ++ ascii "F__f" = ascii "0xF__f" := by decide
  obtain ⟨whole, wrong⟩ := parse_integer announced {} {} (by decide) (by decide)
  have read := whole number nofun
  have faulty := wrong _ after (row ▸ misplaced)
  rw [text, value] at read
  rw [row] at faulty
  exact ⟨announced, after, misplaced, faulty, read⟩

end RubySyntax
