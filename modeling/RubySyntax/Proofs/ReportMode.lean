/-
What becomes of the reports has no part in a parse.

Whatever is kept of them or written out, the rest of the result is the same, and
so is the list of all that was reported. What a report keeps are the first
diagnostics of each severity in that list, up to its limits; what it writes is the
whole list, line by line.
-/

import RubySyntax.Proofs.Coupling.Expression
import RubySyntax.Proofs.Lexer.Step
import RubySyntax.Proofs.Report
import RubySyntax.Proofs.Store

namespace RubySyntax

namespace Report

variable {report : Report}

theorem add_mode (report : Report) (span : Span) (problem : Problem) :
    (report.add span problem).mode = report.mode := by
  rw [add_eq]

structure Parallel (first second : Report) : Prop where
  map : second.map = first.map
  made : second.made = first.made
  left : first.Records
  right : second.Records

namespace Parallel

variable {first second : Report}

theorem add (parallel : first.Parallel second) (span : Span) (problem : Problem) :
    (first.add span problem).Parallel (second.add span problem) where
  map := by
    rw [add_map, add_map]
    exact parallel.map
  made := by
    rw [made_add, made_add, parallel.made]
    unfold diagnose
    rw [parallel.map]
  left := parallel.left.add span problem
  right := parallel.right.add span problem

theorem addChunk (parallel : first.Parallel second) (offset : Nat) (bytes : Bytes)
    (name : Option String) (line : Nat) :
    { first with map := first.map.addChunk offset bytes name line }.Parallel
      { second with map := second.map.addChunk offset bytes name line } where
  map := by
    dsimp only
    rw [parallel.map]
  made := parallel.made
  left := parallel.left.addChunk offset bytes name line
  right := parallel.right.addChunk offset bytes name line

theorem count (parallel : first.Parallel second) (severity : Severity) :
    second.count severity = first.count severity := by
  rw [parallel.left.counted, parallel.right.counted, parallel.made]

end Parallel

/-- A capturing report whose limits are not met has kept everything. -/
theorem Records.complete {errors warnings : Nat} (records : report.Records)
    (mode : report.mode = .capture errors warnings) (enoughErrors : report.errors ≤ errors)
    (enoughWarnings : report.warnings ≤ warnings) :
    report.captured.toList = report.made.toList := by
  have captured := records.captured
  rw [mode] at captured
  refine captured.trans (keepFirst_of_tally_le fun severity => ?_)
  rw [← records.counted]
  cases severity with
  | error => exact enoughErrors
  | warning => exact enoughWarnings

end Report

/-! ### Two runs with other modes -/

def Coupling.ofReports (watch : Watch) (reports : Report → Report → Prop)
    (map : ∀ {first second : Report}, reports first second → second.map = first.map)
    (add : ∀ {first second : Report} (span : Span) (problem : Problem),
      reports first second → reports (first.add span problem) (second.add span problem))
    (fetch : ∀ {first second : Report} {input : Input} {tokens : List Token} {chunk : Chunk},
      reports first second → watch.always input first tokens →
        input.answers.head?.join = some chunk →
        reports
          { first with
            map := first.map.addChunk input.bytes.size chunk.bytes chunk.fileName 1 }
          { second with
            map := second.map.addChunk input.bytes.size chunk.bytes chunk.fileName 1 }) :
    Coupling where
  watch
  reports
  arenas := Eq
  depths := Eq
  excused _ := False
  map alike := .ofEq (map alike)
  add
  fetch
  slots same := by
    rw [same]
    exact ⟨rfl, fun _ => rfl⟩
  store alike same allocated := by
    rw [same] at allocated
    rw [map alike]
    exact ⟨_, allocated, rfl⟩
  full same full := by
    rw [same] at full ⊢
    exact .inr ⟨Arena.alloc_eq_none.mpr (Arena.alloc_eq_none.mp full), rfl⟩
  recycle _ same := by rw [same]
  modify _ _ _ same := by rw [same]
  allowed same below := same ▸ below
  tooDeep _ same _ := .inr same.symm

def Coupling.reporting (mode : ReportMode) : Coupling :=
  .ofReports .idle (fun first second => first.Parallel second ∧ second.mode = mode)
    (fun alike => alike.1.map)
    (fun span problem alike =>
      ⟨alike.1.add span problem, (Report.add_mode ..).trans alike.2⟩)
    fun alike _ _ => ⟨alike.1.addChunk .., alike.2⟩

instance (mode : ReportMode) : (Coupling.reporting mode).Loose :=
  ⟨fun _ => trivial⟩

instance (mode : ReportMode) : (Coupling.reporting mode).Tracks where
  read _ _ _ _ := ⟨trivial, trivial⟩
  traces _ _ _ _ _ alike := by rw [alike.1.map]

variable (source : Bytes) (options : ParseOptions) (symbols : SymbolTable) (mode : ReportMode)

theorem Coupling.reporting_starts :
    (reporting mode).Alike (State.start source options symbols)
      (State.start source { options with mode } symbols) where
  reports :=
    ⟨⟨rfl, rfl, State.start_records .., State.start_records source { options with mode } symbols⟩,
      rfl⟩
  arenas := rfl
  depths := rfl
  rest := rfl
  always := trivial

structure Parsed.Alongside (mode : ReportMode) (given other : Parsed) : Prop where
  rest : other = { given with report := other.report }
  parallel : given.report.Parallel other.report
  mode : other.report.mode = mode

theorem Parsed.ofState_alongside {mode : ReportMode} {first second : State}
    (alike : (Coupling.reporting mode).Alike first second) (tree : Option NodeId)
    (fatal : Option Fatal) :
    (ofState first tree fatal).Alongside mode (ofState second tree fatal) where
  rest := by
    have arena : first.arena = second.arena := alike.arenas
    rw [alike.rest, ← arena]
    rfl
  parallel := alike.reports.1
  mode := alike.reports.2

theorem parse_alongside :
    (parse source options symbols).Alongside mode
      (parse source { options with mode } symbols) := by
  obtain ⟨first, second, tree, fatal, alike, given, other⟩ :=
    (Coupling.reporting mode).parse_ends (fun _ => id)
      (Coupling.reporting_starts source options symbols mode) trivial
  rw [given, other]
  exact Parsed.ofState_alongside alike tree fatal

/-! ### All that is reported -/

def reportsMade : List Diagnostic :=
  (parse source options symbols).report.made.toList

theorem reportsMade_mode :
    reportsMade source { options with mode } symbols = reportsMade source options symbols :=
  congrArg Array.toList (parse_alongside source options symbols mode).parallel.made

theorem parse_records : (parse source options symbols).report.Records :=
  (parse_alongside source options symbols options.mode).parallel.left

/-- A parse that has room for each of its reports keeps them all. -/
theorem parse_captures_all :
    let given := parse source options symbols
    let mode := ReportMode.capture given.report.errors given.report.warnings
    (parse source { options with mode } symbols).report.captured.toList =
      reportsMade source options symbols := by
  intro given mode
  have whole := parse_alongside source options symbols mode
  rw [← reportsMade_mode source options symbols mode]
  exact whole.parallel.right.complete whole.mode (Nat.le_of_eq (whole.parallel.count .error))
    (Nat.le_of_eq (whole.parallel.count .warning))

/-- The mode of the reports decides only what the report holds. In any other mode the
tree, the nodes, the variables, the fatal error and the requests for input are the
same, as are the counts, the files and all that is reported. A capturing report holds
the first errors and the first warnings of all that is reported, in order, and all of it
if there is room; a streaming one has written a line for each. -/
theorem parse_report_mode (source : Bytes) (options : ParseOptions) (symbols : SymbolTable)
    (mode : ReportMode) :
    let given := parse source options symbols
    let other := parse source { options with mode } symbols
    let made := reportsMade source options symbols
    let roomy := ReportMode.capture given.report.errors given.report.warnings
    other = { given with report := other.report } ∧
      other.report.errors = given.report.errors ∧
      other.report.warnings = given.report.warnings ∧
      other.report.map = given.report.map ∧
      reportsMade source { options with mode } symbols = made ∧
      given.report.errors = tally .error made ∧ given.report.warnings = tally .warning made ∧
      (match mode with
        | .capture errors warnings =>
            let kept := other.report.captured.toList
            kept = keepFirst (captureLimit errors warnings) made ∧ kept.Sublist made ∧
              (∀ severity, kept.filter (·.problem.severity = severity) =
                (made.filter (·.problem.severity = severity)).take
                  (captureLimit errors warnings severity)) ∧
              other.report.written = ""
        | .stream =>
            other.report.captured = #[] ∧
              other.report.written = render given.report.map made) ∧
      (parse source { options with mode := roomy } symbols).report.captured.toList = made := by
  intro given other made roomy
  have alongside := parse_alongside source options symbols mode
  have records := alongside.parallel.left
  have same := reportsMade_mode source options symbols mode
  refine ⟨alongside.rest, alongside.parallel.count .error, alongside.parallel.count .warning,
    alongside.parallel.map, same, records.counted .error, records.counted .warning, ?_,
    parse_captures_all source options symbols⟩
  have captured := alongside.parallel.right.captured
  have written := alongside.parallel.right.written
  rw [alongside.mode] at captured written
  cases mode with
  | capture errors warnings =>
      have kept : other.report.captured.toList = keepFirst (captureLimit errors warnings) made :=
        captured.trans (congrArg (keepFirst _) same)
      refine ⟨kept, kept ▸ keepFirst_sublist _ made, fun severity => ?_, written⟩
      rw [kept]
      exact filter_keepFirst _ severity made
  | stream =>
      refine ⟨Array.toList_eq_nil_iff.mp captured, written.trans ?_⟩
      rw [alongside.parallel.map]
      exact congrArg (render given.report.map) same

example :
    (parse (ascii "p -1; 1 +") { mode := .stream } {}).report.written =
      "-:1:3: warning: ambiguous first argument; put parentheses or even spaces\n" ++
        "-:1:10: syntax error, unexpected end of file\n" := by
  decide +kernel

end RubySyntax
