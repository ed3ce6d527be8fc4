/-
What a report holds of all the problems that have been reported.

A report may keep only some of them, or write them out and keep none. Beside that
stand all of them, in the order in which they were reported, and `Report.Records`
says what became of each.
-/

import Mathlib.Data.List.Induction
import Mathlib.Logic.Function.Basic
import RubySyntax.Proofs.Lexer.Basic

namespace RubySyntax

/-! ### The first diagnostics of each severity -/

def tally (severity : Severity) (made : List Diagnostic) : Nat :=
  made.countP (·.problem.severity = severity)

/-- The first diagnostics of each severity, up to its limit, in order. -/
def keepFirst (limit : Severity → Nat) : List Diagnostic → List Diagnostic
  | [] => []
  | diagnostic :: later =>
      let severity := diagnostic.problem.severity
      if limit severity = 0 then keepFirst limit later
      else
        diagnostic ::
          keepFirst (Function.update limit severity (limit severity - 1)) later

theorem keepFirst_sublist (limit : Severity → Nat) (made : List Diagnostic) :
    (keepFirst limit made).Sublist made := by
  induction made generalizing limit with
  | nil => exact .slnil
  | cons diagnostic later ih =>
      unfold keepFirst
      dsimp only
      split
      · exact (ih limit).cons diagnostic
      · exact (ih _).cons_cons diagnostic

/-- Of each severity just the first ones are kept, as many as its limit says. -/
theorem filter_keepFirst (limit : Severity → Nat) (severity : Severity)
    (made : List Diagnostic) :
    (keepFirst limit made).filter (·.problem.severity = severity) =
      (made.filter (·.problem.severity = severity)).take (limit severity) := by
  induction made generalizing limit with
  | nil => simp [keepFirst]
  | cons diagnostic later ih =>
      unfold keepFirst
      dsimp only
      by_cases same : diagnostic.problem.severity = severity
      · subst same
        by_cases full : limit diagnostic.problem.severity = 0
        · rw [if_pos full, ih, full]
          simp
        · rw [if_neg full, List.filter_cons_of_pos (by simp), List.filter_cons_of_pos (by simp),
            ih, Function.update_self, List.take_cons (Nat.pos_of_ne_zero full)]
      · rw [List.filter_cons_of_neg (by simpa using same)]
        split
        · exact ih limit
        · rw [List.filter_cons_of_neg (by simpa using same), ih,
            Function.update_of_ne (Ne.symm same)]

theorem keepFirst_append_singleton (limit : Severity → Nat) (made : List Diagnostic)
    (last : Diagnostic) :
    keepFirst limit (made ++ [last]) =
      if tally last.problem.severity made < limit last.problem.severity then
        keepFirst limit made ++ [last]
      else keepFirst limit made := by
  induction made generalizing limit with
  | nil =>
      have none_counted : tally last.problem.severity [] = 0 := rfl
      rw [none_counted, List.nil_append]
      unfold keepFirst
      by_cases full : limit last.problem.severity = 0
      · rw [if_pos full, full, if_neg (Nat.lt_irrefl 0)]
        rfl
      · rw [if_neg full, if_pos (Nat.pos_of_ne_zero full)]
        rfl
  | cons diagnostic later ih =>
      rw [List.cons_append]
      unfold keepFirst
      dsimp only
      by_cases same : diagnostic.problem.severity = last.problem.severity
      · have counted : tally last.problem.severity (diagnostic :: later) =
            tally last.problem.severity later + 1 :=
          List.countP_cons_of_pos (by simpa using same)
        rw [ih, ih, counted, same, Function.update_self]
        by_cases full : limit last.problem.severity = 0
        · rw [if_pos full, if_pos full, full, if_neg (Nat.not_lt_zero _),
            if_neg (Nat.not_lt_zero _)]
        · rw [if_neg full, if_neg full]
          by_cases room : tally last.problem.severity later + 1 < limit last.problem.severity
          · rw [if_pos room, if_pos (by omega), List.cons_append]
          · rw [if_neg room, if_neg (by omega)]
      · have counted : tally last.problem.severity (diagnostic :: later) =
            tally last.problem.severity later :=
          List.countP_cons_of_neg (by simpa using same)
        rw [ih, ih, counted, Function.update_of_ne (Ne.symm same)]
        split
        · rfl
        · split
          · rfl
          · rfl

/-- Limits that no severity goes beyond keep everything. -/
theorem keepFirst_of_tally_le {limit : Severity → Nat} {made : List Diagnostic}
    (enough : ∀ severity, tally severity made ≤ limit severity) :
    keepFirst limit made = made := by
  induction made using List.reverseRecOn with
  | nil => rfl
  | append_singleton made last ih =>
      have counted (severity : Severity) : tally severity (made ++ [last]) =
          tally severity made + tally severity [last] :=
        List.countP_append
      have room := enough last.problem.severity
      have one : tally last.problem.severity [last] = 1 := by simp [tally]
      rw [counted, one] at room
      rw [keepFirst_append_singleton, if_pos (Nat.lt_of_succ_le room), ih]
      intro severity
      have := enough severity
      rw [counted] at this
      omega

/-! ### Reports and what was reported -/

def captureLimit (errors warnings : Nat) : Severity → Nat
  | .error => errors
  | .warning => warnings

def render (map : SourceMap) (made : List Diagnostic) : String :=
  String.join (made.map fun diagnostic =>
    map.fileName diagnostic.location.file ++ ":" ++ diagnostic.describe ++ "\n")

theorem render_append_singleton (map : SourceMap) (made : List Diagnostic) (last : Diagnostic) :
    render map (made ++ [last]) =
      render map made ++
        (map.fileName last.location.file ++ ":" ++ last.describe ++ "\n") := by
  unfold render
  rw [List.map_append, String.join_append]
  simp

def Report.diagnose (report : Report) (span : Span) (problem : Problem) : Diagnostic :=
  { problem, span, location := report.map.locate span.start }

/-- A report counts all that has been reported; it has kept as much of that as its
limits say, or written out each. -/
structure Report.Records (report : Report) : Prop where
  counted : ∀ severity, report.count severity = tally severity report.made.toList
  captured : report.captured.toList =
    match report.mode with
    | .capture errors warnings =>
        keepFirst (captureLimit errors warnings) report.made.toList
    | .stream => []
  written : report.written =
    match report.mode with
    | .capture _ _ => ""
    | .stream => render report.map report.made.toList
  placed : ∀ diagnostic ∈ report.made.toList, diagnostic.location.file < report.map.files.size
  map : report.map.Sound
  started : 0 < report.map.segments.size

/-! ### Files -/

namespace SourceMap

variable {map : SourceMap}

theorem Sound.locate_file (sound : map.Sound) (started : 0 < map.segments.size)
    (position : Nat) : (map.locate position).file < map.files.size := by
  unfold locate
  have reached : map.segments.countP (·.offset ≤ position) ≤ map.segments.size :=
    Array.countP_le_size
  dsimp only
  split
  · next missing =>
      rw [Array.getElem?_eq_none_iff] at missing
      omega
  · next segment found => exact sound.file segment (Array.mem_of_getElem? found)

theorem addChunk_files (map : SourceMap) (offset : Nat) (bytes : Bytes) (name : Option String)
    (line : Nat) : ∃ more, (map.addChunk offset bytes name line).files = map.files ++ more := by
  have named (name : String) : ∃ more, (map.addFile name).2.files = map.files ++ more := by
    unfold addFile
    split
    · exact ⟨#[], by simp⟩
    · exact ⟨#[name], by simp⟩
  unfold addChunk
  dsimp only
  split
  · unfold continueFile
    split
    · exact ⟨#[], by simp⟩
    · exact ⟨#[], by simp⟩
  · exact named _

theorem segments_le_addChunk (map : SourceMap) (offset : Nat) (bytes : Bytes)
    (name : Option String) (line : Nat) :
    map.segments.size ≤ (map.addChunk offset bytes name line).segments.size := by
  have kept (name : String) : (map.addFile name).2.segments = map.segments := by
    unfold addFile
    split
    · rfl
    · rfl
  unfold addChunk
  dsimp only
  split
  · unfold continueFile
    split
    · exact Nat.le_refl _
    · exact Nat.le_refl _
  · change map.segments.size ≤ ((map.addFile _).2.segments.push _).size
    rw [Array.size_push, kept]
    exact Nat.le_succ _

theorem segments_addChunk_pos (offset : Nat) (bytes : Bytes) (name : Option String)
    (line : Nat) : 0 < (({} : SourceMap).addChunk offset bytes name line).segments.size := by
  change 0 < (Array.push _ _).size
  rw [Array.size_push]
  exact Nat.succ_pos _

end SourceMap

/-! ### What a report makes of one more problem -/

namespace Report

variable {report : Report} {made : List Diagnostic}

theorem deliver_capture {errors warnings : Nat} (mode : report.mode = .capture errors warnings)
    (diagnostic : Diagnostic) :
    report.deliver diagnostic =
      if report.count diagnostic.problem.severity <
          captureLimit errors warnings diagnostic.problem.severity then
        { report with captured := report.captured.push diagnostic }
      else report := by
  unfold deliver
  rw [mode]
  cases diagnostic.problem.severity with
  | error => rfl
  | warning => rfl

theorem deliver_stream (mode : report.mode = .stream) (diagnostic : Diagnostic) :
    report.deliver diagnostic =
      { report with
        written := report.written ++ (report.map.fileName diagnostic.location.file ++ ":" ++
          diagnostic.describe ++ "\n") } := by
  unfold deliver
  rw [mode]

theorem deliver_eq (report : Report) (diagnostic : Diagnostic) :
    ∃ captured written, report.deliver diagnostic = { report with captured, written } := by
  unfold deliver
  split
  · dsimp only
    split <;> split <;> exact ⟨_, _, rfl⟩
  · exact ⟨_, _, rfl⟩

theorem add_eq (report : Report) (span : Span) (problem : Problem) :
    report.add span problem =
      { report with
        errors := report.errors + if problem.severity = .error then 1 else 0
        warnings := report.warnings + if problem.severity = .warning then 1 else 0
        captured := (report.deliver (report.diagnose span problem)).captured
        written := (report.deliver (report.diagnose span problem)).written
        made := report.made.push (report.diagnose span problem) } := by
  obtain ⟨captured, written, delivered⟩ := report.deliver_eq (report.diagnose span problem)
  unfold add
  change (match problem.severity with
    | .error => ({ report.deliver (report.diagnose span problem) with
        errors := (report.deliver (report.diagnose span problem)).errors + 1
        made := report.made.push (report.diagnose span problem) } : Report)
    | .warning => { report.deliver (report.diagnose span problem) with
        warnings := (report.deliver (report.diagnose span problem)).warnings + 1
        made := report.made.push (report.diagnose span problem) }) = _
  rw [delivered]
  cases problem.severity <;> rfl

theorem made_add (report : Report) (span : Span) (problem : Problem) :
    (report.add span problem).made = report.made.push (report.diagnose span problem) := by
  rw [add_eq]

theorem made_isPrefix_add (report : Report) (span : Span) (problem : Problem) :
    report.made.toList <+: (report.add span problem).made.toList := by
  rw [made_add, Array.toList_push]
  exact List.prefix_append _ _

theorem Records.add (records : report.Records) (span : Span) (problem : Problem) :
    (report.add span problem).Records := by
  let made := report.made.toList
  have last : tally problem.severity made = report.count problem.severity :=
    (records.counted problem.severity).symm
  have pushed : (report.made.push (report.diagnose span problem)).toList =
      made ++ [report.diagnose span problem] :=
    Array.toList_push
  rw [add_eq]
  constructor
  · intro severity
    have counted := records.counted severity
    dsimp only
    rw [pushed]
    unfold tally at counted ⊢
    rw [List.countP_append, ← counted]
    cases severity <;> cases same : problem.severity <;> simp [count, diagnose, same]
  · have captured := records.captured
    dsimp only
    cases mode : report.mode with
    | stream =>
        rw [mode] at captured
        rw [deliver_stream mode]
        exact captured
    | capture errors warnings =>
        rw [mode] at captured
        dsimp only at captured ⊢
        rw [deliver_capture mode, pushed, keepFirst_append_singleton, ← captured]
        change (if report.count problem.severity < captureLimit errors warnings problem.severity
          then _ else _ : Report).captured.toList =
            if tally problem.severity made < captureLimit errors warnings problem.severity
            then _ else _
        rw [last]
        by_cases room : report.count problem.severity <
            captureLimit errors warnings problem.severity
        · rw [if_pos room, if_pos room]
          exact Array.toList_push
        · rw [if_neg room, if_neg room]
  · have written := records.written
    dsimp only
    cases mode : report.mode with
    | stream =>
        rw [mode] at written
        dsimp only at written ⊢
        rw [deliver_stream mode, pushed, render_append_singleton, ← written]
    | capture errors warnings =>
        rw [mode] at written
        rw [deliver_capture mode]
        split
        · exact written
        · exact written
  · intro diagnostic member
    dsimp only at member
    rw [pushed] at member
    rcases List.mem_append.mp member with earlier | new
    · exact records.placed diagnostic earlier
    · rw [List.mem_singleton.mp new]
      exact records.map.locate_file records.started span.start
  · exact records.map
  · exact records.started

/-- Lines that have been written stay right when more files are known. -/
theorem render_files {map larger : SourceMap} {more : Array String}
    (files : larger.files = map.files ++ more)
    (placed : ∀ diagnostic ∈ made, diagnostic.location.file < map.files.size) :
    render larger made = render map made := by
  unfold render
  congr 1
  apply List.map_congr_left
  intro diagnostic member
  have same : larger.fileName diagnostic.location.file =
      map.fileName diagnostic.location.file := by
    unfold SourceMap.fileName
    rw [files, Array.getElem?_append_left (placed diagnostic member)]
  rw [same]

theorem Records.addChunk (records : report.Records) (offset : Nat) (bytes : Bytes)
    (name : Option String) (line : Nat) :
    { report with map := report.map.addChunk offset bytes name line }.Records := by
  obtain ⟨more, files⟩ := report.map.addChunk_files offset bytes name line
  constructor
  · exact records.counted
  · exact records.captured
  · refine records.written.trans ?_
    dsimp only
    rw [render_files files records.placed]
  · intro diagnostic member
    have known := records.placed diagnostic member
    dsimp only
    rw [files, Array.size_append]
    omega
  · exact records.map.addChunk offset bytes name line
  · exact Nat.lt_of_lt_of_le records.started (report.map.segments_le_addChunk ..)

end Report

theorem State.start_records (source : Bytes) (options : ParseOptions) (symbols : SymbolTable) :
    (State.start source options symbols).report.Records where
  counted severity := by cases severity <;> rfl
  captured := by
    change [] = match options.mode with | .capture _ _ => _ | .stream => _
    cases options.mode with
    | capture _ _ => rfl
    | stream => rfl
  written := by
    change "" = match options.mode with | .capture _ _ => _ | .stream => _
    cases options.mode with
    | capture _ _ => rfl
    | stream => rfl
  placed := nofun
  map := SourceMap.Sound.addChunk ⟨by simp, by simp⟩ 0 source options.fileName options.line
  started := SourceMap.segments_addChunk_pos ..

end RubySyntax
