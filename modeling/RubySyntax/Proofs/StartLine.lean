/-
The number of the first line has no part in a parse.

Where the first line of a source has a larger number, the lines of nodes and reports
are larger by the same amount, and nothing else differs. The numbers go into nothing
but nodes and reports: of the tokens only the word for the line could bring one back
into the program, and that word has to be spelled out.
-/

import Mathlib.Algebra.Ring.Nat
import RubySyntax.Proofs.Lexer.Finds
import RubySyntax.Proofs.ReportMode
import RubySyntax.Proofs.Store

namespace RubySyntax

/-! ### Lines that are shifted -/

def Location.shiftLine (distance : Nat) (location : Location) : Location :=
  { location with line := location.line + distance }

def Diagnostic.shiftLine (distance : Nat) (diagnostic : Diagnostic) : Diagnostic :=
  { diagnostic with location := diagnostic.location.shiftLine distance }

def Node.shiftLine (distance : Nat) (node : Node) : Node :=
  { node with line := node.line + distance }

def Arena.shiftLines (arena : Arena) (distance : Nat) : Arena :=
  { arena with slots := arena.slots.map (Option.map (Node.shiftLine distance)) }

variable {distance : Nat}

namespace Arena

variable {arena stored : Arena} {node : Node} {id : NodeId}

theorem get?_shiftLines (arena : Arena) (id : NodeId) :
    (arena.shiftLines distance).get? id = (arena.get? id).map (Node.shiftLine distance) := by
  unfold get? shiftLines
  rw [Array.getElem?_map]
  cases arena.slots[id.slot]? with
  | none => rfl
  | some slot => rfl

theorem shiftLines_withLimit (limit : Nat) :
    (withLimit limit).shiftLines distance = withLimit limit := by
  unfold withLimit shiftLines
  rw [Array.map_empty]

theorem slotCount_shiftLines (arena : Arena) :
    (arena.shiftLines distance).slotCount = arena.slotCount :=
  Array.size_map

theorem alloc_shiftLines (allocated : arena.alloc node = some (id, stored)) :
    (arena.shiftLines distance).alloc (node.shiftLine distance) =
      some (id, stored.shiftLines distance) := by
  unfold alloc at allocated ⊢
  unfold shiftLines
  dsimp only
  split at allocated
  · cases allocated
  · next room =>
      rw [if_neg room]
      cases emptied : arena.free with
      | nil =>
          rw [emptied] at allocated
          obtain ⟨rfl, rfl⟩ := Prod.mk.inj (Option.some.inj allocated)
          dsimp only
          rw [Array.map_push, Array.size_map]
          rfl
      | cons slot free =>
          rw [emptied] at allocated
          obtain ⟨rfl, rfl⟩ := Prod.mk.inj (Option.some.inj allocated)
          dsimp only
          rw [Array.map_setIfInBounds]
          rfl

theorem recycle_shiftLines (arena : Arena) (id : NodeId) :
    (arena.shiftLines distance).recycle id = (arena.recycle id).shiftLines distance := by
  unfold recycle
  rw [get?_shiftLines]
  cases arena.get? id with
  | none => rfl
  | some node =>
      unfold shiftLines
      dsimp only [Option.map_some]
      rw [Array.map_setIfInBounds]
      rfl

end Arena

theorem Node.shiftLine_lineless {f : Node → Node} (lineless : Node.Lineless f) (node : Node) :
    f (node.shiftLine distance) = (f node).shiftLine distance := by
  have line := congrArg Node.line (lineless node node.line)
  change (f node).line = node.line at line
  unfold shiftLine
  rw [lineless, line]

theorem Arena.modify_shiftLines (arena : Arena) (id : NodeId) {f : Node → Node}
    (lineless : Node.Lineless f) :
    (arena.shiftLines distance).modify id f = (arena.modify id f).shiftLines distance := by
  unfold modify
  rw [get?_shiftLines]
  cases arena.get? id with
  | none => rfl
  | some node =>
      unfold shiftLines
      dsimp only [Option.map_some]
      rw [Node.shiftLine_lineless lineless, Array.map_setIfInBounds]
      rfl

/-! ### Places -/

namespace SourceMap

variable (source : Bytes) (name : Option String) (line : Nat)

def ofSource : SourceMap where
  files := #[name.getD unnamed]
  segments := #[{ offset := 0, file := 0, firstLine := line, firstLineIndex := 0 }]
  lineStarts := #[0].appendList (innerLineStarts 0 source)
  openLine :=
    match source.getLast? with
    | some last => last.char != '\n'
    | none => false

theorem addChunk_first :
    ({} : SourceMap).addChunk 0 source name line = ofSource source name line := by
  have fresh : ({} : SourceMap).continues name = false := by cases name <;> rfl
  have added : ({} : SourceMap).addSegment 0 (name.getD unnamed) line =
      { files := #[name.getD unnamed]
        segments := #[{ offset := 0, file := 0, firstLine := line, firstLineIndex := 0 }]
        lineStarts := #[0] } := by
    unfold addSegment addFile
    rw [Array.findIdx?_empty]
    rfl
  unfold addChunk
  rw [fresh, if_neg Bool.false_ne_true, added]
  rfl

variable {source name line}

theorem ofSource_resembles (other : Nat) :
    (ofSource source name line).Resembles (ofSource source name other) :=
  ⟨rfl, rfl, by simp [ofSource, Segment.unnumbered]⟩

/-- All positions lie in the one segment, and lines are counted from its first. -/
theorem ofSource_locate (position : Nat) :
    let index := (ofSource source name line).lineStarts.countP (· ≤ position) - 1
    (ofSource source name line).locate position =
      { file := 0
        line := wrap (line + index)
        column := wrap (wrap (position -
          ((ofSource source name line).lineStarts[index]?).getD 0) + 1) } := by
  have segment : (ofSource source name line).segments[
      (ofSource source name line).segments.countP (·.offset ≤ position) - 1]? =
        some { offset := 0, file := 0, firstLine := line, firstLineIndex := 0 } := by
    have one : (ofSource source name line).segments.countP (·.offset ≤ position) ≤ 1 :=
      Array.countP_le_size
    rw [Nat.sub_eq_zero_of_le one]
    rfl
  unfold locate
  dsimp only
  rw [segment]
  dsimp only
  rw [Nat.max_zero, Nat.sub_zero]

theorem length_innerLineStarts_le (offset : Nat) (bytes : Bytes) :
    (innerLineStarts offset bytes).length ≤ bytes.count 0x0A := by
  fun_induction innerLineStarts offset bytes with
  | case1 => exact Nat.zero_le _
  | case2 => exact Nat.zero_le _
  | case3 offset byte next rest lineFeed ih =>
      rw [Byte.eq_of_lineFeed (eq_of_beq lineFeed), List.length_cons, List.count_cons_self]
      exact Nat.succ_le_succ ih
  | case4 offset byte next rest other ih =>
      exact Nat.le_trans ih List.count_le_count_cons

/-- Below the bound on lines a larger first line makes all lines larger. -/
theorem ofSource_shift (bound : line + distance + source.count 0x0A < 2 ^ 32)
    (position : Nat) : (ofSource source name (line + distance)).locate position =
      ((ofSource source name line).locate position).shiftLine distance := by
  let index := (ofSource source name line).lineStarts.countP (· ≤ position) - 1
  have inside : index ≤ source.count 0x0A := by
    have counted : (ofSource source name line).lineStarts.countP (· ≤ position) ≤
        (ofSource source name line).lineStarts.size := Array.countP_le_size
    have size : (ofSource source name line).lineStarts.size =
        1 + (innerLineStarts 0 source).length := by
      simp [ofSource, Nat.add_comm]
    have starts := length_innerLineStarts_le 0 source
    omega
  have larger : wrap (line + distance + index) = wrap (line + index) + distance := by
    unfold wrap UInt32.size
    rw [Nat.mod_eq_of_lt (by omega), Nat.mod_eq_of_lt (by omega)]
    omega
  rw [ofSource_locate, ofSource_locate]
  unfold Location.shiftLine
  dsimp only
  rw [← larger]
  rfl

end SourceMap

/-! ### Reports -/

structure Report.Shifted (distance : Nat) (first second : Report) : Prop where
  mode : second.mode = first.mode
  errors : second.errors = first.errors
  warnings : second.warnings = first.warnings
  captured : second.captured = first.captured.map (Diagnostic.shiftLine distance)
  made : second.made = first.made.map (Diagnostic.shiftLine distance)
  map : first.map.Resembles second.map
  locate : ∀ position,
    second.map.locate position = (first.map.locate position).shiftLine distance

namespace Report.Shifted

variable {first second : Report}

theorem count (shifted : first.Shifted distance second) (severity : Severity) :
    second.count severity = first.count severity := by
  cases severity with
  | error => exact shifted.errors
  | warning => exact shifted.warnings

theorem diagnose (shifted : first.Shifted distance second) (span : Span) (problem : Problem) :
    second.diagnose span problem = (first.diagnose span problem).shiftLine distance := by
  unfold Report.diagnose
  rw [shifted.locate]
  rfl

theorem deliver (shifted : first.Shifted distance second) (diagnostic : Diagnostic) :
    (second.deliver (diagnostic.shiftLine distance)).captured =
      (first.deliver diagnostic).captured.map (Diagnostic.shiftLine distance) := by
  cases mode : first.mode with
  | stream =>
      rw [Report.deliver_stream mode, Report.deliver_stream (shifted.mode.trans mode)]
      exact shifted.captured
  | capture errorLimit warningLimit =>
      have severity : (diagnostic.shiftLine distance).problem = diagnostic.problem := rfl
      rw [Report.deliver_capture mode, Report.deliver_capture (shifted.mode.trans mode), severity,
        shifted.count]
      split
      · dsimp only
        rw [shifted.captured, Array.map_push]
      · exact shifted.captured

theorem add (shifted : first.Shifted distance second) (span : Span) (problem : Problem) :
    (first.add span problem).Shifted distance (second.add span problem) := by
  rw [add_eq, add_eq]
  refine ⟨shifted.mode, ?_, ?_, ?_, ?_, shifted.map, shifted.locate⟩
  · dsimp only
    rw [shifted.errors]
  · dsimp only
    rw [shifted.warnings]
  · dsimp only
    rw [shifted.diagnose]
    exact shifted.deliver _
  · dsimp only
    rw [shifted.diagnose, shifted.made, Array.map_push]

end Report.Shifted

/-! ### Two runs with other first lines -/

def Watch.wordless (source : Bytes) : Watch where
  always input _ _ := input.Received source []
  between _ _ tokens lookahead _ :=
    (∀ token ∈ tokens.head?, token.kind ≠ .keyword .lineWord) ∧
      ∀ token ∈ lookahead, token.kind ≠ .keyword .lineWord
  advance distance received := received.advance distance
  ask received empty := received.ask empty
  fetch received answer := received.append answer
  add _ _ received := received
  addBetween _ _ wordless := wordless
  look wordless last := by
    refine ⟨wordless.1, fun token same => ?_⟩
    rw [← Option.some.inj same]
    exact wordless.1 _ last
  take wordless := ⟨wordless.1, nofun⟩
  wait _ wordless := wordless

theorem supplied_nil (source : Bytes) : supplied source [] = source :=
  List.append_nil source

theorem Input.Received.unanswered {source : Bytes} {input : Input}
    (received : input.Received source []) : input.answers.head?.join = none := by
  obtain ⟨count, left, -⟩ := received.pieces
  rw [left, List.drop_nil]
  rfl

def Coupling.shifting (source : Bytes) (distance : Nat) : Coupling where
  watch := .wordless source
  reports := Report.Shifted distance
  arenas first second := second = first.shiftLines distance
  depths first second := second = first
  excused _ := False
  map shifted := shifted.map
  add span problem shifted := shifted.add span problem
  fetch _ received answer := by
    rw [received.unanswered] at answer
    cases answer
  slots same := by
    rw [same]
    refine ⟨Arena.slotCount_shiftLines _, fun id => ?_⟩
    rw [Arena.get?_shiftLines, Option.map_map]
    rfl
  store shifted same allocated := by
    refine ⟨_, ?_, rfl⟩
    rw [same, ← Arena.alloc_shiftLines allocated]
    unfold SourceMap.place
    rw [shifted.locate]
    rfl
  full same full := by
    rw [same]
    have noRoom := Arena.alloc_eq_none.mp full
    exact .inr ⟨Arena.alloc_eq_none.mpr noRoom, rfl⟩
  recycle id same := by rw [same, Arena.recycle_shiftLines]
  modify id _ lineless same := by rw [same, Arena.modify_shiftLines _ id lineless]
  allowed same below := same ▸ below
  tooDeep _ same _ := .inr same

theorem Coupling.shifting_tracks {source : Bytes} (unspelled : ¬ ascii "__LINE__" <:+: source)
    (distance : Nat) : (shifting source distance).Tracks where
  read {state after token} received wordless run _ := by
    have finds := (Scan.nextToken_finds received).post run
    have other : token.kind ≠ .keyword .lineWord := by
      intro word
      have spelled := (finds.lineWord word).isInfix.trans (List.drop_suffix _ _).isInfix
      rw [supplied_nil] at spelled
      exact unspelled spelled
    refine ⟨finds.undisturbed.received source [] received, ?_, ?_⟩
    · rintro _ ⟨⟩
      exact other
    · intro waiting ahead
      apply wordless.2
      rw [← finds.undisturbed.lookahead]
      exact ahead
  traces wordless ahead word := absurd word (wordless.2 _ ahead)

/-! ### Parses with other first lines -/

structure Parsed.Shifted (distance : Nat) (given other : Parsed) : Prop where
  rest : other =
    { given with
      arena := given.arena.shiftLines distance
      report := other.report }
  report : given.report.Shifted distance other.report

section

variable {source : Bytes} {first second : State}

theorem Parsed.ofState_shifted (alike : (Coupling.shifting source distance).Alike first second)
    (tree : Option NodeId) (fatal : Option Fatal) :
    (ofState first tree fatal).Shifted distance (ofState second tree fatal) where
  rest := by
    have arena : second.arena = first.arena.shiftLines distance := alike.arenas
    rw [alike.rest, arena]
    rfl
  report := alike.reports

end

section

variable {source : Bytes} {options : ParseOptions} (symbols : SymbolTable)
  (alone : options.answers = []) (unspelled : ¬ ascii "__LINE__" <:+: source)
  (bound : options.line + distance + source.count 0x0A < 2 ^ 32)

include alone bound in
theorem Coupling.shifting_starts :
    (shifting source distance).Alike (State.start source options symbols)
      (State.start source { options with line := options.line + distance } symbols) where
  reports := by
    unfold State.start
    dsimp only
    rw [SourceMap.addChunk_first, SourceMap.addChunk_first]
    exact ⟨rfl, rfl, rfl, Array.map_empty.symm, Array.map_empty.symm,
      SourceMap.ofSource_resembles _, SourceMap.ofSource_shift bound⟩
  arenas := (Arena.shiftLines_withLimit options.maxNodes).symm
  depths := rfl
  rest := rfl
  always := by
    have received := Input.received_ofBytes source options.answers
    rw [alone] at received
    unfold State.start
    dsimp only
    rw [alone]
    exact received

include alone unspelled bound in
theorem parse_shifted :
    (parse source options symbols).Shifted distance
      (parse source { options with line := options.line + distance } symbols) := by
  have := Coupling.shifting_tracks unspelled distance
  obtain ⟨first, second, tree, fatal, alike, given, other⟩ :=
    (Coupling.shifting source distance).parse_ends (fun _ => id)
      (Coupling.shifting_starts symbols alone bound) ⟨nofun, nofun⟩
  rw [given, other]
  exact Parsed.ofState_shifted alike tree fatal

include alone unspelled bound in
theorem reportsMade_shifted :
    reportsMade source { options with line := options.line + distance } symbols =
      (reportsMade source options symbols).map (Diagnostic.shiftLine distance) := by
  unfold reportsMade
  rw [(parse_shifted symbols alone unspelled bound).report.made, Array.toList_map]

end

/-- The number of the first line decides only lines. In a source that no more input
follows and that does not spell the word for the line, a first line with a larger
number makes the lines of all nodes and of all reports larger by as much, as long as
no line reaches the bound on lines. The tree, the ranges, the columns, the files, the
variables, the counts and all dumps are the same. -/
theorem parse_start_line {source : Bytes} {options : ParseOptions} (symbols : SymbolTable)
    (alone : options.answers = []) (unspelled : ¬ ascii "__LINE__" <:+: source)
    (bound : options.line + distance + source.count 0x0A < 2 ^ 32) :
    let given := parse source options symbols
    let other := parse source { options with line := options.line + distance } symbols
    let made := reportsMade source options symbols
    other = { given with arena := given.arena.shiftLines distance, report := other.report } ∧
      (∀ id, other.arena.get? id = (given.arena.get? id).map (Node.shiftLine distance)) ∧
      (∀ id, other.dumpAt id = given.dumpAt id) ∧
      other.report.errors = given.report.errors ∧
      other.report.warnings = given.report.warnings ∧
      other.report.map.files = given.report.map.files ∧
      other.report.captured = given.report.captured.map (Diagnostic.shiftLine distance) ∧
      reportsMade source { options with line := options.line + distance } symbols =
        made.map (Diagnostic.shiftLine distance) ∧
      (options.mode = .stream → other.report.written =
        render other.report.map (made.map (Diagnostic.shiftLine distance))) := by
  have shifted := parse_shifted symbols alone unspelled bound
  have made := reportsMade_shifted symbols alone unspelled bound
  have arena : (parse source { options with line := options.line + distance } symbols).arena =
      (parse source options symbols).arena.shiftLines distance := by
    rw [shifted.rest]
  have names : (parse source { options with line := options.line + distance } symbols).symbols =
      (parse source options symbols).symbols := by
    rw [shifted.rest]
  refine ⟨shifted.rest, fun id => ?_, fun id => ?_, shifted.report.errors,
    shifted.report.warnings, shifted.report.map.files, shifted.report.captured, made, ?_⟩
  · rw [arena, Arena.get?_shiftLines]
  · unfold Parsed.dumpAt
    rw [arena, names]
    apply Arena.dump_congr (Arena.slotCount_shiftLines _)
    intro id
    rw [Arena.get?_shiftLines, Option.map_map]
    rfl
  · intro mode
    let options' : ParseOptions := { options with line := options.line + distance }
    have written := (parse_records source options' symbols).written
    have streams : (parse source options' symbols).report.mode = options.mode :=
      (parse_alongside source options' symbols options.mode).mode
    rw [streams, mode] at written
    exact written.trans (congrArg (render _) made)

/-- The second line of a sum lacks an operand, wherever the first one is counted. -/
theorem parse_start_line_sum :
    ({} : ParseOptions).answers = [] ∧ ¬ ascii "__LINE__" <:+: ascii "1 +\n" ∧
      1 + 5 + (ascii "1 +\n").count 0x0A < 2 ^ 32 ∧
      (parse (ascii "1 +\n") {} {}).report.captured.map Diagnostic.location = #[⟨0, 1, 5⟩] ∧
      (parse (ascii "1 +\n") { line := 6 } {}).report.captured =
        (parse (ascii "1 +\n") {} {}).report.captured.map (Diagnostic.shiftLine 5) := by
  have unspelled : ¬ ascii "__LINE__" <:+: ascii "1 +\n" := by decide
  have bound : 1 + 5 + (ascii "1 +\n").count 0x0A < 2 ^ 32 := by decide
  obtain ⟨-, -, -, -, -, -, captured, -, -⟩ :=
    @parse_start_line 5 (ascii "1 +\n") {} {} rfl unspelled bound
  exact ⟨rfl, unspelled, bound, by decide +kernel, captured⟩

end RubySyntax
