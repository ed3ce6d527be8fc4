/-
The map of the source as pieces of input are added to it.

A piece adds to the files, segments and line starts of the map and takes nothing away. What it
adds lies at its offset or after it, so that the place of an earlier position stays what it was.
-/

import Mathlib.Data.List.DropRight
import Mathlib.Data.List.Induction
import RubySyntax.Proofs.Lexer.Gap
import RubySyntax.Proofs.Report

namespace RubySyntax

namespace SourceMap

variable {map later : SourceMap} {bytes more : Bytes} {offset position : Nat}

/-! ### Where lines start in a text -/

/-- Where lines start in a text after its first byte, one after a last line feed included. -/
def startsIn (offset : Nat) (bytes : Bytes) : List Nat :=
  innerLineStarts offset bytes ++
    if bytes.getLast? = some 0x0A then [offset + bytes.length] else []

theorem char_eq_lineFeed {byte : Byte} : byte.char = '\n' ↔ byte = 0x0A :=
  ⟨Byte.eq_of_lineFeed, fun same => same ▸ rfl⟩

/-- The last line feed of a text ends a line once more follows. -/
theorem innerLineStarts_append (offset : Nat) (bytes : Bytes) (present : more ≠ []) :
    innerLineStarts offset (bytes ++ more) =
      startsIn offset bytes ++ innerLineStarts (offset + bytes.length) more := by
  unfold startsIn
  fun_induction innerLineStarts offset bytes with
  | case1 => simp
  | case2 offset byte =>
      obtain ⟨next, rest, rfl⟩ := List.exists_cons_of_ne_nil present
      simp only [List.cons_append, List.nil_append, innerLineStarts, beq_iff_eq, char_eq_lineFeed,
        List.getLast?_singleton, Option.some.injEq, List.length_singleton]
      split
      · rfl
      · rfl
  | case3 offset byte next rest lineFeed ih =>
      rw [List.cons_append, List.cons_append, innerLineStarts, if_pos lineFeed,
        ← List.cons_append, ih, List.length_cons, List.getLast?_cons_cons, Nat.add_assoc offset,
        Nat.add_comm 1]
      rfl
  | case4 offset byte next rest other ih =>
      rw [List.cons_append, List.cons_append, innerLineStarts, if_neg other,
        ← List.cons_append, ih, List.length_cons, List.getLast?_cons_cons, Nat.add_assoc offset,
        Nat.add_comm 1]
      rfl

theorem startsIn_concat (offset : Nat) (bytes : Bytes) (byte : Byte) :
    startsIn offset (bytes ++ [byte]) =
      startsIn offset bytes ++ if byte = 0x0A then [offset + bytes.length + 1] else [] := by
  conv_lhs => unfold startsIn
  rw [innerLineStarts_append offset bytes (List.cons_ne_nil byte []), List.getLast?_concat,
    List.length_append, innerLineStarts, List.append_nil]
  simp only [Option.some.injEq]
  rfl

theorem length_startsIn (offset : Nat) (bytes : Bytes) :
    (startsIn offset bytes).length = bytes.count 0x0A := by
  induction bytes using List.reverseRecOn with
  | nil => rfl
  | append_singleton bytes byte ih =>
      rw [startsIn_concat, List.length_append, List.count_append, ih, List.count_singleton]
      by_cases lineFeed : byte = 0x0A
      · rw [if_pos lineFeed, if_pos (beq_iff_eq.mpr lineFeed)]
        rfl
      · rw [if_neg lineFeed, if_neg (mt eq_of_beq lineFeed)]
        rfl

theorem getLast?_startsIn (offset : Nat) (bytes : Bytes) :
    (offset :: startsIn offset bytes).getLast? =
      some (offset + bytes.length - (bytes.rtakeWhile (· != 0x0A)).length) := by
  induction bytes using List.reverseRecOn with
  | nil => rfl
  | append_singleton bytes byte ih =>
      rw [startsIn_concat, ← List.cons_append, List.rtakeWhile_concat, List.length_append,
        List.length_singleton]
      by_cases lineFeed : byte = 0x0A
      · subst lineFeed
        rw [if_pos rfl, List.getLast?_concat]
        rfl
      · rw [if_neg lineFeed, List.append_nil, ih, if_pos (bne_iff_ne.mpr lineFeed),
          List.length_append, List.length_singleton]
        congr 1
        omega

theorem mem_innerLineStarts {start : Nat} (member : start ∈ innerLineStarts offset bytes) :
    offset < start ∧ start < offset + bytes.length := by
  fun_induction innerLineStarts offset bytes with
  | case1 => cases member
  | case2 => cases member
  | case3 offset byte next rest lineFeed ih =>
      rw [List.length_cons]
      rcases List.mem_cons.mp member with rfl | member
      · rw [List.length_cons]
        omega
      · have bounds := ih member
        omega
  | case4 offset byte next rest other ih =>
      have bounds := ih member
      rw [List.length_cons]
      omega

theorem startsIn_le {start : Nat} (member : start ∈ startsIn offset bytes) :
    start ≤ offset + bytes.length := by
  unfold startsIn at member
  rcases List.mem_append.mp member with inner | last
  · exact Nat.le_of_lt (mem_innerLineStarts inner).2
  · split at last
    · exact Nat.le_of_eq (List.mem_singleton.mp last)
    · cases last

/-! ### Maps that grow -/

structure GrowsFrom (stop : Nat) (map later : SourceMap) : Prop where
  files : ∃ more, later.files = map.files ++ more
  segments : ∃ more, later.segments.toList = map.segments.toList ++ more ∧
    ∀ segment ∈ more, stop ≤ segment.offset
  lineStarts : ∃ more, later.lineStarts.toList = map.lineStarts.toList ++ more ∧
    ∀ start ∈ more, stop ≤ start

namespace GrowsFrom

variable {stop next : Nat} {last : SourceMap}

theorem refl (stop : Nat) (map : SourceMap) : GrowsFrom stop map map :=
  ⟨⟨#[], Array.append_empty.symm⟩, ⟨[], (List.append_nil _).symm, nofun⟩,
    ⟨[], (List.append_nil _).symm, nofun⟩⟩

theorem trans (grows : GrowsFrom stop map later) (goesOn : GrowsFrom next later last)
    (ordered : stop ≤ next) : GrowsFrom stop map last := by
  obtain ⟨⟨moreFiles, files⟩, ⟨moreSegments, segments, segmentsFrom⟩,
    ⟨moreStarts, starts, startsFrom⟩⟩ := grows
  obtain ⟨⟨lastFiles, files'⟩, ⟨lastSegments, segments', segmentsFrom'⟩,
    ⟨lastStarts, starts', startsFrom'⟩⟩ := goesOn
  refine ⟨⟨moreFiles ++ lastFiles, ?_⟩, ⟨moreSegments ++ lastSegments, ?_, ?_⟩,
    ⟨moreStarts ++ lastStarts, ?_, ?_⟩⟩
  · rw [files', files, Array.append_assoc]
  · rw [segments', segments, List.append_assoc]
  · intro segment member
    rcases List.mem_append.mp member with old | new
    · exact segmentsFrom segment old
    · exact Nat.le_trans ordered (segmentsFrom' segment new)
  · rw [starts', starts, List.append_assoc]
  · intro start member
    rcases List.mem_append.mp member with old | new
    · exact startsFrom start old
    · exact Nat.le_trans ordered (startsFrom' start new)

theorem file (grows : GrowsFrom stop map later) {number : Nat} {name : String}
    (known : map.files[number]? = some name) : later.files[number]? = some name := by
  obtain ⟨more, files⟩ := grows.files
  rw [files, Array.getElem?_append_left (Array.getElem?_eq_some_iff.mp known).1, known]

theorem segments_pos (grows : GrowsFrom stop map later) (started : 0 < map.segments.size) :
    0 < later.segments.size := by
  obtain ⟨more, segments, -⟩ := grows.segments
  rw [← Array.length_toList] at started ⊢
  rw [segments, List.length_append]
  exact Nat.add_pos_left started _

/-- Of numbers that go on above a bound, those up to the bound are counted as before. -/
private theorem countP_append_above {α : Type} {items more : List α} {value : α → Nat}
    (above : ∀ item ∈ more, stop ≤ value item) (before : position < stop) :
    (items ++ more).countP (value · ≤ position) = items.countP (value · ≤ position) := by
  have none : more.countP (value · ≤ position) = 0 := by
    refine List.countP_eq_zero.mpr fun item member => ?_
    have here := above item member
    simp only [decide_eq_true_eq]
    omega
  rw [List.countP_append, none, Nat.add_zero]

/-- What comes later leaves the places before it as they are. -/
theorem locate (grows : GrowsFrom stop map later) (sound : map.Sound)
    (started : 0 < map.segments.size) (before : position < stop) :
    later.locate position = map.locate position := by
  obtain ⟨-, ⟨moreSegments, segments, segmentsFrom⟩, ⟨moreStarts, starts, startsFrom⟩⟩ := grows
  have reached : later.segments.countP (·.offset ≤ position) =
      map.segments.countP (·.offset ≤ position) := by
    rw [← Array.countP_toList, segments, countP_append_above segmentsFrom before,
      Array.countP_toList]
  have counted : later.lineStarts.countP (· ≤ position) =
      map.lineStarts.countP (· ≤ position) := by
    rw [← Array.countP_toList, starts, countP_append_above startsFrom before,
      Array.countP_toList]
  have inside : map.segments.countP (·.offset ≤ position) - 1 < map.segments.size := by
    have most : map.segments.countP (·.offset ≤ position) ≤ map.segments.size :=
      Array.countP_le_size
    omega
  have same : later.segments[map.segments.countP (·.offset ≤ position) - 1]? =
      map.segments[map.segments.countP (·.offset ≤ position) - 1]? := by
    rw [← Array.getElem?_toList, segments, List.getElem?_append_left inside,
      Array.getElem?_toList]
  have found := sound.canLocate position
  unfold canLocate lineIndex? at found
  unfold SourceMap.locate
  dsimp only
  rw [reached, counted, same]
  cases here : map.segments[map.segments.countP (·.offset ≤ position) - 1]? with
  | none => rfl
  | some segment =>
      rw [here, Option.map_some, Option.all_some, decide_eq_true_eq] at found
      have line : later.lineStarts[max (map.lineStarts.countP (· ≤ position) - 1)
          segment.firstLineIndex]? = map.lineStarts[max (map.lineStarts.countP (· ≤ position) - 1)
            segment.firstLineIndex]? := by
        rw [← Array.getElem?_toList, starts, List.getElem?_append_left found,
          Array.getElem?_toList]
      dsimp only
      rw [line]

end GrowsFrom

/-! ### What a piece adds -/

variable {name : Option String}

theorem addFile_known (map : SourceMap) (name : String) :
    (map.addFile name).2.files[(map.addFile name).1]? = some name := by
  unfold addFile
  split
  · next index found =>
      obtain ⟨inside, same, -⟩ := Array.findIdx?_eq_some_iff_getElem.mp found
      rw [Array.getElem?_eq_getElem inside, eq_of_beq same]
  · exact Array.getElem?_push_size

theorem addFile_unchanged (map : SourceMap) (name : String) :
    (map.addFile name).2.segments = map.segments ∧
      (map.addFile name).2.lineStarts = map.lineStarts := by
  unfold addFile
  split
  · exact ⟨rfl, rfl⟩
  · exact ⟨rfl, rfl⟩

theorem addChunk_continuing (goesOn : map.continues name = true) (offset : Nat) (bytes : Bytes)
    (line : Nat) :
    let next := map.addChunk offset bytes name line
    next.files = map.files ∧ next.segments = map.segments ∧
      next.lineStarts.toList = map.lineStarts.toList ++
        ((if map.openLine then [] else [offset]) ++ innerLineStarts offset bytes) := by
  unfold addChunk
  rw [if_pos goesOn, continueFile]
  split
  · exact ⟨rfl, rfl, Array.toList_appendList⟩
  · refine ⟨rfl, rfl, Array.toList_appendList.trans ?_⟩
    rw [Array.toList_push, List.append_assoc]

theorem addChunk_starting (starts : map.continues name = false) (offset : Nat) (bytes : Bytes)
    (line : Nat) :
    let next := map.addChunk offset bytes name line
    let number := (map.addFile (name.getD unnamed)).1
    next.files[number]? = some (name.getD unnamed) ∧
      next.segments.toList = map.segments.toList ++
        [{ offset, file := number, firstLine := line, firstLineIndex := map.lineStarts.size }] ∧
      next.lineStarts.toList =
        map.lineStarts.toList ++ offset :: innerLineStarts offset bytes := by
  obtain ⟨segments, lineStarts⟩ := map.addFile_unchanged (name.getD unnamed)
  unfold addChunk
  rw [starts, if_neg Bool.false_ne_true, addSegment]
  refine ⟨map.addFile_known _, ?_, Array.toList_appendList.trans ?_⟩
  · dsimp only
    rw [Array.toList_push, segments, lineStarts]
  · dsimp only
    rw [Array.toList_push, lineStarts, List.append_assoc]
    rfl

theorem addChunk_openLine (present : bytes ≠ []) (map : SourceMap) (offset : Nat)
    (name : Option String) (line : Nat) :
    (map.addChunk offset bytes name line).openLine = true ↔ bytes.getLast? ≠ some 0x0A := by
  unfold addChunk
  rw [List.getLast?_eq_some_getLast present]
  simp only [bne_iff_ne, ne_eq, char_eq_lineFeed, Option.some.injEq]

theorem addChunk_grows (map : SourceMap) (offset : Nat) (bytes : Bytes) (name : Option String)
    (line : Nat) : GrowsFrom offset map (map.addChunk offset bytes name line) := by
  have inner (start : Nat) (member : start ∈ innerLineStarts offset bytes) : offset ≤ start :=
    Nat.le_of_lt (mem_innerLineStarts member).1
  refine ⟨map.addChunk_files offset bytes name line, ?_, ?_⟩
  · cases goesOn : map.continues name with
    | true =>
        obtain ⟨-, segments, -⟩ := addChunk_continuing goesOn offset bytes line
        exact ⟨[], by rw [segments, List.append_nil], nofun⟩
    | false =>
        obtain ⟨-, segments, -⟩ := addChunk_starting goesOn offset bytes line
        refine ⟨_, segments, fun segment member => ?_⟩
        rw [List.mem_singleton.mp member]
  · cases goesOn : map.continues name with
    | true =>
        obtain ⟨-, -, starts⟩ := addChunk_continuing goesOn offset bytes line
        refine ⟨_, starts, fun start member => ?_⟩
        rcases List.mem_append.mp member with first | member
        · split at first
          · cases first
          · exact Nat.le_of_eq (List.mem_singleton.mp first).symm
        · exact inner start member
    | false =>
        obtain ⟨-, -, starts⟩ := addChunk_starting goesOn offset bytes line
        refine ⟨_, starts, fun start member => ?_⟩
        rcases List.mem_cons.mp member with rfl | member
        · exact Nat.le_refl _
        · exact inner start member

/-! ### The current file -/

def currentFile? (map : SourceMap) : Option String :=
  map.segments.back?.bind fun segment => map.files[segment.file]?

/-- The file of a piece: the one it names, else the current one, else that of unnamed input. -/
def fileOf (current name : Option String) : String :=
  (name.or current).getD unnamed

theorem continues_iff (sound : map.Sound) (name : Option String) :
    map.continues name = true ↔
      ∃ file, map.currentFile? = some file ∧ name.getD file = file := by
  unfold continues currentFile?
  cases last : map.segments.back? with
  | none => simp
  | some segment =>
      have known := sound.file segment (Array.mem_of_back? last)
      rw [Option.bind_some]
      cases name with
      | none => simp [Array.getElem?_eq_getElem known]
      | some name =>
          simp only [Array.getElem?_eq_getElem known, beq_iff_eq, Option.some.injEq,
            exists_eq_left', Option.getD_some]
          exact eq_comm

theorem fileOf_of_continues (sound : map.Sound) (goesOn : map.continues name = true) :
    map.currentFile? = some (fileOf map.currentFile? name) := by
  obtain ⟨file, current, same⟩ := (continues_iff sound name).mp goesOn
  rw [current]
  cases name with
  | none => rfl
  | some name => exact congrArg some same.symm

theorem fileOf_of_starts (sound : map.Sound) (starts : map.continues name = false) :
    fileOf map.currentFile? name = name.getD unnamed := by
  cases name with
  | some name => rfl
  | none =>
      cases current : map.currentFile? with
      | none => rfl
      | some file =>
          have goesOn := (continues_iff sound none).mpr ⟨file, current, rfl⟩
          cases starts.symm.trans goesOn

theorem currentFile?_addChunk (sound : map.Sound) (offset : Nat) (bytes : Bytes)
    (name : Option String) (line : Nat) :
    (map.addChunk offset bytes name line).currentFile? =
      some (fileOf map.currentFile? name) := by
  cases goesOn : map.continues name with
  | true =>
      obtain ⟨files, segments, -⟩ := addChunk_continuing goesOn offset bytes line
      rw [← fileOf_of_continues sound goesOn]
      unfold currentFile?
      rw [files, segments]
  | false =>
      obtain ⟨known, segments, -⟩ := addChunk_starting goesOn offset bytes line
      rw [fileOf_of_starts sound goesOn]
      unfold currentFile?
      rw [← Array.getLast?_toList, segments, List.getLast?_concat]
      exact known

/-! ### The end of a map -/

structure EndsBy (stop : Nat) (map : SourceMap) : Prop where
  segments : ∀ segment ∈ map.segments.toList, segment.offset < stop
  lineStarts : ∀ start ∈ map.lineStarts.toList, start < stop

theorem EndsBy.addChunk (ends : map.EndsBy offset) (present : bytes ≠ []) (name : Option String)
    (line : Nat) : (map.addChunk offset bytes name line).EndsBy (offset + bytes.length) := by
  have longer : offset < offset + bytes.length :=
    Nat.lt_add_of_pos_right (List.length_pos_of_ne_nil present)
  have inner (start : Nat) (member : start ∈ innerLineStarts offset bytes) :
      start < offset + bytes.length := (mem_innerLineStarts member).2
  have before (start : Nat) (member : start ∈ map.lineStarts.toList) :
      start < offset + bytes.length := Nat.lt_trans (ends.lineStarts start member) longer
  cases goesOn : map.continues name with
  | true =>
      obtain ⟨-, segments, starts⟩ := addChunk_continuing goesOn offset bytes line
      refine ⟨fun segment member => ?_, fun start member => ?_⟩
      · rw [segments] at member
        exact Nat.lt_trans (ends.segments segment member) longer
      · rw [starts] at member
        rcases List.mem_append.mp member with old | new
        · exact before start old
        · rcases List.mem_append.mp new with first | member
          · split at first
            · cases first
            · exact List.mem_singleton.mp first ▸ longer
          · exact inner start member
  | false =>
      obtain ⟨-, segments, starts⟩ := addChunk_starting goesOn offset bytes line
      refine ⟨fun segment member => ?_, fun start member => ?_⟩
      · rw [segments] at member
        rcases List.mem_append.mp member with old | new
        · exact Nat.lt_trans (ends.segments segment old) longer
        · rw [List.mem_singleton.mp new]
          exact longer
      · rw [starts] at member
        rcases List.mem_append.mp member with old | new
        · exact before start old
        · rcases List.mem_cons.mp new with rfl | member
          · exact longer
          · exact inner start member

/-! ### Texts in a row -/

variable {isOpen : Bool} {texts : List Bytes}

def leavesOpen (isOpen : Bool) (text : Bytes) : Bool :=
  match text.getLast? with
  | some last => last.char != '\n'
  | none => isOpen

def addTexts (map : SourceMap) (offset : Nat) : List Bytes → SourceMap
  | [] => map
  | text :: rest => (map.addChunk offset text none 1).addTexts (offset + text.length) rest

def begun (isOpen : Bool) (offset : Nat) : List Nat :=
  if isOpen then [] else [offset]

def startsOf (isOpen : Bool) (offset : Nat) : List Bytes → List Nat
  | [] => []
  | text :: rest =>
      begun isOpen offset ++ innerLineStarts offset text ++
        startsOf (leavesOpen isOpen text) (offset + text.length) rest

/-- The lines that texts without bytes begin. They stay without bytes: the next text begins the
line once more. -/
def idle (isOpen : Bool) (offset : Nat) : List Bytes → List Nat
  | [] => []
  | text :: rest =>
      (if text.isEmpty then begun isOpen offset else []) ++
        idle (leavesOpen isOpen text) (offset + text.length) rest

theorem addChunk_leavesOpen (map : SourceMap) (offset : Nat) (bytes : Bytes)
    (name : Option String) (line : Nat) :
    (map.addChunk offset bytes name line).openLine = leavesOpen map.openLine bytes := by
  have kept : (if map.continues name then map.continueFile offset
      else map.addSegment offset (name.getD unnamed) line).openLine = map.openLine := by
    unfold continueFile addSegment addFile
    grind
  unfold addChunk leavesOpen
  dsimp only
  cases bytes.getLast? with
  | none => exact kept
  | some last => rfl

theorem continues_none (map : SourceMap) : map.continues none = map.segments.back?.isSome := by
  unfold continues
  cases map.segments.back? with
  | none => rfl
  | some segment => rfl

/-- More texts of the current file add the lines that start in them. -/
theorem addTexts_adds (goesOn : map.continues none = true) (offset : Nat) (texts : List Bytes) :
    (map.addTexts offset texts).segments = map.segments ∧
      (map.addTexts offset texts).lineStarts.toList =
        map.lineStarts.toList ++ startsOf map.openLine offset texts := by
  induction texts generalizing map offset with
  | nil => exact ⟨rfl, (List.append_nil _).symm⟩
  | cons text rest ih =>
      obtain ⟨-, segments, lineStarts⟩ := addChunk_continuing goesOn offset text 1
      have again : (map.addChunk offset text none 1).continues none = true := by
        rw [continues_none] at goesOn ⊢
        rw [segments, goesOn]
      obtain ⟨segments', lineStarts'⟩ := ih again (offset + text.length)
      refine ⟨segments'.trans segments, ?_⟩
      rw [addTexts, lineStarts', lineStarts, addChunk_leavesOpen, startsOf, begun,
        List.append_assoc]

theorem le_of_mem_startsOf {start : Nat} (member : start ∈ startsOf isOpen offset texts) :
    offset ≤ start := by
  fun_induction startsOf isOpen offset texts with
  | case1 => cases member
  | case2 isOpen offset text rest ih =>
      rcases List.mem_append.mp member with here | later
      · rcases List.mem_append.mp here with first | inner
        · unfold begun at first
          split at first
          · cases first
          · exact Nat.le_of_eq (List.mem_singleton.mp first).symm
        · exact Nat.le_of_lt (mem_innerLineStarts inner).1
      · exact Nat.le_trans (Nat.le_add_right _ _) (ih later)

theorem idle_sublist (isOpen : Bool) (offset : Nat) (texts : List Bytes) :
    (idle isOpen offset texts).Sublist (startsOf isOpen offset texts) := by
  fun_induction startsOf isOpen offset texts with
  | case1 => exact .slnil
  | case2 isOpen offset text rest ih =>
      refine .append ?_ ih
      split
      · exact List.sublist_append_left _ _
      · exact List.nil_sublist _

theorem pairwise_innerLineStarts (offset : Nat) (bytes : Bytes) :
    (innerLineStarts offset bytes).Pairwise (· ≤ ·) := by
  fun_induction innerLineStarts offset bytes with
  | case1 => exact .nil
  | case2 => exact .nil
  | case3 offset byte next rest lineFeed ih =>
      exact .cons (fun start member => Nat.le_of_lt (mem_innerLineStarts member).1) ih
  | case4 offset byte next rest other ih => exact ih

theorem pairwise_startsOf (isOpen : Bool) (offset : Nat) (texts : List Bytes) :
    (startsOf isOpen offset texts).Pairwise (· ≤ ·) := by
  fun_induction startsOf isOpen offset texts with
  | case1 => exact .nil
  | case2 isOpen offset text rest ih =>
      have here : (begun isOpen offset ++ innerLineStarts offset text).Pairwise (· ≤ ·) := by
        unfold begun
        split
        · exact pairwise_innerLineStarts offset text
        · exact .cons (fun start member => Nat.le_of_lt (mem_innerLineStarts member).1)
            (pairwise_innerLineStarts offset text)
      refine List.pairwise_append.mpr ⟨here, ih, fun start member next later => ?_⟩
      have above := le_of_mem_startsOf later
      rcases List.mem_append.mp member with first | inner
      · unfold begun at first
        split at first
        · cases first
        · rw [List.mem_singleton.mp first]
          omega
      · have below := (mem_innerLineStarts inner).2
        omega

/-- Of lines that start one after the other, the last one that starts up to a position is found
by their count. -/
theorem getElem?_countP_pred {starts : List Nat} (ordered : starts.Pairwise (· ≤ ·))
    (started : 0 < starts.countP (· ≤ position)) :
    starts[starts.countP (· ≤ position) - 1]? =
      (starts.filter (· ≤ position)).getLast? := by
  have front : starts.filter (· ≤ position) = starts.take (starts.countP (· ≤ position)) := by
    clear started
    induction ordered with
    | nil => rfl
    | @cons start rest above _ ih =>
        by_cases reached : start ≤ position
        · simp only [List.filter_cons, List.countP_cons, reached, decide_true, ↓reduceIte,
            List.take_succ_cons, ih]
        · have none (later : Nat) (member : later ∈ rest) : ¬ decide (later ≤ position) = true := by
            have order := above later member
            simp only [decide_eq_true_eq]
            omega
          rw [List.countP_eq_zero.mpr (List.forall_mem_cons.mpr ⟨by simpa using reached, none⟩),
            List.filter_eq_nil_iff.mpr (List.forall_mem_cons.mpr ⟨by simpa using reached, none⟩),
            List.take_zero]
  have within : starts.countP (· ≤ position) ≤ starts.length := List.countP_le_length
  rw [front, List.getLast?_take, if_neg (Nat.ne_of_gt started),
    List.getElem?_eq_getElem (by omega), Option.some_or]

theorem filter_startsOf_of_lt (before : position < offset) :
    (startsOf isOpen offset texts).filter (· ≤ position) = [] := by
  refine List.filter_eq_nil_iff.mpr fun start member => ?_
  have above := le_of_mem_startsOf member
  simp only [decide_eq_true_eq]
  omega

theorem filter_idle_of_lt (before : position < offset) :
    (idle isOpen offset texts).filter (· ≤ position) = [] := by
  have sublist := (idle_sublist isOpen offset texts).filter (· ≤ position)
  rw [filter_startsOf_of_lt before] at sublist
  exact List.sublist_nil.mp sublist

/-- A text that has bytes starts its own lines, and hands on whether the last one is open. -/
theorem startsOf_append {text more : Bytes} (present : text ≠ []) (continued : more ≠ []) :
    startsOf isOpen offset [text ++ more] =
      begun isOpen offset ++ innerLineStarts offset text ++
        startsOf (leavesOpen isOpen text) (offset + text.length) [more] := by
  have next : begun (leavesOpen isOpen text) (offset + text.length) =
      if text.getLast? = some 0x0A then [offset + text.length] else [] := by
    unfold begun leavesOpen
    rw [List.getLast?_eq_some_getLast present]
    by_cases ended : text.getLast present = 0x0A
    · rw [ended, if_pos rfl]
      rfl
    · rw [if_neg (mt Option.some.inj ended), if_pos]
      exact bne_iff_ne.mpr (mt char_eq_lineFeed.mp ended)
  simp only [startsOf, List.append_nil]
  rw [innerLineStarts_append offset text continued, startsIn, ← next]
  simp only [List.append_assoc]

/-- Up to a position in their bytes, texts that follow on one another start the lines that the
one text starts that they make up, and those that stay without bytes. The last one of them is the
same. -/
theorem startsOf_flatten (isOpen : Bool) (texts : List Bytes) (after : offset ≤ position)
    (inside : position < offset + texts.flatten.length) :
    (startsOf isOpen offset texts).countP (· ≤ position) =
        (startsOf isOpen offset [texts.flatten]).countP (· ≤ position) +
          (idle isOpen offset texts).countP (· ≤ position) ∧
      ((startsOf isOpen offset texts).filter (· ≤ position)).getLast? =
        ((startsOf isOpen offset [texts.flatten]).filter (· ≤ position)).getLast? := by
  simp only [List.countP_eq_length_filter]
  induction texts generalizing isOpen offset with
  | nil => exact absurd inside (Nat.not_lt_of_le after)
  | cons text rest ih =>
      rw [List.flatten_cons, List.length_append] at inside
      rw [List.flatten_cons]
      by_cases present : text = []
      · subst present
        obtain ⟨counted, last⟩ := ih isOpen after (by simpa using inside)
        have same : startsOf isOpen offset ([] :: rest) =
            begun isOpen offset ++ startsOf isOpen offset rest := by
          rw [startsOf, innerLineStarts, List.append_nil]
          rfl
        have stay : idle isOpen offset ([] :: rest) =
            begun isOpen offset ++ idle isOpen offset rest := rfl
        rw [same, stay, List.nil_append, List.filter_append, List.filter_append,
          List.length_append, List.length_append, counted, List.getLast?_append, last]
        refine ⟨by omega, ?_⟩
        cases isOpen with
        | true => exact Option.or_none
        | false =>
            have found : 0 < ((startsOf false offset [rest.flatten]).filter
                (· ≤ position)).length := by
              simp [startsOf, begun, after]
            rw [List.getLast?_eq_some_getLast (List.ne_nil_of_length_pos found), Option.some_or]
      · have later : idle isOpen offset (text :: rest) =
            idle (leavesOpen isOpen text) (offset + text.length) rest := by
          rw [idle, if_neg (mt List.isEmpty_iff.mp present), List.nil_append]
        rw [startsOf, later]
        by_cases here : position < offset + text.length
        · rw [List.filter_append, filter_startsOf_of_lt here, filter_idle_of_lt here,
            List.append_nil]
          by_cases continued : rest.flatten = []
          · rw [continued, List.append_nil, startsOf, startsOf, List.append_nil]
            exact ⟨rfl, rfl⟩
          · have own : (startsOf (leavesOpen isOpen text) (offset + text.length)
                [rest.flatten]).filter (· ≤ position) = [] := filter_startsOf_of_lt here
            rw [startsOf_append present continued, List.filter_append _ (startsOf ..), own,
              List.append_nil]
            exact ⟨rfl, rfl⟩
        · have continued : rest.flatten ≠ [] := by
            intro none
            rw [none, List.length_nil] at inside
            omega
          obtain ⟨counted, last⟩ := ih (leavesOpen isOpen text) (Nat.le_of_not_lt here) (by omega)
          rw [startsOf_append present continued, List.filter_append,
            List.filter_append _ (startsOf _ _ [rest.flatten]), List.length_append,
            List.length_append, counted, Nat.add_assoc, List.getLast?_append, last,
            List.getLast?_append]
          exact ⟨rfl, rfl⟩

theorem idle_of_present (present : ∀ text ∈ texts, text ≠ []) : idle isOpen offset texts = [] := by
  induction texts generalizing isOpen offset with
  | nil => rfl
  | cons text rest ih =>
      obtain ⟨here, later⟩ := List.forall_mem_cons.mp present
      rw [idle, ih later, if_neg (mt List.isEmpty_iff.mp here)]
      rfl

end SourceMap

end RubySyntax
