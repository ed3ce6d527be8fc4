/-
The place of a byte of input that arrived in pieces.

Pieces of one file that follow on one another are a run, and each byte lies in one. Its line is
that of the run and the line feeds between the start of the run and the byte; its column tells
how far the byte is from the last of them. How the run is cut into pieces has no part in it, nor
has what comes after it. A piece without bytes has: where no line is open it begins one, and the
next piece begins it once more.
-/

import RubySyntax.Proofs.Source.Growth

namespace RubySyntax

/-- A piece of input that is not empty. The line is that of its first byte, should it be the
first piece of its file. -/
structure Piece where
  bytes : Bytes
  name : Option String := none
  line : Nat := 1
  present : bytes ≠ []

structure FiledPiece where
  file : String
  piece : Piece

namespace SourceMap

variable {map base : SourceMap} {pieces later : List Piece} {entries before after : List FiledPiece}
  {current : Option String} {offset position : Nat}

def addPieces (map : SourceMap) (offset : Nat) : List Piece → SourceMap
  | [] => map
  | piece :: rest =>
      (map.addChunk offset piece.bytes piece.name piece.line).addPieces
        (offset + piece.bytes.length) rest

def ofPieces (pieces : List Piece) : SourceMap :=
  addPieces {} 0 pieces

def filed (current : Option String) : List Piece → List FiledPiece
  | [] => []
  | piece :: rest =>
      ⟨fileOf current piece.name, piece⟩ :: filed (some (fileOf current piece.name)) rest

def textOf (pieces : List Piece) : Bytes :=
  pieces.flatMap Piece.bytes

def filedText (entries : List FiledPiece) : Bytes :=
  textOf (entries.map FiledPiece.piece)

def lastFile (current : Option String) (entries : List FiledPiece) : Option String :=
  (entries.getLast?.map FiledPiece.file).or current

/-! ### Pieces in a row -/

theorem textOf_cons (piece : Piece) (pieces : List Piece) :
    textOf (piece :: pieces) = piece.bytes ++ textOf pieces :=
  List.flatMap_cons

theorem filedText_cons (entry : FiledPiece) (entries : List FiledPiece) :
    filedText (entry :: entries) = entry.piece.bytes ++ filedText entries :=
  textOf_cons entry.piece _

theorem filedText_append (before after : List FiledPiece) :
    filedText (before ++ after) = filedText before ++ filedText after := by
  unfold filedText textOf
  rw [List.map_append, List.flatMap_append]

theorem lastFile_cons (current : Option String) (entry : FiledPiece)
    (entries : List FiledPiece) :
    lastFile current (entry :: entries) = lastFile (some entry.file) entries := by
  unfold lastFile
  rw [List.getLast?_cons]
  cases entries.getLast? with
  | none => rfl
  | some last => rfl

theorem map_piece_filed (current : Option String) (pieces : List Piece) :
    (filed current pieces).map FiledPiece.piece = pieces := by
  induction pieces generalizing current with
  | nil => rfl
  | cons piece rest ih => rw [filed, List.map_cons, ih]

/-- Where pieces with their files are parted, the second part goes on with the last file of the
first one. -/
theorem filed_eq_append (split : filed current pieces = before ++ after) :
    before = filed current (before.map FiledPiece.piece) ∧
      after = filed (lastFile current before) (after.map FiledPiece.piece) := by
  induction before generalizing current pieces with
  | nil =>
      rw [List.nil_append] at split
      refine ⟨rfl, ?_⟩
      rw [← split, map_piece_filed]
      rfl
  | cons entry before ih =>
      cases pieces with
      | nil => cases split
      | cons piece rest =>
          obtain ⟨rfl, remaining⟩ := List.cons.inj split
          obtain ⟨first, second⟩ := ih remaining
          rw [lastFile_cons]
          exact ⟨congrArg _ first, second⟩

theorem addPieces_append (map : SourceMap) (offset : Nat) (before after : List Piece) :
    map.addPieces offset (before ++ after) =
      (map.addPieces offset before).addPieces (offset + (textOf before).length) after := by
  induction before generalizing map offset with
  | nil => rfl
  | cons piece rest ih =>
      rw [List.cons_append, addPieces, ih, textOf_cons, List.length_append, Nat.add_assoc]
      rfl

theorem Sound.addPieces (sound : map.Sound) (offset : Nat) (pieces : List Piece) :
    (map.addPieces offset pieces).Sound := by
  induction pieces generalizing map offset with
  | nil => exact sound
  | cons piece rest ih => exact ih (sound.addChunk offset _ _ _) _

theorem EndsBy.addPieces (ends : map.EndsBy offset) (pieces : List Piece) :
    (map.addPieces offset pieces).EndsBy (offset + (textOf pieces).length) := by
  induction pieces generalizing map offset with
  | nil => exact ends
  | cons piece rest ih =>
      rw [textOf_cons, List.length_append, ← Nat.add_assoc]
      exact ih (ends.addChunk piece.present _ _)

theorem addPieces_grows (map : SourceMap) (offset : Nat) (pieces : List Piece) :
    GrowsFrom offset map (map.addPieces offset pieces) := by
  induction pieces generalizing map offset with
  | nil => exact .refl offset map
  | cons piece rest ih =>
      exact (map.addChunk_grows offset _ _ _).trans (ih _ _) (Nat.le_add_right _ _)

theorem currentFile?_addPieces (sound : map.Sound) (offset : Nat) (pieces : List Piece) :
    (map.addPieces offset pieces).currentFile? =
      lastFile map.currentFile? (filed map.currentFile? pieces) := by
  induction pieces generalizing map offset with
  | nil => rfl
  | cons piece rest ih =>
      have next := currentFile?_addChunk sound offset piece.bytes piece.name piece.line
      rw [filed, lastFile_cons, ← next]
      exact ih (sound.addChunk offset _ _ _) _

theorem sound_empty : ({} : SourceMap).Sound :=
  ⟨by simp, by simp⟩

theorem endsBy_empty (stop : Nat) : ({} : SourceMap).EndsBy stop :=
  ⟨nofun, nofun⟩

/-! ### Inside a run -/

structure InRun (base : SourceMap) (segment : Segment) (file : String) (bytes : Bytes)
    (map : SourceMap) : Prop where
  known : map.files[segment.file]? = some file
  index : segment.firstLineIndex = base.lineStarts.size
  segments : map.segments.toList = base.segments.toList ++ [segment]
  lineStarts : map.lineStarts.toList =
    base.lineStarts.toList ++ segment.offset :: innerLineStarts segment.offset bytes
  openLine : map.openLine = true ↔ bytes.getLast? ≠ some 0x0A

namespace InRun

variable {segment : Segment} {file : String} {bytes : Bytes}

theorem start (sound : base.Sound) (piece : Piece)
    (other : base.currentFile? ≠ some (fileOf base.currentFile? piece.name)) (offset : Nat) :
    ∃ number, InRun base ⟨offset, number, piece.line, base.lineStarts.size⟩
      (fileOf base.currentFile? piece.name) piece.bytes
      (base.addChunk offset piece.bytes piece.name piece.line) := by
  have starts : base.continues piece.name = false :=
    Bool.eq_false_iff.mpr fun goesOn => other (fileOf_of_continues sound goesOn)
  obtain ⟨known, segments, lineStarts⟩ :=
    addChunk_starting starts offset piece.bytes piece.line
  rw [fileOf_of_starts sound starts]
  exact ⟨_, known, rfl, segments, lineStarts, addChunk_openLine piece.present ..⟩

theorem currentFile (run : InRun base segment file bytes map) : map.currentFile? = some file := by
  unfold currentFile?
  rw [← Array.getLast?_toList, run.segments, List.getLast?_concat]
  exact run.known

/-- A piece of the same file makes a run longer, whether or not it starts in mid-line. -/
theorem addChunk (run : InRun base segment file bytes map) (sound : map.Sound) (piece : Piece)
    (same : fileOf (some file) piece.name = file) :
    InRun base segment file (bytes ++ piece.bytes)
      (map.addChunk (segment.offset + bytes.length) piece.bytes piece.name piece.line) := by
  have goesOn : map.continues piece.name = true := by
    refine (continues_iff sound _).mpr ⟨file, run.currentFile, ?_⟩
    cases given : piece.name with
    | none => rfl
    | some name => simpa [given, fileOf] using same
  obtain ⟨files, segments, lineStarts⟩ := addChunk_continuing goesOn
    (segment.offset + bytes.length) piece.bytes piece.line
  refine ⟨files ▸ run.known, run.index, segments ▸ run.segments, ?_, ?_⟩
  · rw [lineStarts, run.lineStarts, innerLineStarts_append _ _ piece.present, startsIn,
      List.append_assoc, List.cons_append, List.append_assoc]
    have pending : (if map.openLine then [] else [segment.offset + bytes.length]) =
        if bytes.getLast? = some 0x0A then [segment.offset + bytes.length] else [] := by
      by_cases ended : bytes.getLast? = some 0x0A
      · rw [if_pos ended, if_neg fun isOpen => run.openLine.mp isOpen ended]
      · rw [if_neg ended, if_pos (run.openLine.mpr ended)]
    rw [pending]
  · rw [addChunk_openLine piece.present, List.getLast?_append_of_ne_nil _ piece.present]

theorem addPieces (run : InRun base segment file bytes map) (sound : map.Sound)
    (entries : List FiledPiece) (same : ∀ entry ∈ entries, entry.file = file)
    (goesOn : entries = filed (some file) (entries.map FiledPiece.piece)) :
    InRun base segment file (bytes ++ filedText entries)
      (map.addPieces (segment.offset + bytes.length) (entries.map FiledPiece.piece)) := by
  induction entries generalizing map bytes with
  | nil =>
      change InRun base segment file (bytes ++ []) map
      rw [List.append_nil]
      exact run
  | cons entry rest ih =>
      obtain ⟨first, goesOn⟩ := List.cons.inj goesOn
      have here : fileOf (some file) entry.piece.name = file :=
        (congrArg FiledPiece.file first).symm.trans (same entry List.mem_cons_self)
      rw [here] at goesOn
      have longer := ih (run.addChunk sound entry.piece here) (sound.addChunk _ _ _ _)
        (fun entry member => same entry (List.mem_cons_of_mem _ member)) goesOn
      rw [filedText_cons, ← List.append_assoc]
      rw [List.length_append, ← Nat.add_assoc] at longer
      exact longer

/-- Before a byte of a run stand the lines that start up to it, after it those that start
later. -/
theorem lineStarts_parted (run : InRun base segment file bytes map) {distance : Nat}
    (inside : distance < bytes.length) :
    map.lineStarts.toList = base.lineStarts.toList ++
      ((segment.offset :: startsIn segment.offset (bytes.take distance)) ++
        innerLineStarts (segment.offset + distance) (bytes.drop distance)) := by
  have rest : bytes.drop distance ≠ [] := mt List.drop_eq_nil_iff.mp (Nat.not_le_of_lt inside)
  have added := innerLineStarts_append segment.offset (bytes.take distance) rest
  rw [List.take_append_drop, List.length_take_of_le (Nat.le_of_lt inside)] at added
  rw [run.lineStarts, added, List.cons_append]

theorem countP_segments (run : InRun base segment file bytes map)
    (ends : base.EndsBy segment.offset) (distance : Nat) :
    map.segments.countP (·.offset ≤ segment.offset + distance) = base.segments.size + 1 := by
  have old : base.segments.toList.countP (·.offset ≤ segment.offset + distance) =
      base.segments.toList.length := by
    refine List.countP_eq_length.mpr fun other member => ?_
    have below := ends.segments other member
    simp only [decide_eq_true_eq]
    omega
  rw [← Array.countP_toList, run.segments, List.countP_append, old, Array.length_toList]
  simp

theorem countP_lineStarts (run : InRun base segment file bytes map)
    (ends : base.EndsBy segment.offset) {distance : Nat} (inside : distance < bytes.length) :
    map.lineStarts.countP (· ≤ segment.offset + distance) =
      base.lineStarts.size + ((bytes.take distance).count 0x0A + 1) := by
  have length : (bytes.take distance).length = distance :=
    List.length_take_of_le (Nat.le_of_lt inside)
  have old : base.lineStarts.toList.countP (· ≤ segment.offset + distance) =
      base.lineStarts.toList.length := by
    refine List.countP_eq_length.mpr fun start member => ?_
    have below := ends.lineStarts start member
    simp only [decide_eq_true_eq]
    omega
  have here : (segment.offset :: startsIn segment.offset (bytes.take distance)).countP
      (· ≤ segment.offset + distance) =
        (segment.offset :: startsIn segment.offset (bytes.take distance)).length := by
    refine List.countP_eq_length.mpr fun start member => ?_
    simp only [decide_eq_true_eq]
    rcases List.mem_cons.mp member with rfl | member
    · exact Nat.le_add_right _ _
    · have reached := startsIn_le member
      rw [length] at reached
      exact reached
  have new : (innerLineStarts (segment.offset + distance) (bytes.drop distance)).countP
      (· ≤ segment.offset + distance) = 0 := by
    refine List.countP_eq_zero.mpr fun start member => ?_
    have above := (mem_innerLineStarts member).1
    simp only [decide_eq_true_eq]
    omega
  rw [← Array.countP_toList, run.lineStarts_parted inside, List.countP_append,
    List.countP_append, old, here, new, Array.length_toList, List.length_cons, length_startsIn,
    Nat.add_zero]

/-- The line of a byte is the last one that starts up to it. -/
theorem lineStart_at (run : InRun base segment file bytes map) {distance : Nat}
    (inside : distance < bytes.length) :
    map.lineStarts[base.lineStarts.size + (bytes.take distance).count 0x0A]? =
      some (segment.offset + distance -
        ((bytes.take distance).rtakeWhile (· != 0x0A)).length) := by
  have found := getLast?_startsIn segment.offset (bytes.take distance)
  rw [List.getLast?_eq_getElem?, List.length_cons, length_startsIn, Nat.add_sub_cancel,
    List.length_take_of_le (Nat.le_of_lt inside)] at found
  have within : (bytes.take distance).count 0x0A <
      (segment.offset :: startsIn segment.offset (bytes.take distance)).length := by
    rw [List.length_cons, length_startsIn]
    exact Nat.lt_succ_self _
  have after : base.lineStarts.toList.length ≤
      base.lineStarts.size + (bytes.take distance).count 0x0A := Nat.le_add_right _ _
  rw [← Array.getElem?_toList, run.lineStarts_parted inside, List.getElem?_append_right after,
    Array.length_toList, Nat.add_sub_cancel_left, List.getElem?_append_left within, found]

/-- The place of a byte in a run, counted from where the run starts. -/
theorem locate (run : InRun base segment file bytes map) (ends : base.EndsBy segment.offset)
    (distance : Nat) (inside : distance < bytes.length) :
    map.locate (segment.offset + distance) =
      { file := segment.file
        line := wrap (segment.firstLine + (bytes.take distance).count 0x0A)
        column := wrap (wrap ((bytes.take distance).rtakeWhile (· != 0x0A)).length + 1) } := by
  have here : map.segments[base.segments.size]? = some segment := by
    rw [← Array.getElem?_toList, run.segments, ← Array.length_toList, List.getElem?_concat_length]
  have index : max (base.lineStarts.size + ((bytes.take distance).count 0x0A + 1) - 1)
      segment.firstLineIndex = base.lineStarts.size + (bytes.take distance).count 0x0A := by
    rw [run.index]
    omega
  have shorter : ((bytes.take distance).rtakeWhile (· != 0x0A)).length ≤ distance :=
    Nat.le_trans (List.rtakeWhile_suffix _ _).length_le (List.length_take_le _ _)
  unfold SourceMap.locate
  dsimp only
  rw [run.countP_segments ends, Nat.add_sub_cancel, here]
  dsimp only
  rw [run.countP_lineStarts ends inside, index, run.lineStart_at inside, run.index,
    Nat.add_sub_cancel_left, Option.getD_some,
    Nat.sub_sub_self (Nat.le_trans shorter (Nat.le_add_left _ _))]

end InRun

/-! ### Runs of pieces -/

structure Run (pieces : List Piece) where
  before : List FiledPiece
  file : String
  first : Piece
  rest : List FiledPiece
  after : List FiledPiece
  split : filed none pieces = before ++ ⟨file, first⟩ :: (rest ++ after)
  same : ∀ entry ∈ rest, entry.file = file
  starts : ∀ entry ∈ before.getLast?, entry.file ≠ file
  ends : ∀ entry ∈ after.head?, entry.file ≠ file

namespace Run

def origin (run : Run pieces) : Nat :=
  (filedText run.before).length

def text (run : Run pieces) : Bytes :=
  run.first.bytes ++ filedText run.rest

def Contains (run : Run pieces) (position : Nat) : Prop :=
  run.origin ≤ position ∧ position < run.origin + run.text.length

def seen (run : Run pieces) (position : Nat) : Bytes :=
  run.text.take (position - run.origin)

/-- The line of a position: that of the run, and one more for each line feed since then. -/
def lineAt (run : Run pieces) (position : Nat) : Nat :=
  run.first.line + (run.seen position).count 0x0A

/-- The column of a position: one more than there are bytes since the last line feed, or since
the start of the run. -/
def columnAt (run : Run pieces) (position : Nat) : Nat :=
  ((run.seen position).rtakeWhile (· != 0x0A)).length + 1

end Run

theorem exists_entry_at (entries : List FiledPiece) (position : Nat)
    (inside : position < (filedText entries).length) :
    ∃ before entry after, entries = before ++ entry :: after ∧
      (filedText before).length ≤ position ∧
      position < (filedText before).length + entry.piece.bytes.length := by
  induction entries generalizing position with
  | nil => cases inside
  | cons entry rest ih =>
      by_cases here : position < entry.piece.bytes.length
      · exact ⟨[], entry, rest, rfl, Nat.zero_le _, by simpa [filedText, textOf] using here⟩
      · rw [filedText_cons, List.length_append] at inside
        obtain ⟨before, found, after, rfl, above, below⟩ :=
          ih (position - entry.piece.bytes.length) (by omega)
        refine ⟨entry :: before, found, after, rfl, ?_, ?_⟩
        · rw [filedText_cons, List.length_append]
          omega
        · rw [filedText_cons, List.length_append]
          omega

/-- Around an item of a list the items of its kind go as far as they can in both directions. -/
private theorem exists_longest_around {α κ : Type} [DecidableEq κ] (kind : α → κ)
    (before after : List α) (item : α) :
    ∃ left near far right, before = left ++ near ∧ after = far ++ right ∧
      (∀ other ∈ near ++ item :: far, kind other = kind item) ∧
      (∀ other ∈ left.getLast?, kind other ≠ kind item) ∧
      ∀ other ∈ right.head?, kind other ≠ kind item := by
  let same (other : α) : Bool := kind other == kind item
  have kind_eq {other : α} (holds : same other = true) : kind other = kind item :=
    eq_of_beq holds
  refine ⟨before.rdropWhile same, before.rtakeWhile same, after.takeWhile same,
    after.dropWhile same, List.rdropWhile_append_rtakeWhile.symm,
    List.takeWhile_append_dropWhile.symm, fun other member => ?_, fun other member => ?_,
    fun other member => ?_⟩
  · rcases List.mem_append.mp member with left | right
    · exact kind_eq (List.mem_rtakeWhile_imp left)
    · rcases List.mem_cons.mp right with rfl | right
      · rfl
      · exact kind_eq (List.mem_takeWhile_imp right)
  · obtain ⟨present, rfl⟩ := List.mem_getLast?_eq_getLast member
    exact fun again => List.rdropWhile_last_not same before present (beq_iff_eq.mpr again)
  · have differs := List.head?_dropWhile_not same after
    rw [Option.mem_def.mp member] at differs
    exact fun again => Bool.eq_false_iff.mp differs (beq_iff_eq.mpr again)

/-- The pieces of one file around a position are a run. -/
theorem exists_run_at (pieces : List Piece) (inside : position < (textOf pieces).length) :
    ∃ run : Run pieces, run.Contains position := by
  rw [← map_piece_filed none pieces] at inside
  obtain ⟨before, entry, after, split, above, below⟩ := exists_entry_at _ position inside
  obtain ⟨left, near, far, right, rfl, rfl, alike, starts, ends⟩ :=
    exists_longest_around FiledPiece.file before after entry
  obtain ⟨first, rest, listed⟩ := List.exists_cons_of_ne_nil
    (List.append_ne_nil_of_right_ne_nil near (List.cons_ne_nil entry far))
  rw [listed] at alike
  have head : first = ⟨entry.file, first.piece⟩ :=
    congrArg (FiledPiece.mk · first.piece) (alike first List.mem_cons_self)
  have parted : filed none pieces = left ++ ⟨entry.file, first.piece⟩ :: (rest ++ right) := by
    have whole := congrArg (left ++ · ++ right) listed
    rw [split, ← head]
    simpa using whole
  have text : first.piece.bytes ++ filedText rest =
      filedText near ++ (entry.piece.bytes ++ filedText far) := by
    rw [← filedText_cons, ← listed, filedText_append, filedText_cons]
  rw [filedText_append, List.length_append] at above below
  refine ⟨⟨left, entry.file, first.piece, rest, right, parted,
    fun other member => alike other (List.mem_cons_of_mem _ member), starts, ends⟩, ?_, ?_⟩
  · change (filedText left).length ≤ position
    omega
  · change position < (filedText left).length + (first.piece.bytes ++ filedText rest).length
    rw [text, List.length_append, List.length_append]
    omega

/-! ### Places -/

namespace Run

def mapBefore (run : Run pieces) : SourceMap :=
  ofPieces (run.before.map FiledPiece.piece)

def mapAfter (run : Run pieces) : SourceMap :=
  run.mapBefore.addPieces run.origin (run.first :: run.rest.map FiledPiece.piece)

theorem pieces_eq (run : Run pieces) : run.before.map FiledPiece.piece ++
    ((run.first :: run.rest.map FiledPiece.piece) ++ run.after.map FiledPiece.piece) = pieces := by
  have whole := map_piece_filed none pieces
  rw [run.split, List.map_append, List.map_cons, List.map_append] at whole
  exact whole

/-- What follows a run starts where it ends. -/
theorem addPieces_mapAfter (run : Run pieces) :
    run.mapAfter.addPieces (run.origin + run.text.length) (run.after.map FiledPiece.piece) =
      ofPieces pieces := by
  have parted := addPieces_append {} 0 (run.before.map FiledPiece.piece)
    ((run.first :: run.rest.map FiledPiece.piece) ++ run.after.map FiledPiece.piece)
  rw [run.pieces_eq, addPieces_append, Nat.zero_add] at parted
  exact parted.symm

theorem lt_length_textOf (run : Run pieces) (contains : run.Contains position) :
    position < (textOf pieces).length := by
  have whole := congrArg List.length (congrArg filedText run.split)
  rw [filedText, map_piece_filed, filedText_append, filedText_cons, filedText_append] at whole
  have inside := contains.2
  unfold origin text at inside
  simp only [List.length_append] at whole inside
  omega

theorem currentFile_ne (run : Run pieces) : lastFile none run.before ≠ some run.file := by
  unfold lastFile
  cases last : run.before.getLast? with
  | none => nofun
  | some entry => exact fun again => run.starts entry last (Option.some.inj again)

theorem inRun (run : Run pieces) : ∃ number, InRun run.mapBefore
    ⟨run.origin, number, run.first.line, run.mapBefore.lineStarts.size⟩ run.file run.text
      run.mapAfter := by
  have sound : run.mapBefore.Sound := sound_empty.addPieces 0 _
  obtain ⟨earlier, goesOn⟩ := filed_eq_append run.split
  obtain ⟨first, goesOn⟩ := List.cons.inj goesOn
  have file : run.file = fileOf (lastFile none run.before) run.first.name :=
    congrArg FiledPiece.file first
  have current : run.mapBefore.currentFile? = lastFile none run.before := by
    have last := currentFile?_addPieces sound_empty 0 (run.before.map FiledPiece.piece)
    rw [show ({} : SourceMap).currentFile? = none from rfl, ← earlier] at last
    exact last
  obtain ⟨number, started⟩ := InRun.start sound run.first
    (current ▸ file ▸ run.currentFile_ne) run.origin
  rw [current, ← file] at started
  change run.rest ++ run.after = filed (some (fileOf _ run.first.name)) _ at goesOn
  rw [← file] at goesOn
  exact ⟨number, started.addPieces (sound.addChunk _ _ _ _) run.rest run.same
    (filed_eq_append goesOn.symm).1⟩

theorem started (run : Run pieces) : 0 < run.mapAfter.segments.size := by
  obtain ⟨number, inRun⟩ := run.inRun
  rw [← Array.length_toList, inRun.segments, List.length_append]
  exact Nat.succ_pos _

theorem grows (run : Run pieces) :
    GrowsFrom (run.origin + run.text.length) run.mapAfter (ofPieces pieces) := by
  have grows := run.mapAfter.addPieces_grows (run.origin + run.text.length)
    (run.after.map FiledPiece.piece)
  rw [run.addPieces_mapAfter] at grows
  exact grows

theorem locate (run : Run pieces) (contains : run.Contains position) :
    ∃ number, (ofPieces pieces).files[number]? = some run.file ∧
      (ofPieces pieces).locate position =
        ⟨number, wrap (run.lineAt position), wrap (run.columnAt position)⟩ := by
  obtain ⟨number, inRun⟩ := run.inRun
  obtain ⟨above, below⟩ := contains
  have sound : run.mapAfter.Sound := (sound_empty.addPieces 0 _).addPieces _ _
  have ends : run.mapBefore.EndsBy run.origin := by
    have ends := (endsBy_empty 0).addPieces (run.before.map FiledPiece.piece)
    rw [Nat.zero_add] at ends
    exact ends
  have place := inRun.locate ends (position - run.origin) (by omega)
  rw [Nat.add_sub_of_le above] at place
  refine ⟨number, run.grows.file inRun.known, ?_⟩
  rw [run.grows.locate sound run.started below, place]
  unfold wrap lineAt columnAt seen
  rw [Nat.mod_add_mod]

end Run

/-- Each position in the text of pieces lies in a longest run of pieces of one file, and its
place is told by that run: the file, the line of the run and the line feeds since its start, and
the distance from the last of them. Pieces that come later never change it. -/
theorem locate_in_run (pieces later : List Piece) :
    (∀ position, position < (textOf pieces).length →
      ∃ run : Run pieces, run.Contains position) ∧
    ∀ (run : Run pieces) (position : Nat), run.Contains position →
      (ofPieces (pieces ++ later)).locate position = (ofPieces pieces).locate position ∧
      (run.lineAt position < UInt32.size → run.columnAt position < UInt32.size →
        ∃ number, (ofPieces pieces).files[number]? = some run.file ∧
          (ofPieces (pieces ++ later)).files[number]? = some run.file ∧
          (ofPieces pieces).locate position =
            ⟨number, run.lineAt position, run.columnAt position⟩) := by
  have grows : GrowsFrom (textOf pieces).length (ofPieces pieces) (ofPieces (pieces ++ later)) := by
    rw [ofPieces, ofPieces, addPieces_append, Nat.zero_add]
    exact addPieces_grows _ _ _
  refine ⟨fun position inside => exists_run_at pieces inside,
    fun run position contains => ⟨?_, fun lines columns => ?_⟩⟩
  · exact grows.locate (sound_empty.addPieces 0 pieces) (run.grows.segments_pos run.started)
      (run.lt_length_textOf contains)
  · obtain ⟨number, known, place⟩ := run.locate contains
    unfold wrap at place
    rw [Nat.mod_eq_of_lt lines, Nat.mod_eq_of_lt columns] at place
    exact ⟨number, known, grows.file known, place⟩

/-- A line that one piece begins and the next one ends, in a file that goes on without a name. -/
theorem locate_in_run_mid_line :
    let call : Piece := ⟨ascii "foo(\nx", some "a.rb", 7, by decide⟩
    let argument : Piece := ⟨ascii "y)\n", none, 1, by decide⟩
    let other : Piece := ⟨ascii "bar\n", some "b.rb", 1, by decide⟩
    ∃ run : Run [call, argument], run.file = "a.rb" ∧ run.Contains 7 ∧
      run.lineAt 7 = 8 ∧ run.columnAt 7 = 3 ∧
      ∃ number, (ofPieces [call, argument]).files[number]? = some "a.rb" ∧
        (ofPieces [call, argument]).locate 7 = ⟨number, 8, 3⟩ ∧
        (ofPieces ([call, argument] ++ [other])).locate 7 = ⟨number, 8, 3⟩ := by
  intro call argument other
  let run : Run [call, argument] :=
    { before := []
      file := "a.rb"
      first := call
      rest := [⟨"a.rb", argument⟩]
      after := []
      split := rfl
      same := fun entry member => List.mem_singleton.mp member ▸ rfl
      starts := nofun
      ends := nofun }
  have contains : run.Contains 7 := ⟨by decide, by decide⟩
  obtain ⟨stays, place⟩ := (locate_in_run [call, argument] [other]).2 run 7 contains
  obtain ⟨number, known, -, place⟩ := place (by decide) (by decide)
  exact ⟨run, rfl, contains, rfl, rfl, number, known, place, stays.trans place⟩

/-! ### Texts without bytes -/

/-- In a map of one file the place of a position is told by how many lines start up to it and
where the last of them starts. -/
theorem locate_one_file {number line : Nat}
    (segments : map.segments.toList = [⟨0, number, line, 0⟩])
    (ordered : map.lineStarts.toList.Pairwise (· ≤ ·))
    (started : 0 < map.lineStarts.toList.countP (· ≤ position)) :
    map.locate position =
      { file := number
        line := wrap (line + (map.lineStarts.toList.countP (· ≤ position) - 1))
        column := wrap (wrap (position -
          ((map.lineStarts.toList.filter (· ≤ position)).getLast?).getD 0) + 1) } := by
  have reached : map.segments.countP (·.offset ≤ position) = 1 := by
    rw [← Array.countP_toList, segments]
    rfl
  have here : map.segments[0]? = some ⟨0, number, line, 0⟩ := by
    rw [← Array.getElem?_toList, segments]
    rfl
  unfold locate
  dsimp only
  rw [reached, here, ← getElem?_countP_pred ordered started]
  simp only [Nat.max_zero, Nat.sub_zero, Array.countP_toList, Array.getElem?_toList]

/-- Where a file arrives in texts, the first of which names it, the file and the column of each
byte are those that it has where they arrive as one, and its line is moved on by the texts
without bytes before it that began a line. -/
theorem locate_addTexts (first : Bytes) (name : Option String) (line : Nat) (rest : List Bytes)
    (inside : position < (first ++ rest.flatten).length) :
    ((({} : SourceMap).addChunk 0 first name line).addTexts first.length rest).locate position =
      let whole := (({} : SourceMap).addChunk 0 (first ++ rest.flatten) name line).locate position
      { whole with
        line := wrap (whole.line + (idle false 0 (first :: rest)).countP (· ≤ position)) } := by
  have fresh : ({} : SourceMap).continues name = false := rfl
  have starts (bytes : Bytes) := addChunk_starting fresh 0 bytes line
  obtain ⟨-, segments, lineStarts⟩ := starts first
  obtain ⟨-, wholeSegments, wholeStarts⟩ := starts (first ++ rest.flatten)
  have goesOn : (({} : SourceMap).addChunk 0 first name line).continues none = true := by
    rw [continues_none, ← Array.getLast?_toList, segments]
    rfl
  obtain ⟨sameSegments, more⟩ := addTexts_adds goesOn first.length rest
  have parts : ((({} : SourceMap).addChunk 0 first name line).addTexts
      first.length rest).lineStarts.toList = startsOf false 0 (first :: rest) := by
    rw [more, lineStarts, addChunk_leavesOpen, startsOf, Nat.zero_add]
    rfl
  have whole : (({} : SourceMap).addChunk 0 (first ++ rest.flatten) name line).lineStarts.toList =
      startsOf false 0 [(first :: rest).flatten] := by
    rw [wholeStarts, startsOf, startsOf, List.append_nil]
    rfl
  have started : 0 < (startsOf false 0 [(first :: rest).flatten]).countP (· ≤ position) :=
    List.countP_pos_iff.mpr ⟨0, by simp [startsOf, begun], by simp⟩
  obtain ⟨counted, last⟩ := startsOf_flatten false (first :: rest) (Nat.zero_le position)
    (by simpa using inside)
  rw [locate_one_file (sameSegments ▸ segments) (parts ▸ pairwise_startsOf ..)
      (by rw [parts]; omega),
    locate_one_file wholeSegments (whole ▸ pairwise_startsOf ..) (whole ▸ started), parts, whole,
    counted, last]
  unfold wrap
  simp only [Nat.mod_add_mod]
  congr 2
  omega

/-- A text without bytes where no line is open begins the line that the next text begins again. -/
example :
    ((({} : SourceMap).addChunk 0 (ascii "a\n") (some "a.rb") 1).addTexts 2
      [[], ascii "b"]).locate 2 = ⟨0, 3, 1⟩ := by cbv

theorem wrap_line_locate (map : SourceMap) (position : Nat) :
    wrap (map.locate position).line = (map.locate position).line := by
  unfold locate
  dsimp only
  split
  · rfl
  · exact Nat.mod_mod _ _

/-- How a file is cut into texts does not show where each of them has bytes or finds a line
open. -/
theorem locate_addTexts_of_idle_eq_nil (first : Bytes) (name : Option String) (line : Nat)
    (rest : List Bytes) (none : idle false 0 (first :: rest) = [])
    (inside : position < (first ++ rest.flatten).length) :
    ((({} : SourceMap).addChunk 0 first name line).addTexts first.length rest).locate position =
      (({} : SourceMap).addChunk 0 (first ++ rest.flatten) name line).locate position := by
  rw [locate_addTexts first name line rest inside, none]
  dsimp only
  rw [List.countP_nil, Nat.add_zero, wrap_line_locate]

end SourceMap

end RubySyntax
