/-
Where a byte of the input stands: file, line and column.

The input may arrive in pieces. A piece that names another file starts a new
segment at its own first line; a piece without a name, or with the name of the
current file, goes on where the last one stopped, in the middle of a line if
that piece did not end with a line feed.

Lines and columns wrap as 32-bit numbers. The numbers of files have no bound
here; as 16-bit numbers they are the same for inputs of up to 65536 files.
-/

import RubySyntax.Text.Byte

namespace RubySyntax

structure Segment where
  offset : Nat
  file : Nat
  firstLine : Nat
  /-- How many line starts were known before the segment. -/
  firstLineIndex : Nat
deriving DecidableEq, Repr, Inhabited

/-- A place as people count: lines and columns from one, columns in bytes.
Lines and columns are 32-bit numbers. -/
structure Location where
  file : Nat
  line : Nat
  column : Nat
deriving DecidableEq, Repr, Inhabited

structure SourceMap where
  files : Array String := #[]
  segments : Array Segment := #[]
  lineStarts : Array Nat := #[]
  /-- The last byte received was not a line feed. -/
  openLine : Bool := false
deriving DecidableEq, Repr, Inhabited

namespace SourceMap

def wrap (number : Nat) : Nat :=
  number % UInt32.size

def unnamed : String := "-"

/-- Where lines start inside a piece at `offset`: after each line feed that is
not its last byte. -/
def innerLineStarts (offset : Nat) : Bytes → List Nat
  | [] => []
  | [_] => []
  | byte :: next :: rest =>
      if byte.char == '\n' then (offset + 1) :: innerLineStarts (offset + 1) (next :: rest)
      else innerLineStarts (offset + 1) (next :: rest)

def continues (map : SourceMap) (name : Option String) : Bool :=
  match map.segments.back?, name with
  | none, _ => false
  | some _, none => true
  | some segment, some name => map.files[segment.file]? == some name

def addFile (map : SourceMap) (name : String) : Nat × SourceMap :=
  match map.files.findIdx? (· == name) with
  | some index => (index, map)
  | none => (map.files.size, { map with files := map.files.push name })

def addSegment (map : SourceMap) (offset : Nat) (name : String) (line : Nat) :
    SourceMap :=
  let (file, map) := map.addFile name
  { map with
    segments := map.segments.push
      { offset, file, firstLine := line, firstLineIndex := map.lineStarts.size }
    lineStarts := map.lineStarts.push offset }

def continueFile (map : SourceMap) (offset : Nat) : SourceMap :=
  if map.openLine then map
  else { map with lineStarts := map.lineStarts.push offset }

/-- Registers the piece that starts at `offset`. The line counts only if the
piece starts a segment. -/
def addChunk (map : SourceMap) (offset : Nat) (bytes : Bytes) (name : Option String)
    (line : Nat) : SourceMap :=
  let placed :=
    if map.continues name then map.continueFile offset
    else map.addSegment offset (name.getD unnamed) line
  { placed with
    lineStarts := placed.lineStarts.appendList (innerLineStarts offset bytes)
    openLine :=
      match bytes.getLast? with
      | some last => last.char != '\n'
      | none => placed.openLine }

def fileName (map : SourceMap) (file : Nat) : String :=
  (map.files[file]?).getD unnamed

/-- The place of a position. A position before the first segment counts in it,
and one past the end counts on in the last line. -/
def locate (map : SourceMap) (position : Nat) : Location :=
  let reached := map.segments.countP (·.offset ≤ position)
  match map.segments[reached - 1]? with
  | none => ⟨0, 1, wrap (wrap position + 1)⟩
  | some segment =>
      let line :=
        max (map.lineStarts.countP (· ≤ position) - 1) segment.firstLineIndex
      let lineStart := (map.lineStarts[line]?).getD 0
      { file := segment.file
        line := wrap (segment.firstLine + (line - segment.firstLineIndex))
        column := wrap (wrap (position - lineStart) + 1) }

/-- The index of the line that `locate` looks up; nothing if there are no
segments and so no lines are looked up. -/
def lineIndex? (map : SourceMap) (position : Nat) : Option Nat :=
  (map.segments[map.segments.countP (·.offset ≤ position) - 1]?).map fun segment =>
    max (map.lineStarts.countP (· ≤ position) - 1) segment.firstLineIndex

def canLocate (map : SourceMap) (position : Nat) : Bool :=
  (map.lineIndex? position).all (· < map.lineStarts.size)

def knowsFile (map : SourceMap) : Bool :=
  map.segments.back?.all (·.file < map.files.size)

def lineOf (map : SourceMap) (position : Nat) : Nat :=
  (map.locate position).line

end SourceMap

end RubySyntax
