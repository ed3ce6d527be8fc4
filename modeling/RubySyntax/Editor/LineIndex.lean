/-
Positions in a text as editors count them: by line, and by UTF-16 units within
the line. Both numbers are 32-bit words, which wrap in a text that has more
lines, or a line that has more units, than such a word can count.
-/

namespace RubySyntax

structure TextPosition where
  line : UInt32
  character : UInt32
deriving DecidableEq, Repr, Inhabited

structure LineIndex where
  text : String
  starts : Array Nat
deriving DecidableEq, Repr, Inhabited

def utf16Size (char : Char) : Nat :=
  if char.val < 0x10000 then 1 else 2

def utf16Length : List Char → Nat
  | [] => 0
  | char :: rest => utf16Size char + utf16Length rest

def floorOffset (text : String) : Nat → Nat
  | 0 => 0
  | offset + 1 =>
      if (⟨offset + 1⟩ : String.Pos.Raw).isValid text then offset + 1
      else floorOffset text offset

namespace LineIndex

def startsFrom (offset : Nat) : List Char → List Nat
  | [] => []
  | char :: rest =>
      let next := offset + char.utf8Size
      if char == '\n' then next :: startsFrom next rest else startsFrom next rest

def ofText (text : String) : LineIndex :=
  { text, starts := (0 :: startsFrom 0 text.toList).toArray }

/-- The place of a byte offset. One inside a character counts as the start of
it, and one past the end as the end. -/
def position (index : LineIndex) (offset : Nat) : TextPosition :=
  let reached := min offset index.text.utf8ByteSize
  let line := index.starts.countP (· ≤ reached) - 1
  let stop := floorOffset index.text reached
  let start := min ((index.starts[line]?).getD 0) stop
  { line := .ofNat line
    character :=
      .ofNat (utf16Length (String.Pos.Raw.extract index.text ⟨start⟩ ⟨stop⟩).toList) }

def seekUnits (wanted units offset : Nat) : List Char → Nat
  | [] => offset
  | char :: rest =>
      if wanted ≤ units then offset
      else seekUnits wanted (units + utf16Size char) (offset + char.utf8Size) rest

/-- The byte offset of a place; nothing if the text has too few lines. Past the
end of a line that is the start of the next one. -/
def offset? (index : LineIndex) (position : TextPosition) : Option Nat :=
  (index.starts[position.line.toNat]?).map fun start =>
    let stop := (index.starts[position.line.toNat + 1]?).getD index.text.utf8ByteSize
    seekUnits position.character.toNat 0 start
      (String.Pos.Raw.extract index.text ⟨start⟩ ⟨stop⟩).toList

end LineIndex

end RubySyntax
