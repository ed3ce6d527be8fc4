/-
Escape sequences in literals.

A reading gives the bytes that a sequence stands for, how many bytes after the
backslash belong to it, and the problems found. Ranges are counted from the
backslash, which itself has the offset 0.
-/

import RubySyntax.Report.Problem

namespace RubySyntax

structure EscapeReading where
  bytes : Bytes := []
  length : Nat := 0
  remarks : List (Span × Problem) := []
deriving DecidableEq, Repr, Inhabited

namespace EscapeReading

def single (byte : Byte) (length : Nat) : EscapeReading :=
  { bytes := [byte], length }

/-- A sequence that stands for nothing because of a problem. The problem
covers the backslash and the bytes read. -/
def invalid (length : Nat) (problem : Problem) : EscapeReading :=
  { length, remarks := [(⟨0, length + 1⟩, problem)] }

def number (base count : Nat) (rest : Bytes) : Nat × Nat :=
  let digits := (rest.take count).takeWhile (Byte.isDigitIn base)
  (digits.length, positionalValue base digits)

def codePoint (value stop : Nat) : Bytes × List (Span × Problem) :=
  if Utf8.isScalar value then (Utf8.encode value, [])
  else ([], [(⟨0, stop⟩, .invalidCodePoint)])

/-- Code points between braces. `current` holds the value and the number of
the digits read of the code point at hand; `offset` is that of the next
byte. -/
def codePoints (current : Option (Nat × Nat)) (offset : Nat) : Bytes → EscapeReading
  | [] =>
      let finished := current.elim ([], []) fun number => codePoint number.1 offset
      { bytes := finished.1
        length := offset - 1
        remarks := finished.2 ++ [(⟨0, offset⟩, .invalidUnicodeEscape)] }
  | byte :: rest =>
      let complete := current.any fun number => number.2 == 6
      let digit? := if complete then none else Byte.digitValue? byte
      match digit? with
      | some digit =>
          let number := current.getD (0, 0)
          codePoints (some (number.1 * 16 + digit, number.2 + 1)) (offset + 1) rest
      | none =>
          let finished := current.elim ([], []) fun number => codePoint number.1 offset
          let after : EscapeReading :=
            if byte.char == ' ' || byte.char == '\t' then codePoints none (offset + 1) rest
            else if byte.char == '\x7d' then { length := offset }
            else
              { length := offset - 1
                remarks := [(⟨0, offset⟩, .invalidUnicodeEscape)] }
          { bytes := finished.1 ++ after.bytes
            length := after.length
            remarks := finished.2 ++ after.remarks }

def unicode (rest : Bytes) : EscapeReading :=
  if (rest.headD 0).char == '\x7b' then codePoints none 3 (rest.drop 1)
  else
    let digits := number 16 4 rest
    if digits.1 = 4 then
      let encoded := codePoint digits.2 6
      { bytes := encoded.1, length := 5, remarks := encoded.2 }
    else invalid (1 + digits.1) .invalidUnicodeEscape

def simple? (char : Char) : Option Byte :=
  match char with
  | 'n' => some 0x0A
  | 't' => some 0x09
  | 'r' => some 0x0D
  | 'f' => some 0x0C
  | 'v' => some 0x0B
  | 'a' => some 0x07
  | 'e' => some 0x1B
  | 's' => some 0x20
  | 'b' => some 0x08
  | _ => none

def shift (reading : EscapeReading) (before : Nat) : EscapeReading :=
  { reading with
    length := reading.length + before
    remarks := reading.remarks.map fun (span, problem) =>
      (⟨span.start + before, span.stop + before⟩, problem) }

def mapLast (reading : EscapeReading) (f : Byte → Byte) : EscapeReading :=
  { reading with bytes := reading.bytes.getLast?.toList.map f }

/-- A control character: the question mark stands for the byte 7F, any other
operand loses the bits that a control character lacks. -/
def controlled (offset : Nat) (rest : Bytes) (operand : EscapeReading) : EscapeReading :=
  if (rest.headD 0).char == '?' then single 0x7F offset
  else operand.mapLast (· &&& 0x9F)

mutual

def read : Bytes → EscapeReading
  | [] => invalid 0 .invalidEscape
  | byte :: rest =>
      match simple? byte.char with
      | some decoded => single decoded 1
      | none =>
          match byte.char with
          | '\n' => { length := 1 }
          | 'x' =>
              let digits := number 16 2 rest
              if digits.1 = 0 then invalid 1 .invalidHexEscape
              else single (UInt8.ofNat digits.2) (1 + digits.1)
          | 'u' => unicode rest
          | 'M' =>
              match rest with
              | mark :: after =>
                  if mark.char == '-' then
                    (operand 3 after).mapLast (· ||| 0x80)
                  else invalid 1 .invalidEscape
              | [] => invalid 1 .invalidEscape
          | 'C' =>
              match rest with
              | mark :: after =>
                  if mark.char == '-' then controlled 3 after (operand 3 after)
                  else invalid 1 .invalidEscape
              | [] => invalid 1 .invalidEscape
          | 'c' => controlled 2 rest (operand 2 rest)
          | _ =>
              if byte.isDigitIn 8 then
                let digits := number 8 3 (byte :: rest)
                single (UInt8.ofNat digits.2) digits.1
              else single byte 1

def operand (offset : Nat) : Bytes → EscapeReading
  | [] =>
      { length := offset - 1, remarks := [(⟨offset, offset⟩, .invalidEscape)] }
  | byte :: rest =>
      if byte.char == '\\' then (read rest).shift offset
      else single byte offset

end

end EscapeReading

inductive EscapeRule where
  | decode
  | keep
  /-- Only the backslash and the delimiters can be escaped. -/
  | delimiters
deriving DecidableEq, Repr, Inhabited

namespace EscapeReading

/-- The sequence after a backslash in a literal with the given delimiters.
Past the end the next byte counts as 0. -/
def readIn (rule : EscapeRule) (list : Bool) (opening : Option Byte) (closing : Byte)
    (rest : Bytes) : EscapeReading :=
  let byte := rest.headD 0
  let delimiter := byte == closing || some byte == opening
  let blank := list && byte.isSpace
  match rule with
  | .decode => if blank || delimiter then single byte 1 else read rest
  | .keep =>
      if byte == closing && closing.char == '/' then single byte 1
      else if byte.char == '\n' then { length := 1 }
      else if rest.isEmpty then { bytes := [0x5C] }
      else { bytes := [0x5C, byte], length := 1 }
  -- At the end of the input the byte is 0, which may be the delimiter.
  | .delimiters =>
      if byte.char == '\\' || delimiter || blank then single byte 1
      else { bytes := [0x5C] }

end EscapeReading

end RubySyntax
