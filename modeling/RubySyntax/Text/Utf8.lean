/-
UTF-8 as a code on byte strings: the length of a well-formed character, the
encoding of a scalar value, and the reading of arbitrary bytes as text.

Reading never fails. A maximal ill-formed piece, that is the longest start of
some well-formed character that the bytes do not complete, becomes one
replacement character; a byte that starts no character becomes one by itself.
-/

import RubySyntax.Text.Byte

namespace RubySyntax.Utf8

def isTail (byte : Byte) : Bool :=
  0x80 ≤ byte && byte ≤ 0xBF

/-- The number of bytes that a leading byte announces. Bytes that lead nothing
announce one. -/
def announcedLength (lead : Byte) : Nat :=
  if 0xF0 ≤ lead && lead ≤ 0xF7 then 4
  else if 0xE0 ≤ lead && lead ≤ 0xEF then 3
  else if 0xC0 ≤ lead && lead ≤ 0xDF then 2
  else 1

/-- What a leading byte allows: how many bytes follow it, and the least and
the greatest value of the first of them. Overlong forms, surrogates and values
above U+10FFFF are excluded by these bounds. -/
def expectation? (lead : Byte) : Option (Nat × Byte × Byte) :=
  if lead ≤ 0x7F then some (0, 0x80, 0xBF)
  else if 0xC2 ≤ lead && lead ≤ 0xDF then some (1, 0x80, 0xBF)
  else if lead == 0xE0 then some (2, 0xA0, 0xBF)
  else if lead == 0xED then some (2, 0x80, 0x9F)
  else if 0xE1 ≤ lead && lead ≤ 0xEF then some (2, 0x80, 0xBF)
  else if lead == 0xF0 then some (3, 0x90, 0xBF)
  else if lead == 0xF4 then some (3, 0x80, 0x8F)
  else if 0xF1 ≤ lead && lead ≤ 0xF3 then some (3, 0x80, 0xBF)
  else none

def tailLength (wanted : Nat) (low high : Byte) : Bytes → Nat
  | [] => 0
  | byte :: rest =>
      match wanted with
      | 0 => 0
      | wanted + 1 =>
          if low ≤ byte && byte ≤ high then
            1 + tailLength wanted 0x80 0xBF rest
          else 0

def charLength? : Bytes → Option Nat
  | [] => none
  | lead :: rest =>
      match expectation? lead with
      | none => none
      | some (wanted, low, high) =>
          if tailLength wanted low high rest = wanted then some (wanted + 1)
          else none

/-- The length of the piece at the start of the bytes that reading takes as
one character, well formed or not. -/
def pieceLength : Bytes → Nat
  | [] => 0
  | lead :: rest =>
      match expectation? lead with
      | none => 1
      | some (wanted, low, high) => 1 + tailLength wanted low high rest

def scalarOf : Bytes → Nat
  | [a] => a.toNat
  | [a, b] => (a.toNat % 0x20) * 0x40 + b.toNat % 0x40
  | [a, b, c] =>
      ((a.toNat % 0x10) * 0x40 + b.toNat % 0x40) * 0x40 + c.toNat % 0x40
  | [a, b, c, d] =>
      (((a.toNat % 0x08) * 0x40 + b.toNat % 0x40) * 0x40 + c.toNat % 0x40) * 0x40
        + d.toNat % 0x40
  | _ => 0

def replacement : Char := Char.ofNat 0xFFFD

def pieceChar (bytes : Bytes) : Char :=
  match charLength? bytes with
  | some length => Char.ofNat (scalarOf (bytes.take length))
  | none => replacement

/-- The characters of arbitrary bytes. `pending` counts the bytes that belong
to the piece already read. -/
def readFrom (pending : Nat) : Bytes → List Char
  | [] => []
  | byte :: rest =>
      match pending with
      | pending + 1 => readFrom pending rest
      | 0 =>
          pieceChar (byte :: rest) ::
            readFrom (pieceLength (byte :: rest) - 1) rest

def read (bytes : Bytes) : String :=
  String.ofList (readFrom 0 bytes)

def isScalar (value : Nat) : Bool :=
  value < 0xD800 || (0xE000 ≤ value && value < 0x110000)

def encode (value : Nat) : Bytes :=
  let tail (shift : Nat) : Byte := UInt8.ofNat (0x80 + value / shift % 0x40)
  if value < 0x80 then [UInt8.ofNat value]
  else if value < 0x800 then [UInt8.ofNat (0xC0 + value / 0x40), tail 1]
  else if value < 0x10000 then
    [UInt8.ofNat (0xE0 + value / 0x1000), tail 0x40, tail 1]
  else
    [UInt8.ofNat (0xF0 + value / 0x40000), tail 0x1000, tail 0x40, tail 1]

def ofText (text : String) : Bytes :=
  text.toList.flatMap fun char => encode char.toNat

/-- How many bytes at the start belong to name characters: ASCII name bytes
and well-formed characters outside ASCII. `pending` counts bytes of the
character already accepted. -/
def nameLengthFrom (pending : Nat) : Bytes → Nat
  | [] => 0
  | byte :: rest =>
      match pending with
      | pending + 1 => 1 + nameLengthFrom pending rest
      | 0 =>
          if byte < 0x80 then
            if Byte.isNamePart byte then 1 + nameLengthFrom 0 rest else 0
          else
            match charLength? (byte :: rest) with
            | some length => 1 + nameLengthFrom (length - 1) rest
            | none => 0

def nameLength (bytes : Bytes) : Nat :=
  nameLengthFrom 0 bytes

end RubySyntax.Utf8
