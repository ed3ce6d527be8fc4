/-
Bytes of source text and the ASCII classes that the lexical rules use.

A byte that is compared with a written character is first read as the
character of the same code, so that rules can be stated with character
literals.  The byte 0 doubles as the answer of a look-ahead past the end.
-/

namespace RubySyntax

abbrev Byte := UInt8

abbrev Bytes := List Byte

def ascii (text : String) : Bytes :=
  text.toList.map Char.toUInt8

namespace Byte

def char (byte : Byte) : Char :=
  Char.ofUInt8 byte

def isDigit (byte : Byte) : Bool :=
  0x30 ≤ byte && byte ≤ 0x39

def isUpper (byte : Byte) : Bool :=
  0x41 ≤ byte && byte ≤ 0x5A

def isLower (byte : Byte) : Bool :=
  0x61 ≤ byte && byte ≤ 0x7A

def isAlpha (byte : Byte) : Bool :=
  isUpper byte || isLower byte

def isAlphanumeric (byte : Byte) : Bool :=
  isAlpha byte || isDigit byte

def isSpace (byte : Byte) : Bool :=
  byte == 0x20 || (0x09 ≤ byte && byte ≤ 0x0D)

def isBlank (byte : Byte) : Bool :=
  isSpace byte && byte != 0x0A

def isNameStart (byte : Byte) : Bool :=
  isAlpha byte || byte == 0x5F || 0x80 ≤ byte

def isNamePart (byte : Byte) : Bool :=
  isAlphanumeric byte || byte == 0x5F || 0x80 ≤ byte

def digitValue? (byte : Byte) : Option Nat :=
  if isDigit byte then some (byte.toNat - 0x30)
  else if 0x61 ≤ byte && byte ≤ 0x66 then some (byte.toNat - 0x57)
  else if 0x41 ≤ byte && byte ≤ 0x46 then some (byte.toNat - 0x37)
  else none

def isDigitIn (base : Nat) (byte : Byte) : Bool :=
  match digitValue? byte with
  | some value => value < base
  | none => false

def hex (byte : Byte) : String :=
  let digit (value : Nat) : Char :=
    if value < 10 then Char.ofNat (0x30 + value) else Char.ofNat (0x37 + value)
  String.ofList [digit (byte.toNat / 16), digit (byte.toNat % 16)]

end Byte

/-- The value of a digit string in a base: the sum of its digits weighted by
the powers of the base. A byte that is no digit counts as zero. -/
def positionalValue (base : Nat) (digits : Bytes) : Nat :=
  digits.foldl (fun value byte => value * base + (Byte.digitValue? byte).getD 0) 0

end RubySyntax
