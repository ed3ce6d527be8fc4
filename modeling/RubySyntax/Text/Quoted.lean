/-
The quoted form of a byte string: printable ASCII stands for itself, and
everything else is written with a backslash.
-/

import RubySyntax.Text.Byte

namespace RubySyntax.Quoted

def hexDigit (value : Nat) : Char :=
  if value < 10 then Char.ofNat (0x30 + value) else Char.ofNat (0x37 + value)

def encodeByte (byte : Byte) : List Char :=
  if byte.char == '"' then ['\\', '"']
  else if byte.char == '\\' then ['\\', '\\']
  else if byte.char == '\n' then ['\\', 'n']
  else if byte.char == '\t' then ['\\', 't']
  else if 0x20 ≤ byte && byte ≤ 0x7E then [byte.char]
  else ['\\', 'x', hexDigit (byte.toNat / 16), hexDigit (byte.toNat % 16)]

def encode (bytes : Bytes) : List Char :=
  '"' :: bytes.flatMap encodeByte ++ ['"']

end RubySyntax.Quoted
