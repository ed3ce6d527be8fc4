/-
Reading decimal text as a floating-point value.

A text is a coefficient, perhaps with a fraction, and perhaps an exponent
after `e`. The value is the nearest one to the decimal written.
-/

import RubySyntax.Text.Byte
import RubySyntax.Number.Binary64

namespace RubySyntax.Decimal

def digits (text : Bytes) : Bytes × Bytes :=
  (text.takeWhile Byte.isDigit, text.dropWhile Byte.isDigit)

def fraction (text : Bytes) : Bytes × Bytes :=
  match text with
  | byte :: rest => if byte.char == '.' then digits rest else ([], text)
  | [] => ([], [])

/-- The exponent at the start of the text: zero if there is none, and nothing
if the text goes on in another way. -/
def exponent? (text : Bytes) : Option Int :=
  match text with
  | [] => some 0
  | mark :: rest =>
      if mark.char == 'e' || mark.char == 'E' then
        let negative := (rest.head?.map Byte.char) == some '-'
        let signed := negative || (rest.head?.map Byte.char) == some '+'
        let found := digits (if signed then rest.drop 1 else rest)
        if found.1.isEmpty || !found.2.isEmpty then none
        else
          let size : Int := positionalValue 10 found.1
          some (if negative then -size else size)
      else none

def magnitude? (text : Bytes) : Option Magnitude :=
  let whole := digits text
  let part := fraction whole.2
  if whole.1.isEmpty && part.1.isEmpty then none
  else
    (exponent? part.2).map fun exponent =>
      Magnitude.ofDecimal (positionalValue 10 (whole.1 ++ part.1))
        (exponent - part.1.length)

/-- The value of a decimal text, which may carry a sign. The word `inf` is
infinity. -/
def value? (text : Bytes) : Option Binary64 :=
  let negative := (text.head?.map Byte.char) == some '-'
  let signed := negative || (text.head?.map Byte.char) == some '+'
  let unsigned := if signed then text.drop 1 else text
  if unsigned == ascii "inf" then some ⟨negative, .infinite⟩
  else (magnitude? unsigned).map (Binary64.mk negative)

end RubySyntax.Decimal
