/-
Numeric literals.

Digits may be separated by single underscores. A reading gives the length of
the literal, its value, and the problems found, each with the offset of the
byte that it concerns or with none if it concerns the whole literal.
-/

import RubySyntax.Number.Decimal
import RubySyntax.Report.Problem

namespace RubySyntax

structure DigitRun where
  digits : Bytes := []
  length : Nat := 0
  /-- The last byte of the run is a separator. -/
  trailing : Bool := false
deriving DecidableEq, Repr, Inhabited

namespace DigitRun

/-- The longest run of accepted digits and separators at the start. A
separator is taken only where `separable` allows one; after a digit it does,
after a separator it does not. -/
def scan (accept : Byte → Bool) (separable : Bool) : Bytes → DigitRun
  | [] => {}
  | byte :: rest =>
      if byte.char == '_' then
        if separable then
          let run := scan accept false rest
          { run with
            length := run.length + 1
            trailing := run.trailing || run.length == 0 }
        else {}
      else if accept byte then
        let run := scan accept true rest
        { run with digits := byte :: run.digits, length := run.length + 1 }
      else {}

def remarks (run : DigitRun) (offset : Nat) : List (Option Nat × Problem) :=
  if run.trailing then [(some (offset + run.length - 1), .trailingUnderscore)] else []

end DigitRun

structure NumberReading where
  length : Nat
  value : TokenKind
  remarks : List (Option Nat × Problem)
deriving DecidableEq, Repr, Inhabited

namespace NumberReading

structure Piece where
  text : Bytes := []
  length : Nat := 0
  remarks : List (Option Nat × Problem) := []

def fraction (offset : Nat) (rest : Bytes) : Piece :=
  match rest with
  | point :: digit :: _ =>
      if point.char == '.' && digit.isDigit then
        let run := DigitRun.scan Byte.isDigit true (rest.drop 1)
        { text := point :: run.digits
          length := 1 + run.length
          remarks := run.remarks (offset + 1) }
      else {}
  | _ => {}

def exponent (offset : Nat) (rest : Bytes) : Piece :=
  match rest with
  | [] => {}
  | mark :: after =>
      if mark.char == 'e' || mark.char == 'E' then
        let sign := (after.take 1).filter fun byte => byte.char == '+' || byte.char == '-'
        let digits := after.drop sign.length
        if (digits.head?.map Byte.isDigit).getD false then
          let run := DigitRun.scan Byte.isDigit true digits
          { text := ascii "e" ++ sign ++ run.digits
            length := 1 + sign.length + run.length
            remarks := run.remarks (offset + 1 + sign.length) }
        else {}
      else {}

def float (text : Bytes) (length : Nat) (remarks : List (Option Nat × Problem)) :
    NumberReading :=
  let value := (Decimal.value? text).getD .zero
  { length
    value := .float value
    remarks :=
      if value.isInfinite then remarks ++ [(none, .floatOutOfRange text)] else remarks }

def decimal (rest : Bytes) : NumberReading :=
  let whole := DigitRun.scan Byte.isDigit true rest
  let point := fraction whole.length (rest.drop whole.length)
  let scale := exponent (whole.length + point.length)
    (rest.drop (whole.length + point.length))
  let length := whole.length + point.length + scale.length
  let remarks := whole.remarks 0 ++ point.remarks ++ scale.remarks
  if point.length + scale.length = 0 then
    { length, value := .integer (positionalValue 10 whole.digits), remarks }
  else float (whole.digits ++ point.text ++ scale.text) length remarks

/-- An integer in another base, or in base ten with a mark, after `marked`
bytes that announce the base. Octal literals take all decimal digits so that a
wrong one is found. A separator may come first only after a plain zero. -/
def based (base marked : Nat) (rest : Bytes) : NumberReading :=
  let accepted := if base = 8 then 10 else base
  let run := DigitRun.scan (Byte.isDigitIn accepted) (marked == 1) (rest.drop marked)
  let length := marked + run.length
  let found := run.remarks marked
  if run.digits.isEmpty then
    { length, value := .integer 0, remarks := found ++ [(none, .missingDigits)] }
  else if run.digits.all (Byte.isDigitIn base) then
    { length, value := .integer (positionalValue base run.digits), remarks := found }
  else { length, value := .integer 0, remarks := found ++ [(none, .invalidOctalDigit)] }

def ofDigits (rest : Bytes) : NumberReading :=
  match rest with
  | zero :: next :: _ =>
      if zero.char == '0' then
        match next.char with
        | 'x' | 'X' => based 16 2 rest
        | 'b' | 'B' => based 2 2 rest
        | 'o' | 'O' => based 8 2 rest
        | 'd' | 'D' => based 10 2 rest
        | '_' => based 8 1 rest
        | _ => if next.isDigit then based 8 1 rest else decimal rest
      else decimal rest
  | _ => decimal rest

def ofFraction (rest : Bytes) : NumberReading :=
  let run := DigitRun.scan Byte.isDigit true rest
  let scale := exponent run.length (rest.drop run.length)
  float (ascii "0." ++ run.digits ++ scale.text) (run.length + scale.length)
    (run.remarks 0 ++ scale.remarks)

end NumberReading

end RubySyntax
