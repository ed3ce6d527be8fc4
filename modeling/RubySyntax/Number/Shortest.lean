/-
The shortest decimal that reads back to a floating-point value, and the text
in which float literals are shown.

For one digit, two digits and so on up to seventeen, the two neighbours of the
value on the grid of that many digits are tested. The first grid with a hit
decides; of two hits the nearer is taken, and of two equally near the larger.
-/

import RubySyntax.Number.Binary64

namespace RubySyntax.Shortest

/-- Decimal digits with a point in front of them and a power of ten:
`0.d1 d2 ... * 10 ^ point`. -/
structure Digits where
  digits : List Char
  point : Int
deriving DecidableEq, Repr

structure Interval where
  low : Nat
  middle : Nat
  high : Nat
  denominator : Nat
  closed : Bool

/-- The interval of `mantissa * 2 ^ exponent`: it reaches half-way to the
neighbours, and the lower neighbour of a power of two is twice as near. The
ends belong to it exactly if the mantissa is even. -/
def interval (mantissa : Nat) (exponent : Int) : Interval :=
  let below := if mantissa = Nat.pow 2 52 ∧ exponent > Magnitude.leastExponent then 1 else 2
  let unit := Magnitude.scale 1 1 (2 - exponent)
  { low := (4 * mantissa - below) * unit.1
    middle := 4 * mantissa * unit.1
    high := (4 * mantissa + 2) * unit.1
    denominator := unit.2
    closed := mantissa % 2 == 0 }

def Interval.holds (range : Interval) (candidate : Nat) (power : Int) : Bool :=
  let left := if power < 0 then candidate * range.denominator
    else candidate * Nat.pow 10 power.natAbs * range.denominator
  let factor := if power < 0 then Nat.pow 10 power.natAbs else 1
  if range.closed then range.low * factor ≤ left && left ≤ range.high * factor
  else range.low * factor < left && left < range.high * factor

/-- The value in units of `10 ^ power`: the lower neighbour on that grid, and
whether the upper neighbour is at least as near. -/
def Interval.lowerNeighbour (range : Interval) (power : Int) : Nat × Bool :=
  let numerator := if power < 0 then range.middle * Nat.pow 10 power.natAbs else range.middle
  let denominator :=
    if power < 0 then range.denominator else range.denominator * Nat.pow 10 power.natAbs
  (numerator / denominator, denominator ≤ 2 * (numerator % denominator))

def Interval.onGrid? (range : Interval) (power : Int) : Option Nat :=
  let lower := range.lowerNeighbour power
  let lowerHit := range.holds lower.1 power
  let upperHit := range.holds (lower.1 + 1) power
  if lowerHit && upperHit then some (if lower.2 then lower.1 + 1 else lower.1)
  else if lowerHit then some lower.1
  else if upperHit then some (lower.1 + 1)
  else none

/-- The number of digits before the point of a positive ratio, negative for
the zeros after the point: the least `order` with `ratio < 10 ^ order`, looked
for upwards from a start that is not above it. -/
def order (numerator denominator : Nat) : Nat → Int → Int
  | 0, start => start
  | fuel + 1, start =>
      let below :=
        if start < 0 then numerator * Nat.pow 10 start.natAbs < denominator
        else numerator < denominator * Nat.pow 10 start.natAbs
      if below then start else order numerator denominator fuel (start + 1)

def search (range : Interval) (point : Int) : Nat → Nat → Nat × Int
  | 0, count => (range.lowerNeighbour (point - count) |>.1, point - count)
  | fuel + 1, count =>
      match range.onGrid? (point - count) with
      | some found => (found, point - count)
      | none => search range point fuel (count + 1)

def dropTrailingZeros (digits : List Char) : List Char :=
  (digits.reverse.dropWhile (· == '0')).reverse

def shortest (mantissa : Nat) (exponent : Int) : Digits :=
  let range := interval mantissa exponent
  let point := order range.middle range.denominator 700 (-330)
  let found := search range point 17 1
  let digits := Nat.toDigits 10 found.1
  { digits := dropTrailingZeros digits, point := found.2 + digits.length }

def zeros (count : Nat) : List Char :=
  List.replicate count '0'

def positional (value : Digits) : List Char :=
  if value.point ≤ 0 then
    '0' :: '.' :: zeros value.point.natAbs ++ value.digits
  else
    let whole := value.point.natAbs
    if value.digits.length ≤ whole then
      value.digits ++ zeros (whole - value.digits.length) ++ ['.', '0']
    else value.digits.take whole ++ '.' :: value.digits.drop whole

def scientific (value : Digits) : List Char :=
  let mantissa := match value.digits with
    | [] => ['0']
    | [digit] => [digit]
    | digit :: rest => digit :: '.' :: rest
  mantissa ++ 'e' :: (toString (value.point - 1)).toList

/-- The text of a size: positional from 0.0001 up to below 10^16, scientific
otherwise. -/
def magnitudeText : Magnitude → List Char
  | .infinite => ['i', 'n', 'f']
  | .finite mantissa exponent =>
      if mantissa = 0 then ['0', '.', '0']
      else
        let value := shortest mantissa exponent
        if -3 ≤ value.point ∧ value.point ≤ 16 then positional value
        else scientific value

def text (value : Binary64) : String :=
  String.ofList
    (if value.negative then '-' :: magnitudeText value.magnitude
     else magnitudeText value.magnitude)

end RubySyntax.Shortest
