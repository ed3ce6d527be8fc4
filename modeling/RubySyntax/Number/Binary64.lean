/-
Binary floating-point values of 64 bits, held exactly.

A finite value is a mantissa below 2^53 times a power of two between 2^-1074
and 2^971. Values come from exact ratios, rounded to the nearest value with
ties to the even mantissa; what lies beyond the largest finite value becomes
infinite. There is no value that is not a number.
-/

namespace RubySyntax

inductive Magnitude where
  | finite (mantissa : Nat) (exponent : Int)
  | infinite
deriving DecidableEq, Repr, Inhabited

structure Binary64 where
  negative : Bool
  magnitude : Magnitude
deriving DecidableEq, Repr, Inhabited

namespace Magnitude

def leastExponent : Int := -1074

def greatestExponent : Int := 971

def zero : Magnitude := .finite 0 leastExponent

/-- Divides two positive numbers by a power of two: the ratio of the results
is the ratio of the arguments divided by `2 ^ exponent`. -/
def scale (numerator denominator : Nat) (exponent : Int) : Nat × Nat :=
  if exponent < 0 then (numerator * Nat.pow 2 exponent.natAbs, denominator)
  else (numerator, denominator * Nat.pow 2 exponent.natAbs)

/-- The exponent at which the ratio, written as a mantissa times a power of
two, has a mantissa of exactly 53 bits. -/
def exactExponent (numerator denominator : Nat) : Int :=
  let guess : Int := (numerator.log2 : Int) - denominator.log2 - 52
  let scaled := scale numerator denominator guess
  if scaled.1 / scaled.2 < Nat.pow 2 52 then guess - 1 else guess

def roundHalfEven (numerator denominator : Nat) : Nat :=
  let quotient := numerator / denominator
  let rest := numerator % denominator
  if 2 * rest > denominator || (2 * rest == denominator && quotient % 2 == 1) then
    quotient + 1
  else quotient

def ofRatio (numerator denominator : Nat) : Magnitude :=
  if numerator = 0 then zero
  else
    let exponent := max leastExponent (exactExponent numerator denominator)
    let scaled := scale numerator denominator exponent
    let mantissa := roundHalfEven scaled.1 scaled.2
    let carried :=
      if mantissa = Nat.pow 2 53 then (Nat.pow 2 52, exponent + 1) else (mantissa, exponent)
    if carried.2 > greatestExponent then .infinite else .finite carried.1 carried.2

def decimalLength (value : Nat) : Nat :=
  (Nat.toDigits 10 value).length

/-- The value nearest to `coefficient * 10 ^ exponent`. Exponents far outside
the range of finite values are answered without computing the power. -/
def ofDecimal (coefficient : Nat) (exponent : Int) : Magnitude :=
  let order := exponent + decimalLength coefficient
  if coefficient = 0 then zero
  else if order > 400 then .infinite
  else if order < -400 then zero
  else if exponent < 0 then ofRatio coefficient (Nat.pow 10 exponent.natAbs)
  else ofRatio (coefficient * Nat.pow 10 exponent.natAbs) 1

end Magnitude

namespace Binary64

def zero : Binary64 := ⟨false, .zero⟩

def neg (value : Binary64) : Binary64 :=
  { value with negative := !value.negative }

def isInfinite (value : Binary64) : Bool :=
  value.magnitude = .infinite

end Binary64

end RubySyntax
