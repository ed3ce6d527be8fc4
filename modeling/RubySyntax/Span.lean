/-
Byte ranges of the input.

A range whose start lies after its end is a dummy: it covers nothing and
disappears in a union. The dummy written 1..0 stands for "no place at all".
-/

namespace RubySyntax

structure Span where
  start : Nat
  stop : Nat
deriving DecidableEq, Repr, Inhabited

namespace Span

def dummy : Span := ⟨1, 0⟩

def point (position : Nat) : Span := ⟨position, position⟩

def isDummy (span : Span) : Bool :=
  span.stop < span.start

/-- Both ends belong to the range, so an empty range contains one position. -/
def contains (span : Span) (position : Nat) : Bool :=
  span.start ≤ position && position ≤ span.stop

def width (span : Span) : Nat :=
  span.stop - span.start

/-- The least range that covers both, where dummies cover nothing. If both
are dummies the left one stays. -/
def hull (left right : Span) : Span :=
  if right.isDummy then left
  else if left.isDummy then right
  else ⟨min left.start right.start, max left.stop right.stop⟩

def hullAll (spans : List Span) : Span :=
  spans.foldl hull dummy

/-- The text of a range: its two ends, or the name of the dummy 1..0. -/
def describe (span : Span) : String :=
  if span = dummy then "DUMMY_RANGE"
  else toString span.start ++ ".." ++ toString span.stop

end Span

end RubySyntax
