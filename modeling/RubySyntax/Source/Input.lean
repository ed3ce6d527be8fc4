/-
The input of a parse: the bytes received so far, the position reached, and the
answers of whoever can supply more.

The unread bytes are kept as a list, so that looking ahead is looking at its
head. Asking past the end gives the byte 0.
-/

import RubySyntax.Span
import RubySyntax.Text.Byte

namespace RubySyntax

/-- A piece of source that is supplied on request. A name starts a new file
unless it is that of the current one. -/
structure Chunk where
  bytes : Bytes
  fileName : Option String := none
deriving DecidableEq, Repr, Inhabited

/-- The bytes received, the position reached and the answers to come. An
answer that is no chunk means that the input has ended, as does the end of the
answers. -/
structure Input where
  bytes : Array Byte := #[]
  position : Nat := 0
  rest : Bytes := []
  answers : List (Option Chunk) := []
  requests : Nat := 0
deriving DecidableEq, Repr, Inhabited

namespace Input

def ofBytes (bytes : Bytes) (answers : List (Option Chunk)) : Input :=
  { bytes := bytes.toArray, rest := bytes, answers }

/-- The byte at a distance from the position, read as a character; the
character of code 0 past the end. -/
def peekAt (input : Input) (distance : Nat) : Char :=
  ((input.rest[distance]?).getD 0).char

def peek (input : Input) : Char :=
  (input.rest.headD 0).char

def peekByte (input : Input) : Byte :=
  input.rest.headD 0

def atEnd (input : Input) : Bool :=
  input.rest.isEmpty

def advance (input : Input) (distance : Nat) : Input :=
  { input with
    position := input.position + distance
    rest := input.rest.drop distance }

def previous? (input : Input) : Option Byte :=
  if input.position = 0 then none else input.bytes[input.position - 1]?

def atLineStart (input : Input) : Bool :=
  input.position == 0 || input.previous? == some 0x0A

def atLineEnd (input : Input) : Bool :=
  match input.rest with
  | [] => true
  | byte :: rest =>
      byte == 0x0A || (byte == 0x0D && rest.head? == some 0x0A)

def covers (input : Input) (span : Span) : Bool :=
  span.start ≤ span.stop && span.stop ≤ input.bytes.size

def slice (input : Input) (span : Span) : Bytes :=
  if input.covers span then (input.bytes.extract span.start span.stop).toList else []

def ask (input : Input) : Input :=
  { input with
    answers := input.answers.tail
    requests := input.requests + 1 }

/-- Appends a piece. If the position lay beyond the end, the bytes up to it
are passed over. -/
def append (input : Input) (bytes : Bytes) : Input :=
  let received := input.bytes.appendList bytes
  { input with
    bytes := received
    rest :=
      if input.position ≤ input.bytes.size then input.rest ++ bytes
      else bytes.drop (input.position - input.bytes.size) }

/-- How many bytes are unread or still to be supplied, and how many answers
are to come. -/
def unread (input : Input) : Nat :=
  input.rest.length +
    input.answers.foldr (fun answer later => 1 + (answer.map (·.bytes.length)).getD 0 + later) 0

end Input

end RubySyntax
