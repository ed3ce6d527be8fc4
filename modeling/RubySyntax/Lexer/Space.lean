/-
White space between tokens: blanks, comments, escaped line feeds, and lines
that continue a statement because the next one starts with a dot.
-/

import RubySyntax.Text.Byte

namespace RubySyntax.Space

/-- The length of blanks, comments and escaped line feeds at the start. It
stops before a line feed. `comment` says that a comment is being read. -/
def lengthFrom (comment : Bool) : Bytes → Nat
  | [] => 0
  | byte :: rest =>
      if comment then
        if byte.char == '\n' then 0 else 1 + lengthFrom true rest
      else
        match byte.char with
        | '#' => 1 + lengthFrom true rest
        | '\\' =>
            match rest with
            | 0x0A :: rest => 2 + lengthFrom false rest
            | 0x0D :: 0x0A :: rest => 3 + lengthFrom false rest
            | _ => 0
        | _ => if byte.isBlank then 1 + lengthFrom false rest else 0

def length (rest : Bytes) : Nat :=
  lengthFrom false rest

def lineLength (rest : Bytes) : Nat :=
  (rest.takeWhile fun byte => byte.char != '\n').length

def commentLinesFrom (comment : Bool) : Bytes → Nat
  | [] => 0
  | byte :: rest =>
      if comment then 1 + commentLinesFrom (byte.char != '\n') rest
      else if byte.char == '#' then 1 + commentLinesFrom true rest
      else if byte.isBlank then 1 + commentLinesFrom false rest
      else 0

/-- Whether a line that starts here goes on with the call chain of the line
before it: it starts with `.` but not with `..`, or with `&.`. -/
def startsWithDot (rest : Bytes) : Bool :=
  match rest with
  | first :: second :: _ =>
      (first.char == '.' && second.char != '.') ||
        (first.char == '&' && second.char == '.')
  | [first] => first.char == '.'
  | [] => false

/-- After a line feed: how far the next token is if the line is continued by a
leading dot. Lines that hold just a comment may come between. -/
def continuation? (rest : Bytes) : Option Nat :=
  let skipped := commentLinesFrom false rest
  if startsWithDot (rest.drop skipped) then some skipped else none

/-- Whether a word stands at the start, followed by white space, a byte 0 or
the end. -/
def startsWithWord (word rest : Bytes) : Bool :=
  word.isPrefixOf rest &&
    match rest.drop word.length with
    | [] => true
    | byte :: _ =>
        byte == 0 || byte.char == ' ' || byte.char == '\t' || byte.char == '\r' ||
          byte.char == '\n'

end RubySyntax.Space
