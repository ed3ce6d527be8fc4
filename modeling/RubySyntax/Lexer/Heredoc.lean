/-
Heredocs: texts that start on the line after their opener and run up to a line
that holds just the delimiter.

The opener and the body are read at different times. Between them the heredoc
waits in a queue, with the node that its body will fill.
-/

import RubySyntax.Lexer.Literal

namespace RubySyntax

inductive HeredocOpening where
  /-- A heredoc, and the length of its opener after `<<`. -/
  | opened (delimiter : Bytes) (indented dedented : Bool) (quote : Option Char)
      (length : Nat)
  /-- A quote that is not closed on its line, up to the given length. -/
  | unclosed (length : Nat)
  | nothing
deriving DecidableEq, Repr, Inhabited

namespace HeredocOpening

def isQuote (byte : Byte) : Bool :=
  byte.char == '\'' || byte.char == '"' || byte == 0x60

def read (rest : Bytes) : HeredocOpening :=
  let mark := (rest.headD 0).char
  let indented := mark == '-' || mark == '~'
  let offset := if indented then 1 else 0
  match rest.drop offset with
  | [] => .nothing
  | first :: text =>
      if isQuote first then
        let delimiter := text.takeWhile fun byte => byte.char != '\n' && byte != first
        if text[delimiter.length]? == some first then
          .opened delimiter indented (mark == '~') (some first.char)
            (offset + delimiter.length + 2)
        else .unclosed (offset + delimiter.length + 1)
      else if first.isNamePart then
        let length := Utf8.nameLength (first :: text)
        .opened ((first :: text).take length) indented (mark == '~') none (offset + length)
      else .nothing

end HeredocOpening

namespace Heredoc

/-- The length of the closing line, with its line feed, if it starts here. A
carriage return before the line feed belongs to it. -/
def closingLength? (heredoc : Heredoc) (rest : Bytes) : Option Nat :=
  let indent :=
    if heredoc.indented then
      (rest.takeWhile fun byte => byte.char == ' ' || byte.char == '\t').length
    else 0
  let line := rest.drop indent
  if heredoc.delimiter.isPrefixOf line then
    let length := indent + heredoc.delimiter.length
    match line.drop heredoc.delimiter.length with
    | [] => some length
    | [0x0D] => some (length + 1)
    | 0x0A :: _ => some (length + 1)
    | 0x0D :: 0x0A :: _ => some (length + 2)
    | _ => none
  else none

def tabStop (column : Nat) : Nat :=
  (column / 8 + 1) * 8

def indentFrom? (column : Nat) : Bytes → Option Nat
  | [] => some column
  | byte :: rest =>
      match byte.char with
      | ' ' => indentFrom? (column + 1) rest
      | '\t' => indentFrom? (tabStop column) rest
      | '\n' => none
      | '\r' => if rest.head? == some 0x0A then none else some column
      | _ => some column

def indent? (line : Bytes) : Option Nat :=
  indentFrom? 0 line

/-- A line without the leading white space between two columns. A tab that
reaches beyond the second one is kept. -/
def stripFrom (column width : Nat) : Bytes → Bytes
  | [] => []
  | byte :: rest =>
      let next :=
        match byte.char with
        | ' ' => some (column + 1)
        | '\t' => some (tabStop column)
        | _ => none
      match next with
      | none => byte :: rest
      | some next =>
          if column < width && next ≤ width then stripFrom next width rest
          else byte :: rest

def strip (width : Nat) (line : Bytes) : Bytes :=
  stripFrom 0 width line

end Heredoc

namespace Scan

def heredocOpener? : Scan (Option Token) := do
  let input := (← get).input
  let start := input.position
  match HeredocOpening.read (input.rest.drop 2) with
  | .nothing => return none
  | .unclosed length =>
      report ⟨start, start + 2 + length⟩ .heredocIdentifier
      return none
  | .opened delimiter indented dedented quote length =>
      advance (2 + length)
      let stop := (← position) - (if quote.isSome then 1 else 0)
      checkRange (stop - delimiter.length) stop
      setLexer fun lexer =>
        { lexer with
          mode := .operandEnd
          heredocs := lexer.heredocs ++
            [{ heredoc := { delimiter, indented, dedented, quote, start } }] }
      return some (← token .heredocBegin start)

def giveNode (node : NodeId) : List PendingHeredoc → List PendingHeredoc
  | [] => []
  | pending :: rest =>
      if pending.node.isNone && rest.all (·.node.isSome) then
        { pending with node := some node } :: rest
      else pending :: giveNode node rest

def awaitBody (node : NodeId) : Scan Unit :=
  setLexer fun lexer => { lexer with heredocs := giveNode node lexer.heredocs }

def beginHeredocBodies : Scan Unit :=
  setLexer fun lexer => { lexer with heredocsDue := false }

def nextHeredoc? : Scan (Option PendingHeredoc) := do
  match (← get).lexer.heredocs with
  | [] => return none
  | pending :: heredocs =>
      setLexer fun lexer =>
        { lexer with heredocs, literal := some (.heredocBody pending.heredoc true) }
      return some pending

/-- The text of a heredoc up to an interpolation or through a line feed, and
whether a line feed was reached. Text beyond the token limit is dropped. -/
def heredocText (heredoc : Heredoc) : Scan (Array Byte × Bool) :=
  repeatUntil #[] fun (bytes : Array Byte) => do
    if !(← hasMore) then return .done (bytes, false)
    let state ← get
    let byte := state.input.peekByte
    if heredoc.interpolates && (Interpolation.at? state.input.rest).isSome then
      return .done (bytes, false)
    if heredoc.interpolates && byte.char == '\\' then
      let reading := EscapeReading.read (state.input.rest.drop 1)
      advance (1 + reading.length)
      escapeRemarks state.input.position reading
      return .again (bytes.appendList reading.bytes)
    else
      advance 1
      let kept := if bytes.size < state.limits.tokenMax then bytes.push byte else bytes
      if byte.char == '\n' then return .done (kept, true) else return .again kept

def heredocContent (heredoc : Heredoc) (lineHead : Bool) : Scan Token := do
  let start ← position
  let (bytes, lineEnd) ← heredocText heredoc
  let state ← get
  if state.input.position = start && state.input.atEnd then
    fail (.unterminated (.heredoc heredoc.delimiter) start)
  if state.limits.tokenMax ≤ bytes.size then
    report ⟨start, state.input.position⟩ (.truncated .string)
  setLiteral (some (.heredocBody heredoc lineEnd))
  token (.content bytes.toList lineHead) start

def heredocBody (heredoc : Heredoc) (lineHead : Bool) : Scan Token := do
  let start ← position
  if lineHead then
    if !(← hasMore) then
      fail (.unterminated (.heredoc heredoc.delimiter) heredoc.start)
    checkRange (← position) (← position)
    match heredoc.closingLength? (← get).input.rest with
    | some length =>
        advance length
        setLiteral none
        token (.literalEnd []) start
    | none => heredocContent heredoc true
  else
    let rest := (← get).input.rest
    match (if heredoc.interpolates then Interpolation.at? rest else none) with
    | some kind => interpolation kind
    | none => heredocContent heredoc false

end Scan

end RubySyntax
