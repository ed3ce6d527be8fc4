/-
The next token of the input.

White space, comments and embedded documents are passed over first. A line
feed is a token where a statement can end. The end of the input is a token
that can be read any number of times.
-/

import RubySyntax.Lexer.Mark
import RubySyntax.Lexer.Space

namespace RubySyntax

namespace LexerState

/-- Whether the input cannot end here: something is open, or an operator lacks
its operand. -/
def wantsMore (lexer : LexerState) (statementStart : Bool) : Bool :=
  lexer.literal.isSome || !lexer.contexts.isEmpty || lexer.brackets > 0 ||
    lexer.openConstructs > 0 || !lexer.heredocs.isEmpty ||
    (!statementStart && (lexer.mode.isBegin || lexer.mode.namesMethod))

end LexerState

namespace Scan

def endOfInput (start : Nat) : Scan Token := do
  let lexer := (← get).lexer
  if !lexer.contexts.isEmpty then fail (.unterminated .string start)
  match lexer.heredocs with
  | pending :: _ => fail (.unterminated (.heredoc pending.heredoc.delimiter) start)
  | [] =>
      setLexer fun lexer => { lexer with ended := true }
      token .endOfInput start

def isEndMark (byte : Byte) : Bool :=
  byte == 0x00 || byte == 0x04 || byte == 0x1A

def newline (start : Nat) : Scan Token := do
  setLexer fun lexer => { lexer with mode := .begin, statementStart := true }
  token .newline start

def heredocMarker : Scan Token := do
  token .heredocBodies (← position)

def lineFeed : Scan (Turn Bool Token) := do
  let state ← get
  let start := state.input.position
  let folds := state.lexer.mode.foldsNewline
  advance 1
  if !state.lexer.heredocs.isEmpty then
    setLexer fun lexer => { lexer with heredocsDue := true }
    if folds then return .done (← heredocMarker) else return .done (← newline start)
  else if folds then return .again true
  else
    match Space.continuation? (state.input.rest.drop 1) with
    | some length =>
        advance length
        return .again true
    | none => return .done (← newline start)

def embeddedDocument : Scan Unit := do
  let start ← position
  let skipLine : Scan Unit := do advance (Space.lineLength (← get).input.rest)
  skipLine
  repeatUntil () fun _ => do
    if (← peek) == '\n' then advance 1
    if !(← hasMore) then fail (.unterminated .embeddedDocument start)
    checkRange (← position) (← position)
    let closing := Space.startsWithWord (ascii "=end") (← get).input.rest
    skipLine
    return if closing then .done () else .again ()

def invalidCharacter : Scan Unit := do
  let input := (← get).input
  let tails := (input.rest.drop 1).takeWhile Utf8.isTail
  advance (1 + tails.length)
  report ⟨input.position, ← position⟩ .invalidMultibyte

def tokenHere (before : Surroundings) : Scan (Turn Bool Token) := do
  let input := (← get).input
  let byte := input.peekByte
  checkByte input.position
  if input.peek == '=' && input.atLineStart &&
      Space.startsWithWord (ascii "=begin") input.rest then
    embeddedDocument
    return .again true
  else if byte.isNameStart then
    if byte ≥ 0x80 && (Utf8.charLength? input.rest).isNone then
      invalidCharacter
      return .again true
    else return .done (← name before.statementStart)
  else if byte.isDigit then
    return .done (← number input.position (NumberReading.ofDigits input.rest))
  else
    match ← mark? before with
    | some token => return .done token
    | none =>
        advance 1
        report ⟨input.position, input.position + 1⟩ (.invalidByte byte)
        return .again true

/-- One turn of the search for a token: passes over white space and looks at
what follows. -/
def tokenTurn (before : Surroundings) : Scan (Turn Bool Token) := do
  let space := Space.length (← get).input.rest
  advance space
  let blank := before.blank || space > 0
  let state ← get
  let start := state.input.position
  if state.lexer.ended then return .done (← token .endOfInput start)
  else if isEndMark state.input.peekByte then
    if state.input.atEnd then
      if state.lexer.wantsMore before.statementStart then
        if ← fetchMore then return .again blank
      return .done (← endOfInput start)
    else
      advance 1
      return .done (← endOfInput start)
  else if state.input.peek == '\n' then lineFeed
  else tokenHere { before with blank }

def literalToken (literal : OpenLiteral) : Scan Token := do
  let state ← get
  if state.lexer.variablePending then
    setLexer fun lexer => { lexer with variablePending := false }
    if state.input.peek == '$' then globalVariable else atVariable
  else
    match literal with
    | .quotation literal => quotation literal
    | .heredocBody heredoc lineHead => heredocBody heredoc lineHead

def nextToken : Scan Token := do
  let lexer := (← get).lexer
  match lexer.literal with
  | some literal => literalToken literal
  | none =>
      if lexer.heredocsDue then heredocMarker
      else
        setLexer fun lexer => { lexer with statementStart := false, afterArrow := false }
        repeatUntil false fun blank =>
          tokenTurn
            { mode := lexer.mode
              statementStart := lexer.statementStart
              afterArrow := lexer.afterArrow
              blank }

def readToken : Scan Token := do
  let token ← nextToken
  modify fun state => { state with tokens := token :: state.tokens }
  return token

end Scan

end RubySyntax
