/-
Tokens that start with a mark: operators, brackets, quotes, and the marks that
may start a number, a symbol or a literal.
-/

import RubySyntax.Lexer.Heredoc
import RubySyntax.Lexer.Number
import RubySyntax.Lexer.Operator

namespace RubySyntax

structure Surroundings where
  mode : Mode
  statementStart : Bool
  afterArrow : Bool
  blank : Bool
deriving DecidableEq, Repr, Inhabited

def OperatorReading.of? (before : Surroundings) (first : Char) (rest : Bytes) :
    Option OperatorReading :=
  let mode := before.mode
  match first with
  | '*' => some (star mode before.blank rest)
  | '!' => some (bang mode rest)
  | '=' => some (equals mode rest)
  | '<' => some (less mode rest)
  | '>' => some (greater mode rest)
  | '&' => some (ampersand mode before.blank rest)
  | '|' => some (bar mode rest)
  | '+' => some (plus mode before.blank rest)
  | '-' => some (minus mode before.blank rest)
  | '.' => some (dot rest)
  | '/' => some (simple .slash mode rest)
  | '%' => some (simple .percent mode rest)
  | '^' => some (simple .caret mode rest)
  | '~' => some (tilde mode rest)
  | ',' => some (plain .comma 1 .begin)
  | '?' => some (plain .question 1 .value)
  | ':' => some (plain .colon 1 .begin)
  | _ => none

namespace Scan

def operator (reading : OperatorReading) : Scan Token := do
  let start ← position
  advance reading.length
  match reading.warning with
  | some (problem, length) => report ⟨start, start + length⟩ problem
  | none => pure ()
  setMode reading.mode
  match reading.kind with
  | .mark mark => token (.punct mark) start
  | .assign mark => token (.operatorAssign (← intern (ascii mark.spelling))) start
  | .method name => token (.methodName (← intern (ascii name))) start

/-- Takes a number whose digits start at the position; the token starts at
`start`, which is before a sign or a point. -/
def number (start : Nat) (reading : NumberReading) : Scan Token := do
  let digits ← position
  checkByte start
  advance reading.length
  let stop ← position
  checkRange digits stop
  reading.remarks.forM fun (offset, problem) =>
    match offset with
    | some offset => report ⟨digits + offset, digits + offset + 1⟩ problem
    | none => report ⟨start, stop⟩ problem
  setMode .operandEnd
  token reading.value start

def plusMark (reading : OperatorReading) : Scan Token := do
  let input := (← get).input
  let rest := input.rest.drop 1
  if reading.kind == .mark .unaryPlus && (rest.headD 0).isDigit then
    let _ ← operator reading
    number input.position (NumberReading.ofDigits rest)
  else operator reading

def dotMark (reading : OperatorReading) : Scan Token := do
  let input := (← get).input
  let rest := input.rest.drop 1
  if (rest.headD 0).isDigit then
    advance 1
    let result ← number input.position (NumberReading.ofFraction rest)
    report result.span .leadingDot
    return result
  else operator reading

def lessMark (before : Surroundings) (reading : OperatorReading) : Scan Token := do
  let input := (← get).input
  let opener ←
    if input.peekAt 1 == '<' && before.mode.allowsHeredoc before.blank then
      heredocOpener?
    else pure none
  match opener with
  | some token => return token
  | none =>
      if before.mode == .className then
        setLexer fun lexer => { lexer with statementStart := true }
      operator reading

def minusMark (reading : OperatorReading) : Scan Token := do
  if reading.kind == .mark .arrow then
    setLexer fun lexer => { lexer with afterArrow := true }
  operator reading

/-- `/` or `%`, which start a literal where an operand is expected. With
arguments expected the blanks decide, and a warning is given. -/
def literalMark (before : Surroundings) (reading : OperatorReading)
    (literal : Nat → Scan Token) : Scan Token := do
  let input := (← get).input
  let start := input.position
  let next := (input.rest.drop 1).headD 0
  if before.mode.isBegin then
    advance 1
    literal start
  else if next.char != '=' && before.mode.prefersUnary before.blank next.isSpace then
    report ⟨start, start + 1⟩ .ambiguousArgument
    advance 1
    literal start
  else operator reading

def colonMark (before : Surroundings) (reading : OperatorReading) : Scan Token := do
  let input := (← get).input
  let start := input.position
  let next := (input.rest.drop 1).headD 0
  if next.char == ':' then
    operator (OperatorReading.colonColon before.mode before.blank)
  else if before.mode.isEnd || next.isSpace || next.char == '#' || next == 0 then
    operator reading
  else if next.char == '"' || next.char == '\'' then
    advance 2
    openLiteral { kind := .symbol, interpolates := next.char == '"', closing := next, start }
  else
    advance 1
    match ← symbolName? with
    | some symbol =>
        setMode .operandEnd
        token (.symbol symbol) start
    | none =>
        setMode .begin
        token (.punct .colon) start

def questionMark (before : Surroundings) : Scan Token := do
  let start ← position
  advance 1
  match ← characterLiteral? before.mode start with
  | some token => return token
  | none =>
      setMode .value
      token (.punct .question) start

def quoteMark (before : Surroundings) (interpolates : Bool) : Scan Token := do
  let input := (← get).input
  advance 1
  openLiteral
    { kind := .string
      interpolates
      closing := input.peekByte
      labelAllowed := before.mode.allowsLabel before.statementStart
      start := input.position }

def backquoteMark (before : Surroundings) : Scan Token := do
  let start ← position
  advance 1
  if before.mode.namesMethod then
    setMode (if before.mode == .methodName then .nameEnd
      else Mode.afterCallName before.statementStart)
    token (.methodName (← intern [0x60])) start
  else openLiteral { kind := .shell, interpolates := true, closing := 0x60, start }

def openBracket (mark : Punct) : Scan Token := do
  let start ← position
  advance 1
  setLexer fun lexer =>
    { lexer with
      brackets := lexer.brackets + 1
      loopFlags := lexer.loopFlags.push false
      commandFlags := lexer.commandFlags.push false
      mode := .begin }
  token (.punct mark) start

def closeBracket (mark : Punct) (mode : Mode) : Scan Token := do
  let start ← position
  advance 1
  setLexer fun lexer =>
    { lexer with
      brackets := lexer.brackets - 1
      loopFlags := lexer.loopFlags.merge
      commandFlags := lexer.commandFlags.merge
      mode }
  token (.punct mark) start

def parenMark (before : Surroundings) : Scan Token := do
  let start ← position
  if before.mode.isBegin then openBracket .leftParen
  else if !before.blank then openBracket .callParen
  else if before.mode.isArgument then openBracket .argumentParen
  else
    if before.mode == .nameEnd && !before.afterArrow then
      report ⟨start, start + 1⟩ .spacedParameterList
    openBracket .callParen

def squareMark (before : Surroundings) : Scan Token := do
  let input := (← get).input
  if before.mode.namesMethod then
    if input.peekAt 1 == ']' then
      let write := input.peekAt 2 == '='
      operator (OperatorReading.plain (if write then .elementWrite else .elementRead)
        (if write then 3 else 2) .argument)
    else
      let result ← openBracket .leftBracket
      setMode .argument
      return result
  else if before.mode.isBegin || (before.mode.isArgument && before.blank) then
    openBracket .arrayBracket
  else openBracket .leftBracket

def braceMark (before : Surroundings) : Scan Token := do
  let mode := before.mode
  if mode.isArgument || mode == .operandEnd || mode == .nameEnd then
    setLexer fun lexer => { lexer with statementStart := true }
    openBracket .leftBrace
  else if mode == .argumentEnd then
    setLexer fun lexer => { lexer with statementStart := true }
    openBracket .commandBrace
  else openBracket .hashBrace

def closeBrace : Scan Token := do
  let state ← get
  if state.lexer.brackets = 0 && !state.lexer.contexts.isEmpty then
    advance 1
    leaveInterpolation
    token .interpolationEnd state.input.position
  else closeBracket .rightBrace .operandEnd

def semicolonMark : Scan Token := do
  let start ← position
  advance 1
  setLexer fun lexer => { lexer with mode := .begin, statementStart := true }
  token .semicolon start

def operatorMark (before : Surroundings) (first : Char) (reading : OperatorReading) :
    Scan Token :=
  match first with
  | '+' => plusMark reading
  | '-' => minusMark reading
  | '.' => dotMark reading
  | '<' => lessMark before reading
  | '/' =>
      literalMark before reading fun start =>
        openLiteral { kind := .regexp, interpolates := true, closing := 0x2F, start }
  | '%' => literalMark before reading percentLiteral
  | ':' => colonMark before reading
  | '?' => questionMark before
  | _ => operator reading

def mark? (before : Surroundings) : Scan (Option Token) := do
  let input := (← get).input
  let first := input.peek
  match OperatorReading.of? before first (input.rest.drop 1) with
  | some reading => return some (← operatorMark before first reading)
  | none =>
      match first with
      | '"' => return some (← quoteMark before true)
      | '\'' => return some (← quoteMark before false)
      | '(' => return some (← parenMark before)
      | '[' => return some (← squareMark before)
      | '\x7b' => return some (← braceMark before)
      | ')' => return some (← closeBracket .rightParen .nameEnd)
      | ']' => return some (← closeBracket .rightBracket .operandEnd)
      | '\x7d' => return some (← closeBrace)
      | ';' => return some (← semicolonMark)
      | '$' => return some (← globalVariable)
      | '@' => return some (← atVariable)
      | _ =>
          if input.peekByte == 0x60 then return some (← backquoteMark before)
          else return none

end Scan

end RubySyntax
