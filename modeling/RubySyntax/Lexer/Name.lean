/-
Names: identifiers, constants, method names, labels, reserved words and
variables with a mark.
-/

import RubySyntax.State

namespace RubySyntax

namespace Keyword

def modeAfter : Keyword → Mode
  | .encodingWord | .lineWord | .fileWord | .capitalBegin | .capitalEnd | .endWord
  | .falseWord | .nilWord | .redoWord | .retryWord | .selfWord | .trueWord =>
      .operandEnd
  | .aliasWord | .defWord | .undefWord => .methodName
  | .breakWord | .nextWord | .rescueWord | .returnWord => .middle
  | .classWord => .className
  | .definedWord | .notWord | .superWord | .yieldWord => .argument
  | .beginWord | .doWord | .elseWord | .ensureWord | .thenWord => .begin
  | _ => .value

/-- What `do` belongs to: a loop whose condition is being read, a command
whose arguments are being read, or the nearest call. -/
def doReading (lexer : LexerState) (mode : Mode) : Keyword :=
  if lexer.loopFlags.isSet then .doLoop
  else if (lexer.commandFlags.isSet && mode != .command) ||
      mode == .argumentEnd || mode == .begin then .doBlock
  else .doWord

end Keyword

namespace Scan

def internFrom (start : Nat) (what : Truncated) : Scan Symbol := do
  let state ← get
  let span : Span := ⟨start, state.input.position⟩
  checkRange start state.input.position
  let name := state.input.slice span
  if name.length ≤ state.limits.tokenMax then intern name
  else
    report span (.truncated what)
    intern (name.take state.limits.tokenMax)

def keyword (word : Keyword) (mode : Mode) (start : Nat) : Scan Token := do
  if mode == .methodName then
    setMode .nameEnd
    token (.keyword word) start
  else
    setMode word.modeAfter
    if word.modeAfter == .begin then
      setLexer fun lexer => { lexer with statementStart := true }
    if word == .doWord then
      token (.keyword (Keyword.doReading (← get).lexer mode)) start
    else if mode.prefersModifier then
      if word.modifier != word then setMode .begin
      token (.keyword word.modifier) start
    else token (.keyword word) start

/-- Whether a `=` after a name, which is followed by the given bytes, makes
the name that of a setter: it does unless it belongs to `==`, `=~` or `=>`. -/
def setterSuffix (after : Bytes) : Bool :=
  let next := (after.headD 0).char
  next != '~' && next != '>' &&
    (next != '=' || ((after.drop 1).headD 0).char == '>')

def suffixLength (mode : Mode) (after : Bytes) : Nat :=
  match after with
  | [] => 0
  | byte :: rest =>
      match byte.char with
      | '!' | '?' =>
          if (rest.headD 0).char != '=' || ((rest.drop 1).headD 0).char == '=' then 1
          else 0
      | '=' => if mode == .methodName && setterSuffix rest then 1 else 0
      | _ => 0

def modeAfterName (mode : Mode) (statementStart : Bool) : Mode :=
  if mode.isBegin || mode == .dot || mode.isArgument then
    Mode.afterCallName statementStart
  else if mode == .methodName then .nameEnd
  else .operandEnd

/-- Whether the word after which the program ends stands alone on its line.
`before` is the input where the word starts, `after` where it ends. -/
def isEndLine (before after : Input) (name : Bytes) : Bool :=
  name == Keyword.endMarker && before.atLineStart && after.atLineEnd

def plainName (mode : Mode) (statementStart marked : Bool) (first : Byte)
    (start : Nat) : Scan Token := do
  let symbol ← internFrom start .identifier
  let identifier := !marked && !first.isUpper
  -- A name that starts with another character than an ASCII one is not looked up here.
  let knownLocal := mode != .dot && identifier && first < 0x80 &&
    (← get).scopes.isLocal symbol
  setMode (if knownLocal then .operandEnd else modeAfterName mode statementStart)
  token
    (if marked then .methodName symbol
     else if identifier then .identifier symbol
     else .constant symbol)
    start

def name (statementStart : Bool) : Scan Token := do
  let state ← get
  let before := state.input
  let mode := state.lexer.mode
  let start := before.position
  let body := Utf8.nameLength before.rest
  let suffix := suffixLength mode (before.rest.drop body)
  let text := before.rest.take (body + suffix)
  let after := before.advance (body + suffix)
  set { state with input := after }
  checkByte start
  checkRange start after.position
  if mode.allowsLabel statementStart && after.peek == ':' && after.peekAt 1 != ':' &&
      (text.getLast?.map Byte.char) != some '=' then
    let symbol ← internFrom start .identifier
    advance 1
    setMode .begin
    token (.label symbol) start
  else if mode != .dot && isEndLine before after text then
    modify fun state =>
      { state with
        input := state.input.advance state.input.rest.length
        lexer := { state.lexer with ended := true } }
    return ⟨.endOfInput, ⟨start, start + 7⟩⟩
  else
    match (if mode == .dot then none else Keyword.ofName? text) with
    | some word => keyword word mode start
    | none =>
        plainName mode statementStart (suffix != 0) (before.rest.headD 0) start

def isSpecialGlobal (char : Char) : Bool :=
  "~*$?!@/\\;,.=:<>\"".toList.contains char

def isBackReference (byte : Byte) : Bool :=
  byte.char == '&' || byte == 0x60 || byte.char == '\'' || byte.char == '+'

/-- The number after `$`; numbers beyond 32 bits are reported and become the
largest one. -/
def referenceNumber (start : Nat) (digits : Bytes) : Scan Nat := do
  let number := positionalValue 10 digits
  if number < UInt32.size then return number
  else
    report ⟨start, ← position⟩ (.referenceTooBig digits)
    return UInt32.size - 1

/-- The length of the name after `$`, without those that start with a digit or
name a part of the last match. -/
def globalLength (rest : Bytes) : Nat :=
  match rest with
  | [] => 0
  | byte :: after =>
      let following := after.headD 0
      if byte.char == '_' && !following.isNamePart then 1
      else if isSpecialGlobal byte.char || byte.char == '0' then 1
      else if byte.char == '-' then if following.isNamePart then 2 else 1
      else if byte.isNamePart then Utf8.nameLength rest
      else 0

def globalVariable : Scan Token := do
  let state ← get
  let start := state.input.position
  let naming := state.lexer.mode == .methodName
  let rest := state.input.rest.drop 1
  let first := rest.headD 0
  advance 1
  setMode .operandEnd
  if isBackReference first then
    advance 1
    if !naming then return ← token (.backReference first) start
  else if first.isDigit && first.char != '0' then
    let digits := rest.takeWhile Byte.isDigit
    advance digits.length
    if !naming then
      checkRange (start + 1) (← position)
      return ← token (.numberedReference (← referenceNumber start digits)) start
  else
    let length := globalLength rest
    if length = 0 && !first.isNamePart then report ⟨start, start + 1⟩ .bareDollar
    advance length
  token (.globalVariable (← internFrom start .identifier)) start

def atVariable : Scan Token := do
  let input := (← get).input
  let start := input.position
  let kind : AtVariable := if input.peekAt 1 == '@' then .ofClass else .ofInstance
  advance (if kind = .ofClass then 2 else 1)
  let rest := (← get).input.rest
  let first := rest.headD 0
  if first.isDigit then
    advance (rest.takeWhile Byte.isDigit).length
    let span : Span := ⟨start, ← position⟩
    checkRange span.start span.stop
    report span (.digitVariable ((← get).input.slice span) kind)
  else if !first.isNamePart then
    let span : Span := ⟨start, ← position⟩
    checkRange span.start span.stop
    report span (.bareVariable ((← get).input.slice span) kind)
  advance (Utf8.nameLength (← get).input.rest)
  setMode .operandEnd
  let symbol ← internFrom start .identifier
  token
    (match kind with
     | .ofClass => .classVariable symbol
     | .ofInstance => .instanceVariable symbol)
    start

end Scan

end RubySyntax
