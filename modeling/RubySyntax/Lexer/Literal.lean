/-
Literals between delimiters: strings, shell commands, regexps, quoted symbols
and word lists.

A literal is read in pieces. Each call gives one token: text, the start of an
interpolation, the gap between two words, or the end.
-/

import RubySyntax.Lexer.Escape
import RubySyntax.Lexer.Name

namespace RubySyntax

namespace Quotation

def escapeRule (literal : Quotation) : EscapeRule :=
  if literal.kind = .regexp then .keep
  else if literal.interpolates then .decode
  else .delimiters

def unclosed (literal : Quotation) : Unclosed :=
  if literal.kind = .regexp then .regexp
  else if literal.percent then .quoted
  else .string

def nest (literal : Quotation) (byte : Byte) : Quotation :=
  match literal.opening with
  | none => literal
  | some opening =>
      if byte == opening then { literal with nesting := literal.nesting + 1 }
      else if byte == literal.closing && literal.nesting > 0 then
        { literal with nesting := literal.nesting - 1 }
      else literal

def closesAt (literal : Quotation) (byte : Byte) : Bool :=
  byte == literal.closing && literal.nesting == 0

def gapAt (literal : Quotation) (byte : Byte) : Bool :=
  literal.kind.isList && literal.nesting == 0 && byte.isSpace

end Quotation

inductive Interpolation where
  | code
  | variableName
deriving DecidableEq, Repr, Inhabited

namespace Interpolation

def variableFollows (rest : Bytes) : Bool :=
  match rest with
  | mark :: next :: after =>
      match mark.char with
      | '@' =>
          if next.char == '@' then (after.headD 0).isNameStart else next.isNameStart
      | '$' =>
          next.isNameStart || Scan.isSpecialGlobal next.char ||
            Scan.isBackReference next || next.isDigit
      | _ => false
  | _ => false

def at? (rest : Bytes) : Option Interpolation :=
  match rest with
  | sharp :: after =>
      if sharp.char != '#' then none
      else if (after.headD 0).char == '\x7b' then some .code
      else if variableFollows after then some .variableName
      else none
  | [] => none

end Interpolation

namespace Scan

def setLiteral (literal : Option OpenLiteral) : Scan Unit :=
  setLexer fun lexer => { lexer with literal }

def enterInterpolation (start : Nat) : Scan Unit := do
  let state ← get
  if state.limits.maxDepth ≤ state.lexer.contexts.length then
    fail (.nestingTooDeep state.limits.maxDepth start)
  setLexer fun lexer =>
    { lexer with
      contexts :=
        { literal := lexer.literal
          mode := lexer.mode
          statementStart := lexer.statementStart
          loopFlags := lexer.loopFlags
          commandFlags := lexer.commandFlags
          brackets := lexer.brackets } :: lexer.contexts
      literal := none
      mode := .begin
      statementStart := true
      loopFlags := {}
      commandFlags := {}
      brackets := 0 }

def leaveInterpolation : Scan Unit :=
  setLexer fun lexer =>
    match lexer.contexts with
    | [] => lexer
    | context :: contexts =>
        { lexer with
          contexts
          literal := context.literal
          mode := context.mode
          statementStart := context.statementStart
          loopFlags := context.loopFlags
          commandFlags := context.commandFlags
          brackets := context.brackets }

def interpolation (kind : Interpolation) : Scan Token := do
  let start ← position
  match kind with
  | .code =>
      advance 2
      enterInterpolation start
      token .interpolationBegin start
  | .variableName =>
      advance 1
      setLexer fun lexer => { lexer with variablePending := true }
      token .variableInterpolation start

def escapeRemarks (backslash : Nat) (reading : EscapeReading) : Scan Unit :=
  reading.remarks.forM fun (span, problem) =>
    report ⟨backslash + span.start, backslash + span.stop⟩ problem

def isRegexpOption (byte : Byte) : Bool :=
  "imxounes".toList.contains byte.char

def distinct (options : Bytes) : Bytes :=
  options.foldl (fun seen byte => if seen.contains byte then seen else seen ++ [byte]) []

def closeLiteral (literal : Quotation) (start : Nat) : Scan Token := do
  setLiteral none
  let input := (← get).input
  if literal.kind = .regexp then
    let letters := input.rest.takeWhile Byte.isAlpha
    advance letters.length
    checkRange input.position (← position)
    let unknown := letters.filter fun byte => !isRegexpOption byte
    if !unknown.isEmpty then
      report ⟨input.position, ← position⟩ (.unknownRegexpOptions unknown)
    setMode .operandEnd
    token (.literalEnd (distinct (letters.filter isRegexpOption))) start
  else if literal.labelAllowed && input.peek == ':' && input.peekAt 1 != ':' then
    advance 1
    setMode .begin
    token .labelEnd start
  else
    setMode .operandEnd
    token (.literalEnd []) start

def skipGap : Scan Bool := do
  let start ← position
  repeatUntil () fun _ => do
    if !(← hasMore) then return .done ()
    if (← get).input.peekByte.isSpace then
      advance 1
      return .again ()
    else return .done ()
  return start < (← position)

structure Gathered where
  literal : Quotation
  bytes : Array Byte := #[]
  truncated : Bool := false

/-- Adds decoded bytes, all of them or none if the token limit forbids it. -/
def Gathered.add (text : Gathered) (limit : Nat) (bytes : Bytes) : Gathered :=
  if text.bytes.size + bytes.length ≤ limit then
    { text with bytes := text.bytes.appendList bytes }
  else { text with truncated := true }

def gather (literal : Quotation) : Scan Gathered :=
  repeatUntil { literal } fun text => do
    if !(← hasMore) then return .done text
    let state ← get
    let byte := state.input.peekByte
    if text.literal.closesAt byte || text.literal.gapAt byte then return .done text
    if text.literal.interpolates && (Interpolation.at? state.input.rest).isSome then
      return .done text
    if byte.char == '\\' then
      let reading := EscapeReading.readIn literal.escapeRule literal.kind.isList
        literal.opening literal.closing (state.input.rest.drop 1)
      advance (1 + reading.length)
      escapeRemarks state.input.position reading
      return .again (text.add state.limits.tokenMax reading.bytes)
    else
      advance 1
      let nested := { text with literal := text.literal.nest byte }
      return .again (nested.add state.limits.tokenMax [byte])

def literalText (literal : Quotation) : Scan Token := do
  let start ← position
  let text ← gather literal
  if text.bytes.isEmpty && (← position) = start then
    fail (.unterminated literal.unclosed literal.start)
  if text.truncated then report ⟨start, ← position⟩ (.truncated .string)
  setLiteral (some (.quotation { text.literal with wordStarted := true }))
  token (.content text.bytes.toList false) start

def quotation (literal : Quotation) : Scan Token := do
  let gapStart ← position
  let gap ← if literal.kind.isList && literal.nesting == 0 then skipGap else pure false
  if gap && literal.wordStarted then
    setLiteral (some (.quotation { literal with wordStarted := false }))
    token .wordSeparator gapStart
  else
    let start ← position
    if !(← hasMore) then fail (.unterminated literal.unclosed literal.start)
    let input := (← get).input
    if literal.closesAt input.peekByte then
      advance 1
      closeLiteral literal start
    else
      match (if literal.interpolates then Interpolation.at? input.rest else none) with
      | some kind =>
          setLiteral (some (.quotation { literal with wordStarted := true }))
          interpolation kind
      | none => literalText literal

def openLiteral (literal : Quotation) : Scan Token := do
  setLiteral (some (.quotation literal))
  token (.literalBegin literal.kind) literal.start

def closingBracket? (byte : Byte) : Option Byte :=
  match byte.char with
  | '(' => some 0x29
  | '[' => some 0x5D
  | '\x7b' => some 0x7D
  | '<' => some 0x3E
  | _ => none

def percentKind? (letter : Char) : Option (LiteralKind × Bool) :=
  match letter with
  | 'Q' => some (.string, true)
  | 'q' => some (.string, false)
  | 'W' => some (.words, true)
  | 'w' => some (.words, false)
  | 'I' => some (.symbols, true)
  | 'i' => some (.symbols, false)
  | 'x' => some (.shell, true)
  | 'r' => some (.regexp, true)
  | 's' => some (.symbol, false)
  | _ => none

def percentLiteral (start : Nat) : Scan Token := do
  let first := (← get).input.peekByte
  let letter := if first.isAlphanumeric then first.char else 'Q'
  if first.isAlphanumeric then advance 1
  if !(← hasMore) then fail (.unterminated .quoted start)
  let delimiter := (← get).input.peekByte
  advance 1
  let span : Span := ⟨start, ← position⟩
  if delimiter.isAlphanumeric then report span .unknownPercentType
  if (percentKind? letter).isNone then report span .unknownPercentType
  let (kind, interpolates) := (percentKind? letter).getD (.string, true)
  let bracket := closingBracket? delimiter
  openLiteral
    { kind
      interpolates
      opening := if bracket.isSome then some delimiter else none
      closing := bracket.getD delimiter
      percent := true
      start }

/-- A character literal whose `?` at `start` has been read in the given mode;
nothing if the `?` is an operator. -/
def characterLiteral? (mode : Mode) (start : Nat) : Scan (Option Token) := do
  let input := (← get).input
  match input.rest with
  | [] => return none
  | byte :: after =>
      if mode.isEnd || byte.isSpace ||
          (byte.isNamePart && (after.headD 0).isNamePart) then
        return none
      else
        let bytes ←
          if byte.char == '\\' then
            let reading := EscapeReading.read after
            advance (1 + reading.length)
            escapeRemarks input.position reading
            pure reading.bytes
          else
            let bytes := input.rest.take (Utf8.announcedLength byte)
            checkRange input.position (input.position + bytes.length)
            advance bytes.length
            pure bytes
        setMode .operandEnd
        return some (← token (.character bytes) start)

def operatorNames : List String :=
  ["[]=", "[]", "<=>", "===", "==", "=~", "!=", "!~", "!", "**", "*", ">=", ">>", ">",
    "<=", "<<", "<", "+@", "-@", "+", "-", "/", "%", "&", "|", "^", "~@", "~", "\x60"]

def operatorLength (rest : Bytes) : Nat :=
  match operatorNames.find? fun operator => (ascii operator).isPrefixOf rest with
  | some operator => operator.length
  | none => 0

def wordLength (rest : Bytes) : Nat :=
  if (rest.headD 0).isNamePart then Utf8.nameLength rest else 0

/-- The length of the name that a plain symbol has after its colon; nothing if
there is none. -/
def symbolLength? (rest : Bytes) : Option Nat :=
  let first := rest.headD 0
  match first.char with
  | '@' =>
      let marks := if ((rest.drop 1).headD 0).char == '@' then 2 else 1
      if ((rest.drop marks).headD 0).isNamePart then
        some (marks + wordLength (rest.drop marks))
      else none
  | '$' =>
      let next := (rest.drop 1).headD 0
      if next.isNamePart then some (1 + wordLength (rest.drop 1))
      else if next.char == '-' then
        some (if ((rest.drop 2).headD 0).isNamePart then 3 else 2)
      else if isSpecialGlobal next.char || isBackReference next then some 2
      else none
  | _ =>
      if first.isNameStart then
        let body := wordLength rest
        let after := rest.drop body
        let marked :=
          match (after.headD 0).char with
          | '!' | '?' => ((after.drop 1).headD 0).char != '='
          | '=' => setterSuffix (after.drop 1)
          | _ => false
        some (body + if marked then 1 else 0)
      else some (operatorLength rest)

def symbolName? : Scan (Option Symbol) := do
  let input := (← get).input
  checkRange input.position input.position
  match symbolLength? input.rest with
  | none => return none
  | some length =>
      if length = 0 then return none
      else
        advance length
        return some (← internFrom input.position .symbol)

end Scan

end RubySyntax
