/-
Definitions of methods, classes and modules, blocks and lambdas, and the
statements that work on names alone.
-/

import RubySyntax.Grammar.Control
import RubySyntax.Grammar.Literal
import RubySyntax.Grammar.Parameter

namespace RubySyntax

namespace Parse

def isolated {α : Type} (step : Parse α) : Parse α := do
  let before := (← get).lexer
  Scan.setLexer fun lexer =>
    { lexer with
      loopFlags := lexer.loopFlags.push false
      commandFlags := lexer.commandFlags.push false }
  let result ← step
  Scan.setLexer fun lexer =>
    { lexer with loopFlags := before.loopFlags, commandFlags := before.commandFlags }
  return result

/-- A method name and its range. Variables are read too, since they may turn
out to be receivers. -/
def methodName : Parse (Span × Symbol) := do
  let token ← peekToken
  match token.kind with
  | .identifier name | .constant name | .methodName name | .instanceVariable name
  | .classVariable name | .globalVariable name =>
      skip
      return (token.span, name)
  | .keyword _ =>
      skip
      return (token.span, ← Scan.intern (← Scan.sliceOf token.span))
  | .punct mark =>
      if mark.isMethodName then
        skip
        return (token.span, ← Scan.intern (ascii mark.spelling))
      else
        Scan.unexpected token (some "method name")
        return (token.span, ← Scan.intern [])
  | _ =>
      Scan.unexpected token (some "method name")
      return (token.span, ← Scan.intern [])

def methodNameAfterDot : Parse Symbol := do
  Scan.setMode .methodName
  return (← methodName).2

def receiverShape (written : Bytes) (name : Symbol) (known : Bool) : Shape NodeId :=
  if written == ascii "self" then .leaf .selfValue
  else if written == ascii "nil" then .leaf .nilValue
  else if written == ascii "true" then .leaf .trueValue
  else if written == ascii "false" then .leaf .falseValue
  else if (written.head?.map Byte.isUpper).getD false then .named .constant name
  else if (ascii "@@").isPrefixOf written then .named .classVariable name
  else if (ascii "@").isPrefixOf written then .named .instanceVariable name
  else if (ascii "$").isPrefixOf written then .named .globalVariable name
  else if known then .named .localVariable name
  else .functionCall name [] none

def parenthesizedReceiver : Parse NodeId := do
  let opening ← take
  let receiver ← expressionValue
  let close ← expect (.punct .rightParen)
  Scan.widen receiver (opening.span.hull close)
  if !(← accept (.punct .dot)) then
    if !(← accept (.punct .colonColon)) then
      Scan.unexpected (← peekToken) (some (TokenKind.punct .dot).describe)
  return receiver

def methodHead : Parse (Option NodeId × Symbol) := do
  if (← peekKind).isLeftParen then
    let receiver ← parenthesizedReceiver
    return (some receiver, ← methodNameAfterDot)
  else
    let (span, name) ← methodName
    match ← peekKind with
    | .punct .dot | .punct .colonColon =>
        let known := (← get).scopes.isLocal name
        let shape := receiverShape (← Scan.sliceOf span) name known
        let receiver ← Scan.alloc shape span
        skip
        return (some receiver, ← methodNameAfterDot)
    | _ => return (none, name)

def methodParameters : Parse (Option NodeId) := do
  let kind ← peekKind
  if kind.isLeftParen then parenthesizedParameters
  else if kind.isTerminator then return none
  else parameters .line

def methodDefinition : Parse NodeId := do
  let word ← take
  Scan.enterConstruct
  let (receiver, name) ← methodHead
  let (list, scope, span) ← isolated do
    Scan.enterScope .method
    let list ← methodParameters
    let inner ← body
    let span := word.span.hull (← expectEnd)
    return (list, ← Scan.leaveScope inner span, span)
  Scan.leaveConstruct
  match receiver with
  | some receiver => Scan.alloc (.singletonMethod receiver name list scope) span
  | none => Scan.alloc (.method name list scope) span

/-- The body of a class or module up to its `end`, as a scope, and the range
from the word that opened it. -/
def classBody (word : Span) : Parse (NodeId × Span) := do
  skipTerminators
  let result ← isolated do
    Scan.enterScope .classBody
    let inner ← body
    let span := word.hull (← expectEnd)
    return (← Scan.leaveScope inner span, span)
  Scan.leaveConstruct
  return result

def constantPath : Parse NodeId := do
  let operand ← descend .chain
  let node ← Scan.nodeOf operand
  match operand with
  | .constant .. => pure ()
  | _ => Scan.report (← Scan.spanOf node) .pathNotConstant
  return node

def classDefinition : Parse NodeId := do
  let word := (← take).span
  Scan.enterConstruct
  if ← accept (.punct .shiftLeft) then
    let target ← expressionValue
    let (scope, span) ← classBody word
    Scan.alloc (.opening .singletonClass target scope) span
  else
    if (← get).scopes.inMethod then Scan.report word .classInMethod
    let path ← constantPath
    let superclass ←
      if ← accept (.punct .less) then pure (some (← expressionValue)) else pure none
    let (scope, span) ← classBody word
    Scan.alloc (.classDefinition path superclass scope) span

def moduleDefinition : Parse NodeId := do
  let word := (← take).span
  Scan.enterConstruct
  if (← get).scopes.inMethod then Scan.report word .moduleInMethod
  let path ← constantPath
  let (scope, span) ← classBody word
  Scan.alloc (.opening .module path scope) span

def blockBody (opening : Token) : Parse NodeId := do
  let inBraces := opening.kind.isLeftBrace
  Scan.enterConstruct
  let (list, scope, span) ← (if inBraces then id else isolated) do
    Scan.enterScope .block
    let list ← blockParameters
    let inner ← if inBraces then descend .statements else body
    let close ← if inBraces then expect (.punct .rightBrace) else expectEnd
    let span := opening.span.hull close
    return (list, ← Scan.leaveScope inner span, span)
  Scan.leaveConstruct
  Scan.alloc (.closure .block list scope) span

def block : Parse NodeId := do
  let opening ← take
  deeper opening.span.start (blockBody opening)

def lambdaBody : Parse (Option NodeId × Span) := do
  let token ← peekToken
  if token.kind.isLeftBrace then
    skip
    let inner ← descend .statements
    return (inner, ← expect (.punct .rightBrace))
  else if token.kind.isDo then
    skip
    isolated do
      let inner ← body
      return (inner, ← expectEnd)
  else
    Scan.unexpected token (some "lambda body")
    return (none, token.span)

def lambda : Parse NodeId := do
  let arrow ← take
  Scan.enterConstruct
  Scan.enterScope .block
  let list ←
    if (← peekKind).isLeftParen then parenthesizedParameters else parameters .lambdaBody
  let (inner, close) ← lambdaBody
  let span := arrow.span.hull close
  let scope ← Scan.leaveScope inner span
  Scan.leaveConstruct
  Scan.alloc (.closure .lambda list scope) span

def methodItem : Parse Symbol := do
  let token ← peekToken
  match token.kind with
  | .symbol name =>
      skip
      return name
  | .literalBegin .symbol =>
      let node ← literal .symbol
      match ← Scan.shapeOf node with
      | .named .symbol name => return name
      | _ =>
          Scan.report (← Scan.spanOf node) .dynamicSymbol
          Scan.intern []
  | .instanceVariable name | .classVariable name | .globalVariable name =>
      Scan.unexpected token (some "method name")
      skip
      return name
  | _ => return (← methodName).2

def globalAliasShape (newName : Symbol) : Parse (Shape NodeId) := do
  let token ← peekToken
  match token.kind with
  | .globalVariable _ | .backReference _ =>
      skip
      let oldName ← Scan.intern (← Scan.sliceOf token.span)
      return .alias .globalVariable newName oldName
  | .numberedReference _ =>
      skip
      Scan.report token.span .aliasNumbered
      return .leaf .error
  | _ =>
      Scan.unexpected token (some "global variable")
      return .leaf .error

def globalAlias (start : Nat) : Parse NodeId := do
  let token ← take
  let shape ← globalAliasShape (← Scan.intern (← Scan.sliceOf token.span))
  match token.kind with
  | .numberedReference _ => Scan.report token.span .aliasNumbered
  | _ => pure ()
  Scan.alloc shape (← spanSince start)

def methodAlias (start : Nat) : Parse NodeId := do
  let newName ← methodItem
  Scan.setMode .methodName
  let oldName ← methodItem
  Scan.alloc (.alias .method newName oldName) (← spanSince start)

def aliasStatement : Parse NodeId := do
  let start := (← take).span.start
  match ← peekKind with
  | .globalVariable _ | .backReference _ | .numberedReference _ => globalAlias start
  | _ => methodAlias start

def undefTurn (names : Array Symbol) : Parse (Turn (Array Symbol) (Array Symbol)) := do
  if ← accept (.punct .comma) then
    Scan.setMode .methodName
    return .again (names.push (← methodItem))
  else return .done names

def undefStatement : Parse NodeId := do
  let start := (← take).span.start
  let first ← methodItem
  let names ← repeatUntil #[first] undefTurn
  Scan.alloc (.undef names.toList) (← spanSince start)

def bracedStatements : Parse NodeId := do
  let token ← peekToken
  if token.kind.isLeftBrace then skip
  else Scan.unexpected token (some (TokenKind.punct .leftBrace).describe)
  Scan.enterConstruct
  let inner ← deeper token.span.start (descend .statements)
  let close ← expect (.punct .rightBrace)
  Scan.leaveConstruct
  Scan.alloc (.optional .group inner) (token.span.hull close)

def atStart : Parse NodeId := do
  let word ← take
  let state ← get
  if state.scopes.depth != 1 || state.lexer.openConstructs != 0 then
    Scan.report word.span .misplacedBegin
  let inner ← bracedStatements
  Scan.alloc (.unary .atStart inner) (word.span.hull (← Scan.spanOf inner))

def atExit : Parse NodeId := do
  let word ← take
  if (← get).scopes.inMethod then Scan.report word.span .endInMethod
  Scan.enterScope .block
  let inner ← bracedStatements
  let span ← Scan.spanOf inner
  let scope ← Scan.leaveScope (some inner) span
  Scan.alloc (.unary .atExit scope) (word.span.hull span)

end Parse

end RubySyntax
