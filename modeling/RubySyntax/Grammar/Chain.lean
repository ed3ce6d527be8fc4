/-
What follows a primary expression: method calls, indexing, constants and
blocks.
-/

import RubySyntax.Grammar.Primary

namespace RubySyntax

namespace Parse

/-- The method after a dot, which has been taken. Without a name the receiver
stands alone. -/
def afterDot (receiver : NodeId) (safe : Bool) : Parse Operand := do
  let token ← peekToken
  let name? ←
    match token.kind with
    | .identifier name | .constant name | .methodName name =>
        skip
        pure (some name)
    | .punct mark =>
        if mark = .callParen then pure (some (← Scan.intern (ascii "call")))
        else if mark.isMethodName then
          skip
          pure (some (← Scan.intern (ascii mark.spelling)))
        else pure none
    | _ => pure none
  match name? with
  | some name =>
      let span := (← Scan.spanOf receiver).hull (← spanSince token.span.start)
      return .bareCall span (.method receiver name safe)
  | none =>
      Scan.unexpected token (some "method name")
      return .node receiver

def afterColons (receiver : NodeId) : Parse Operand := do
  let token ← peekToken
  match token.kind with
  | .constant name =>
      skip
      let span := (← Scan.spanOf receiver).hull token.span
      if (← peekKind) = .punct .callParen then
        return .bareCall span (.method receiver name false)
      else return .constant span (.under receiver) name
  | .identifier name | .methodName name =>
      skip
      let span := (← Scan.spanOf receiver).hull token.span
      return .bareCall span (.method receiver name false)
  | _ =>
      Scan.unexpected token (some "constant or method name")
      return .node receiver

def callArguments (operand : Operand) : Parse Operand := do
  let list ← parenthesized
  let span := (← Scan.operandSpan operand).hull list.span
  return .fullCall span (← Scan.calleeOf operand) list

def element (operand : Operand) : Parse Operand := do
  skip
  let receiver ← Scan.nodeOf operand
  let list ← arguments (some .rightBracket)
  let close ← expect (.punct .rightBracket)
  let name ← Scan.intern (ascii "[]")
  let span := (← Scan.spanOf receiver).hull close
  return .node (← Scan.alloc (.call false receiver name list.items list.block) span)

def blockCall (operand : Operand) : Parse Operand := do
  let closure ← block
  let call ← Scan.callOf operand
  Scan.giveBlock call closure
  return .node call

def link? (operand : Operand) : Parse (Option Operand) := do
  let ifTaking (takes : Bool) (rule : Operand → Parse Operand) : Parse (Option Operand) := do
    if takes then return some (← rule operand) else return none
  match ← peekKind with
  | .punct .callParen => ifTaking operand.takesArguments callArguments
  | .punct .leftBracket => ifTaking true element
  | .punct .dot =>
      skip
      return some (← afterDot (← Scan.nodeOf operand) false)
  | .punct .safeDot =>
      skip
      return some (← afterDot (← Scan.nodeOf operand) true)
  | .punct .colonColon =>
      skip
      return some (← afterColons (← Scan.nodeOf operand))
  | .punct .leftBrace => ifTaking operand.takesBlock blockCall
  | .keyword .doWord => ifTaking operand.takesBlock blockCall
  | _ => return none

def chainTurn (operand : Operand) : Parse (Turn Operand Operand) := do
  match ← link? operand with
  | some operand => return .again operand
  | none => return .done operand

def chainFrom (first : Operand) : Parse Operand :=
  repeatUntil first chainTurn

def chain : Parse Operand := do
  chainFrom (← primary)

/-- Arguments without parentheses. A `do` among them belongs to none of
them. -/
def commandArguments : Parse Arguments := do
  let before := (← get).lexer.commandFlags
  Scan.setLexer fun lexer => { lexer with commandFlags := lexer.commandFlags.push true }
  let list ← arguments none
  Scan.setLexer fun lexer => { lexer with commandFlags := before }
  return list

def commandBlock (call : NodeId) : Parse NodeId := do
  let closure ← block
  Scan.giveBlock call closure
  finishCommand (← chainFrom (.node call)) .accepted false

def command (head : Operand) (allowBlock : Bool) : Parse NodeId := do
  deeper (← Scan.operandSpan head).start do
    let call ← Scan.callWith head (← commandArguments)
    if !allowBlock then return call
    match ← peekKind with
    | .keyword .doBlock | .punct .commandBrace => commandBlock call
    | _ => return call

end Parse

end RubySyntax
