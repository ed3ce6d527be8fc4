/-
Primary expressions: literals, names, brackets and the constructs that start
with a word.
-/

import RubySyntax.Grammar.Definition
import RubySyntax.Grammar.Statement

namespace RubySyntax

namespace Parse

/-- A placeholder for a token that starts no expression. The token is passed
over unless a construct around may need it. -/
def misplaced (token : Token) : Parse NodeId := do
  Scan.unexpected token none
  if !token.kind.endsStatements && !token.kind.isTerminator then skip
  Scan.alloc (.leaf .error) token.span

def negativeNumber : Parse NodeId := do
  let minus ← take
  let token ← peekToken
  match token.kind with
  | .integer value =>
      skip
      Scan.alloc (.integer (-value)) (minus.span.hull token.span)
  | .float value =>
      skip
      Scan.alloc (.float value.neg) (minus.span.hull token.span)
  | _ =>
      Scan.unexpected token (some "numeric literal")
      Scan.alloc (.leaf .error) minus.span

def topConstant : Parse Operand := do
  let mark ← take
  let token ← peekToken
  match token.kind with
  | .constant name =>
      skip
      return .constant (mark.span.hull token.span) .top name
  | _ =>
      Scan.unexpected token (some "constant")
      return .node (← Scan.alloc (.leaf .error) mark.span)

def moreStatements : Parse (List NodeId) := do
  if !(← peekKind).isTerminator then return []
  match ← descend .statements with
  | none => return []
  | some rest =>
      match ← Scan.shapeOf rest with
      | .list .statements items =>
          Scan.recycle rest
          return items
      | _ => return [rest]

def groupRest (opening : Token) (first : NodeId) : Parse NodeId := do
  let items := first :: (← moreStatements)
  let close ← expect (.punct .rightParen)
  if opening.kind = .punct .argumentParen then Scan.setMode .argumentEnd
  let inner ← sequence items (← Scan.spanOfAll items)
  Scan.alloc (.optional .group inner) (opening.span.hull close)

/-- Parentheses at the start of an expression. A list of targets between them
is left for an assignment to take. -/
def group : Parse NodeId := do
  let opening ← take
  skipTerminators
  match ← peekKind with
  | .punct .splatStar =>
      let targets ← targetsRest [] opening.span
      let close ← expect (.punct .rightParen)
      Scan.widen targets close
      return targets
  | .punct .rightParen =>
      let close ← take
      Scan.alloc (.optional .group none) (opening.span.hull close.span)
  | _ =>
      let first ← statement
      match ← Scan.shapeOf first with
      | .targets .. =>
          let token ← peekToken
          if token.kind = .punct .rightParen then
            skip
            Scan.widen first (opening.span.hull token.span)
            return first
          else groupRest opening first
      | _ => groupRest opening first

def array : Parse NodeId := do
  let opening ← take
  let list ← arguments (some .rightBracket)
  let close ← expect (.punct .rightBracket)
  Scan.refuseBlock list.block
  Scan.alloc (.list .array list.items) (opening.span.hull close)

def hashKey : Parse NodeId := do
  let key ← argument .accepted
  match ← Scan.takeQuotedKey? with
  | some label => return label
  | none =>
      Scan.requireValue key
      skipNewlines
      let _ ← expect (.punct .fatArrow)
      return key

def hashEntry : Parse (HashEntry NodeId) := do
  let token ← peekToken
  match token.kind with
  | .punct .splatPower =>
      skip
      return .doubleSplat (← argumentValue)
  | .label name =>
      skip
      let key ← labelKey name token.span
      skipNewlines
      return .pair key (← argumentValue)
  | _ =>
      let key ← hashKey
      skipNewlines
      return .pair key (← argumentValue)

def hashTurn (entries : Array (HashEntry NodeId)) :
    Parse (Turn (Array (HashEntry NodeId)) (Array (HashEntry NodeId))) := do
  skipNewlines
  if (← peekKind) = .punct .rightBrace then return .done entries
  let entries := entries.push (← hashEntry)
  skipNewlines
  if ← accept (.punct .comma) then return .again entries else return .done entries

def hash : Parse NodeId := do
  let opening ← take
  let entries ← repeatUntil #[] hashTurn
  skipNewlines
  let close ← expect (.punct .rightBrace)
  Scan.alloc (.hash entries.toList) (opening.span.hull close)

def jumpValue : Parse (Option NodeId) := do
  let kind ← peekKind
  if !kind.beginsArgument || kind = .punct .blockAmpersand then return none
  let list ← arguments none
  Scan.refuseBlock list.block
  let array : Parse (Option NodeId) := do
    return some (← Scan.alloc (.list .array list.items) (← Scan.spanOfAll list.items))
  match list.items with
  | [] => return none
  | [item] =>
      match ← Scan.shapeOf item with
      | .optional .splat _ => array
      | _ => return some item
  | _ => array

def jump (form : OptionalForm) : Parse NodeId := do
  let word ← take
  let value ← jumpValue
  Scan.alloc (.optional form value) (word.span.hull (← Scan.spanOf? value))

def definedTest : Parse NodeId := do
  let word ← take
  if ← accept (.punct .callParen) then
    skipNewlines
    let operand ← expression .accepted
    skipNewlines
    let close ← expect (.punct .rightParen)
    Scan.alloc (.unary .defined operand) (word.span.hull close)
  else
    let operand ← argument .reported
    Scan.alloc (.unary .defined operand) (word.span.hull (← Scan.spanOf operand))

def negatedOperand (opening : Span) : Parse NodeId := do
  if (← peekKind) = .punct .rightParen then Scan.alloc (.leaf .nilValue) opening
  else conditionValue

def negationCall : Parse NodeId := do
  let word ← take
  let token ← peekToken
  if token.kind = .punct .callParen then
    skip
    skipNewlines
    let operand ← negatedOperand token.span
    skipNewlines
    let close ← expect (.punct .rightParen)
    Scan.alloc (.unary .negation operand) (word.span.hull close)
  else
    Scan.unexpected token (some (TokenKind.punct .callParen).describe)
    let operand ← Scan.condition (← argumentValue)
    Scan.alloc (.unary .negation operand) (word.span.hull (← Scan.spanOf operand))

def wordConstruct? (word : Keyword) : Parse (Option NodeId) := do
  match word with
  | .returnWord => return some (← jump .returnJump)
  | .breakWord => return some (← jump .breakJump)
  | .nextWord => return some (← jump .nextJump)
  | .definedWord => return some (← definedTest)
  | .notWord => return some (← negationCall)
  | .beginWord => return some (← beginBlock)
  | .ifWord => return some (← ifBlock)
  | .unlessWord => return some (← unlessBlock)
  | .whileWord => return some (← loopBlock .whileTrue)
  | .untilWord => return some (← loopBlock .untilTrue)
  | .caseWord => return some (← caseBlock)
  | .forWord => return some (← forBlock)
  | .defWord => return some (← methodDefinition)
  | .classWord => return some (← classDefinition)
  | .moduleWord => return some (← moduleDefinition)
  | _ => return none

def primaryNode (token : Token) : Parse NodeId := do
  match token.kind with
  | .punct .numberMinus => negativeNumber
  | .literalBegin kind => literal kind
  | .heredocBegin => heredoc
  | .punct .leftParen | .punct .argumentParen => group
  | .punct .arrayBracket => array
  | .punct .hashBrace => hash
  | .punct .arrow => lambda
  | .keyword word =>
      match ← wordConstruct? word with
      | some node => return node
      | none => misplaced token
  | _ => misplaced token

def primary : Parse Operand := do
  let token ← peekToken
  match token.kind with
  | .identifier name =>
      skip
      return .identifier token.span ((← get).scopes.isLocal name) name
  | .constant name =>
      skip
      return .constant token.span .lexical name
  | .methodName name =>
      skip
      return .bareCall token.span (.function name)
  | .keyword .superWord =>
      skip
      return .bareCall token.span .superMethod
  | .keyword .yieldWord =>
      skip
      return .bareCall token.span .yielded
  | .punct .topColonColon => topConstant
  | _ =>
      match ← atomShape? token with
      | some shape =>
          skip
          return .node (← Scan.alloc shape token.span)
      | none => return .node (← primaryNode token)

end Parse

end RubySyntax
