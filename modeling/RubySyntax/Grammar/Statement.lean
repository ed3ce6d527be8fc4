/-
Statements: modifiers, assignments of several values, and lists of statements.
-/

import RubySyntax.Grammar.Definition

namespace RubySyntax

namespace Parse

def rescueShape (inner value : NodeId) : Parse (Shape NodeId) := do
  let clause ← Scan.alloc (.rescueClause [] none (some value)) (← Scan.spanOf value)
  return .rescue (some inner) [clause] none

def valueArray (items : List NodeId) : Parse NodeId := do
  Scan.alloc (.list .array items) (← Scan.spanOfAll items)

def moreValues : Parse (List NodeId) := do
  if ← accept (.punct .comma) then commaList listItem false else return []

def firstValue : Parse NodeId := do
  if (← peekKind) = .punct .splatStar then splatItem
  else
    let operand ← descend (.argument .accepted)
    let node ← finishCommand operand .accepted true
    Scan.requireValue node
    return node

def values : Parse NodeId := do
  let first ← firstValue
  let alone ←
    match ← Scan.shapeOf first with
    | .optional .splat _ => pure false
    | _ => pure ((← peekKind) != .punct .comma)
  if alone then return first
  else valueArray (first :: (← moreValues))

def multipleAssign (targets : NodeId) : Parse NodeId := do
  let _ ← expect (.punct .assign)
  let assigned ← values
  Scan.alloc (.binary .multipleAssign targets assigned)
    (← Scan.spanOfBoth targets assigned)

def assignMore (node assigned value : NodeId) : Parse NodeId := do
  skip
  let items := value :: (← commaList listItem false)
  let span ← Scan.spanOfAll items
  let array ← Scan.alloc (.list .array items) span
  Scan.setShape node (.binary .assign assigned array)
  Scan.widen node span
  return node

/-- A comma after an expression: it is the first of several targets. Before a
closing parenthesis the targets are left as they are. -/
def targetsAfter (node : NodeId) (start : Span) : Parse NodeId := do
  let first ← Scan.targetOfNode node
  let targets ← targetsRest [first] start
  if (← peekKind) = .punct .rightParen then return targets else multipleAssign targets

def expressionStatement : Parse NodeId := do
  let start := (← peekToken).span
  let node ← expression .accepted
  let kind ← peekKind
  match ← Scan.shapeOf node with
  | .binary .assign assigned value =>
      if kind = .punct .comma then assignMore node assigned value else return node
  | .targets .. =>
      if kind = .punct .comma then targetsAfter node start
      else if kind = .punct .assign then multipleAssign node
      else return node
  | _ => if kind = .punct .comma then targetsAfter node start else return node

def plainStatement (first : Token) : Parse NodeId := do
  match first.kind with
  | .keyword .aliasWord => aliasStatement
  | .keyword .undefWord => undefStatement
  | .keyword .capitalBegin => atStart
  | .keyword .capitalEnd => atExit
  | .punct .splatStar => multipleAssign (← targetsRest [] first.span)
  | _ => expressionStatement

/-- Whether a loop after a statement runs its body first: it does after
`begin ... end`. -/
def runsBodyFirst (first : Token) (node : NodeId) : Parse Bool := do
  match ← Scan.shapeOf node with
  | .optional .group _ => return first.kind = .keyword .beginWord
  | _ => return false

def loopModifier (form : LoopForm) (first : Token) (node : NodeId) :
    Parse (Shape NodeId) := do
  skip
  let condition ← conditionValue
  return .loop form condition (some node) (← runsBodyFirst first node)

def modifier? (first : Token) (node : NodeId) : Parse (Option (Shape NodeId)) := do
  match ← peekKind with
  | .keyword .ifModifier =>
      skip
      return some (.conditional (← conditionValue) (some node) none)
  | .keyword .unlessModifier =>
      skip
      return some (.conditional (← conditionValue) none (some node))
  | .keyword .whileModifier => return some (← loopModifier .whileTrue first node)
  | .keyword .untilModifier => return some (← loopModifier .untilTrue first node)
  | .keyword .rescueModifier =>
      skip
      return some (← rescueShape node (← expressionValue))
  | _ => return none

def modifierTurn (first : Token) (node : NodeId) : Parse (Turn NodeId NodeId) := do
  let start := (← peekToken).span.start
  match ← modifier? first node with
  | none => return .done node
  | some shape =>
      let span := (← Scan.spanOf node).hull (← spanSince start)
      return .again (← Scan.alloc shape span)

def statement : Parse NodeId := do
  let first ← peekToken
  let plain ← plainStatement first
  match ← Scan.takeQuotedKey? with
  | some label => Scan.report (← Scan.spanOf label) .unexpectedLabel
  | none => pure ()
  repeatUntil plain (modifierTurn first)

def skipToStatementEnd : Parse Unit :=
  skipWhile fun kind => !kind.isTerminator && !kind.endsStatements

/-- One more statement. What follows it on its line is reported and passed
over. -/
def statementTurn (items : Array NodeId) : Parse (Turn (Array NodeId) (Array NodeId)) := do
  skipTerminators
  if (← peekKind).endsStatements then return .done items
  let items := items.push (← statement)
  let token ← peekToken
  if !token.kind.isTerminator && !token.kind.endsStatements then
    Scan.unexpected token none
    skipToStatementEnd
  return .again items

def statementList : Parse (List NodeId) := do
  return (← repeatUntil #[] statementTurn).toList

def spanOfEnds (items : List NodeId) : Parse Span := do
  match items.head?, items.getLast? with
  | some first, some last => Scan.spanOfBoth first last
  | _, _ => return Span.dummy

def statements : Parse (Option NodeId) := do
  let items ← statementList
  sequence items (← spanOfEnds items)

end Parse

end RubySyntax
