/-
Expressions at the levels that other rules ask for, and the arguments of
calls.
-/

import RubySyntax.Grammar.Call

namespace RubySyntax

namespace Parse

def argument (rule : CommandRule) : Parse NodeId := do
  Scan.nodeOf (← descend (.argument rule))

def argumentValue : Parse NodeId := do
  let node ← argument .accepted
  Scan.requireValue node
  return node

def expressionTurn (rule : CommandRule) (left : NodeId) : Parse (Turn NodeId NodeId) := do
  let form? : Option BinaryForm :=
    match ← peekKind with
    | .keyword .andWord => some .and
    | .keyword .orWord => some .or
    | _ => none
  match form? with
  | none => return .done left
  | some form =>
      skip
      let right ← descend (.negation rule)
      return .again (← Scan.alloc (.binary form left right) (← Scan.spanOfBoth left right))

def expression (rule : CommandRule) : Parse NodeId := do
  repeatUntil (← descend (.negation rule)) (expressionTurn rule)

def expressionValue : Parse NodeId := do
  let node ← expression .accepted
  Scan.requireValue node
  return node

def conditionValue : Parse NodeId := do
  Scan.condition (← expressionValue)

def finishCommand (operand : Operand) (rule : CommandRule) (allowBlock : Bool) :
    Parse NodeId := do
  let token ← peekToken
  if operand.takesArguments && token.kind.beginsArgument then
    if rule = .reported then Scan.report token.span .misplacedCommand
    descend (.command operand allowBlock)
  else Scan.nodeOf operand

def splatItem : Parse NodeId := do
  let star ← take
  let value ← argumentValue
  Scan.alloc (.optional .splat (some value)) (star.span.hull (← Scan.spanOf value))

def listItem : Parse NodeId := do
  if (← peekKind) = .punct .splatStar then splatItem else argumentValue

def labelKey (name : Symbol) (span : Span) : Parse NodeId :=
  Scan.alloc (.named .symbol name) ⟨span.start, span.stop - 1⟩

structure ArgumentList where
  items : Array NodeId := #[]
  block : Option NodeId := none
  span : Span := Span.dummy
  pairs : Array (HashEntry NodeId) := #[]
  pairsSpan : Span := Span.dummy

namespace ArgumentList

def push (list : ArgumentList) (item : NodeId) (span : Span) : ArgumentList :=
  { list with items := list.items.push item, span := list.span.hull span }

def pushPair (list : ArgumentList) (entry : HashEntry NodeId) (span : Span) :
    ArgumentList :=
  { list with pairs := list.pairs.push entry, pairsSpan := list.pairsSpan.hull span }

end ArgumentList

def pushPositional (list : ArgumentList) (item : NodeId) : Parse ArgumentList := do
  let span ← Scan.spanOf item
  if !list.pairs.isEmpty then Scan.report span .positionalAfterKeywords
  return list.push item span

def pushPairFrom (list : ArgumentList) (key : NodeId) (keySpan : Span) :
    Parse ArgumentList := do
  let value ← argumentValue
  return list.pushPair (.pair key value) (keySpan.hull (← Scan.spanOf value))

/-- An argument that starts with no mark of its own: a value, or the key of a
pair. -/
def plainArgument (list : ArgumentList) : Parse ArgumentList := do
  let operand ← descend (.argument .accepted)
  match ← Scan.takeQuotedKey? with
  | some key =>
      let value ← argumentValue
      return list.pushPair (.pair key value) (← Scan.spanOfBoth key value)
  | none =>
      let node ← finishCommand operand .accepted false
      Scan.requireValue node
      if ← accept (.punct .fatArrow) then
        let value ← argumentValue
        return list.pushPair (.pair node value) (← Scan.spanOfBoth node value)
      else pushPositional list node

def argumentItem (list : ArgumentList) : Parse ArgumentList := do
  let token ← peekToken
  if list.block.isSome then Scan.unexpected token none
  match token.kind with
  | .punct .splatStar => pushPositional list (← splatItem)
  | .punct .splatPower =>
      skip
      let value ← argumentValue
      return list.pushPair (.doubleSplat value) (token.span.hull (← Scan.spanOf value))
  | .punct .blockAmpersand =>
      skip
      let value ← argumentValue
      let span := token.span.hull (← Scan.spanOf value)
      let block ← Scan.alloc (.unary .blockPass value) span
      return { list with span := list.span.hull span, block := some block }
  | .label name =>
      skip
      pushPairFrom list (← labelKey name token.span) token.span
  | _ => plainArgument list

def finishArguments (list : ArgumentList) : Parse Arguments := do
  if list.pairs.isEmpty then
    return { items := list.items.toList, block := list.block, span := list.span }
  else
    let hash ← Scan.alloc (.hash list.pairs.toList) list.pairsSpan
    let list := list.push hash list.pairsSpan
    return { items := list.items.toList, block := list.block, span := list.span }

def atCloser (closer : Option Punct) : Parse Bool := do
  match closer with
  | none => return false
  | some mark =>
      skipNewlines
      return (← peekKind) = .punct mark

def argumentTurn (closer : Option Punct) (list : ArgumentList) :
    Parse (Turn ArgumentList ArgumentList) := do
  let list ← argumentItem list
  if !(← accept (.punct .comma)) then return .done list
  if ← atCloser closer then return .done list else return .again list

/-- Arguments between commas. Before a closing mark, line ends are passed over
and a comma may come last; the mark stays. -/
def arguments (closer : Option Punct) : Parse Arguments := do
  if ← atCloser closer then return {}
  let list ← repeatUntil {} (argumentTurn closer)
  if closer.isSome then skipNewlines
  finishArguments list

def parenthesized : Parse Arguments := do
  let opening ← take
  let list ← arguments (some .rightParen)
  let close ← expect (.punct .rightParen)
  return { list with span := opening.span.hull close }

end Parse

end RubySyntax
