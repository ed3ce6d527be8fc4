/-
Operators, from the unary ones that bind most tightly to the conditional
operator, and assignments.
-/

import RubySyntax.Grammar.Chain

namespace RubySyntax

def Punct.level? : Punct → Option Nat
  | .logicalOr => some 1
  | .logicalAnd => some 2
  | .compare | .equal | .caseEqual | .notEqual | .matchOp | .notMatch => some 3
  | .less | .lessEqual | .greater | .greaterEqual => some 4
  | .bar | .caret => some 5
  | .ampersand => some 6
  | .shiftLeft | .shiftRight => some 7
  | .plus | .minus => some 8
  | .star | .slash | .percent => some 9
  | _ => none

namespace Parse

def equalityLevel : Nat := 3

def splatValues : Parse NodeId := do
  let first ← splatItem
  valueArray (first :: (← moreValues))

/-- The value of an assignment. It may be a command where the assignment may
be one, and `rescue` after a value that is no command belongs to it. -/
def assignedValue (rule : CommandRule) : Parse NodeId := do
  if (← peekKind) = .punct .splatStar then splatValues
  else
    let operand ← descend (.argument rule)
    let isCommand ←
      if operand.takesArguments then pure (← peekKind).beginsArgument else pure false
    let value ←
      if rule = .reported then Scan.nodeOf operand
      else finishCommand operand rule true
    Scan.requireValue value
    if (← peekKind) = .keyword .rescueModifier && !isCommand then
      skip
      let fallback ← argumentValue
      let shape ← rescueShape value fallback
      Scan.alloc shape (← Scan.spanOfBoth value fallback)
    else return value

def operand (rule : CommandRule) : Parse Operand := do
  let operand ← descend .chain
  let token ← peekToken
  let assignable ← Scan.isAssignable operand
  match token.kind with
  | .punct .assign =>
      if !assignable then return operand
      skip
      let target ← Scan.targetOf operand
      let value ← assignedValue rule
      return .node (← Scan.alloc (.binary .assign target value)
        (← Scan.spanOfBoth target value))
  | .operatorAssign operator =>
      if !assignable then return operand
      skip
      let target ← Scan.targetOf operand
      let value ← assignedValue rule
      return .node (← Scan.alloc (.operatorAssign target operator value)
        (← Scan.spanOfBoth target value))
  | kind =>
      if rule = .reported && operand.takesArguments && kind.beginsArgument then
        Scan.report token.span .misplacedCommand
        return .node (← descend (.command operand false))
      else return operand

def unaryName? : TokenKind → Option String
  | .punct .tilde => some "~"
  | .punct .unaryPlus => some "+@"
  | .punct .unaryMinus => some "-@"
  | _ => none

def bangOperand (rule : CommandRule) (mark : Span) (read : Operand) : Parse Operand := do
  let node ← finishCommand read rule false
  Scan.requireValue node
  let negated ← Scan.condition node
  return .node (← Scan.alloc (.unary .negation negated)
    (mark.hull (← Scan.spanOf negated)))

def unary (rule : CommandRule) : Parse Operand := do
  let token ← peekToken
  if token.kind = .punct .bang then
    skip
    bangOperand rule token.span (← deeper token.span.start (descend (.unary rule)))
  else
    match unaryName? token.kind with
    | none => operand rule
    | some name =>
        skip
        let read ← deeper token.span.start (descend (.unary rule))
        let node ← Scan.nodeOf read
        Scan.requireValue node
        return .node (← Scan.unaryCall node name token.span)

def takeSign (id : NodeId) : Parse Bool := do
  let unsign (shape : Shape NodeId) : Parse Bool := do
    Scan.modifyNode id fun node =>
      { node with shape, span := { node.span with start := node.span.start + 1 } }
    return true
  match ← Scan.shapeOf id with
  | .integer value => unsign (.integer (-value))
  | .float value => unsign (.float value.neg)
  | _ => return false

/-- Whether a base is a literal that starts with the sign read first; the sign
is then taken off, because it applies to the power. -/
def takeSignOf (first : Token) (base : NodeId) : Parse Bool := do
  if first.kind = .punct .numberMinus && (← Scan.spanOf base).start = first.span.start then
    takeSign base
  else return false

def power (rule : CommandRule) : Parse Operand := do
  let first ← peekToken
  let read ← unary rule
  let token ← peekToken
  if token.kind != .punct .power then return read
  skip
  let base ← Scan.nodeOf read
  let negated ← takeSignOf first base
  let exponent ← Scan.nodeOf (← deeper token.span.start (descend (.minus .reported)))
  Scan.requireValue base
  Scan.requireValue exponent
  let name ← Scan.intern (ascii "**")
  let raised ← Scan.binaryCall base exponent name (← Scan.spanOfBoth base exponent)
  if negated then return .node (← Scan.unaryCall raised "-@" first.span)
  else return .node raised

def minus (rule : CommandRule) : Parse Operand := do
  let token ← peekToken
  if token.kind = .punct .unaryMinus then
    skip
    let node ← Scan.nodeOf (← deeper token.span.start (descend (.minus rule)))
    return .node (← Scan.unaryCall node "-@" token.span)
  else power rule

def binaryNode (mark : Punct) (left right : NodeId) : Parse NodeId := do
  let span ← Scan.spanOfBoth left right
  match mark with
  | .logicalOr => Scan.alloc (.binary .or left right) span
  | .logicalAnd => Scan.alloc (.binary .and left right) span
  | mark =>
      Scan.requireValue left
      Scan.requireValue right
      Scan.binaryCall left right (← Scan.intern (ascii mark.spelling)) span

def operatorAt? (kind : TokenKind) : Option (Punct × Nat) :=
  match kind with
  | .punct mark => mark.level?.map fun level => (mark, level)
  | _ => none

/-- One more operator with the operand after it; `previous` is the level of the
operator before. -/
def binaryTurn (least : Nat) : Operand × Option Nat →
    Parse (Turn (Operand × Option Nat) Operand)
  | (left, previous) => do
      let token ← peekToken
      match operatorAt? token.kind with
      | none => return .done left
      | some (mark, level) =>
          if level < least then return .done left
          if level = equalityLevel && previous = some level then
            Scan.report token.span .chainedOperators
          skip
          let leftNode ← Scan.nodeOf left
          let rightNode ← Scan.nodeOf (← descend (.binary .reported (level + 1)))
          return .again (.node (← binaryNode mark leftNode rightNode), some level)

def binary (rule : CommandRule) (least : Nat) : Parse Operand := do
  repeatUntil (← minus rule, none) (binaryTurn least)

def range (rule : CommandRule) : Parse Operand := do
  let first ← binary rule 1
  let form? : Option BinaryForm :=
    match ← peekKind with
    | .punct .dotDot => some .range
    | .punct .dotDotDot => some .openRange
    | _ => none
  match form? with
  | none => return first
  | some form =>
      skip
      let left ← Scan.nodeOf first
      let right ← Scan.nodeOf (← binary .reported 1)
      Scan.requireValue left
      Scan.requireValue right
      return .node (← Scan.alloc (.binary form left right) (← Scan.spanOfBoth left right))

def branches (read : Operand) : Parse Operand := do
  let node ← Scan.nodeOf read
  Scan.requireValue node
  let condition ← Scan.condition node
  skipNewlines
  let whenTrue ← argument .reported
  skipNewlines
  let _ ← expect (.punct .colon)
  skipNewlines
  let whenFalse ← argument .reported
  return .node (← Scan.alloc (.conditional condition (some whenTrue) (some whenFalse))
    (← Scan.spanOfBoth condition whenFalse))

def argumentOperand (rule : CommandRule) : Parse Operand := do
  deeper (← peekToken).span.start do
    let read ← range rule
    if ← accept (.punct .question) then branches read else return read

def negation (rule : CommandRule) : Parse NodeId := do
  let token ← peekToken
  if token.kind = .keyword .notWord then
    skip
    let node ← deeper token.span.start (descend (.negation rule))
    let negated ← Scan.condition node
    Scan.alloc (.unary .negation negated) (token.span.hull (← Scan.spanOf negated))
  else finishCommand (← descend (.argument rule)) rule true

end Parse

end RubySyntax
