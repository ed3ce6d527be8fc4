/-
Targets of assignments.
-/

import RubySyntax.Grammar.Call

namespace RubySyntax

namespace Scan

def checkConstantTarget (span : Span) : Scan Unit := do
  if (← get).scopes.inMethod then report span .dynamicConstant

/-- The name of a node that is an identifier written alone. It was read as a
call because no such local variable was known. -/
def bareName? (id : NodeId) : Scan (Option Symbol) := do
  match ← shapeOf id with
  | .functionCall name [] none =>
      let written ← sliceOf (← spanOf id)
      if written == (← nameOf name) then return some name else return none
  | _ => return none

def targetProblem? (shape : Shape NodeId) (written : Bytes) : Option Problem :=
  match shape with
  | .named .localVariable _ | .named .instanceVariable _ | .named .globalVariable _
  | .named .classVariable _ | .targets .. | .call _ _ _ _ none | .leaf .error
  | .named .constant _ | .named .topConstant _ | .scopedConstant .. => none
  | .numberedReference _ | .backReference _ => some (.assignReference written)
  | .leaf .selfValue => some .assignSelf
  | .leaf .nilValue => some (.assignLiteral "nil")
  | .leaf .trueValue => some (.assignLiteral "true")
  | .leaf .falseValue => some (.assignLiteral "false")
  | shape => some (.assignTo shape.tag)

def isConstant : Shape NodeId → Bool
  | .named .constant _ => true
  | .named .topConstant _ => true
  | .scopedConstant .. => true
  | _ => false

def takesValue : Shape NodeId → Bool
  | .named .localVariable _ | .named .instanceVariable _ | .named .globalVariable _
  | .named .classVariable _ | .numberedReference _ | .backReference _
  | .leaf .nilValue | .leaf .selfValue | .leaf .trueValue | .leaf .falseValue
  | .call _ _ _ _ none => true
  | _ => false

def targetOfNode (id : NodeId) : Scan NodeId := do
  let span ← spanOf id
  match ← bareName? id with
  | some name =>
      recycle id
      declare name
      alloc (.named .localVariable name) span
  | none =>
      let shape ← shapeOf id
      if isConstant shape then checkConstantTarget span
      match targetProblem? shape (← sliceOf span) with
      | some problem => report span problem
      | none => pure ()
      return id

def targetOf (operand : Operand) : Scan NodeId := do
  match operand with
  | .identifier span _ name =>
      declare name
      alloc (.named .localVariable name) span
  | .constant span .. =>
      let id ← nodeOf operand
      checkConstantTarget span
      return id
  | .bareCall _ (.method ..) => nodeOf operand
  | operand => targetOfNode (← nodeOf operand)

/-- Whether `=` after an operand assigns to it. Some that can be no targets
are accepted, to be reported. -/
def isAssignable (operand : Operand) : Scan Bool := do
  match operand with
  | .identifier .. => return true
  | .constant .. => return true
  | .bareCall _ (.method ..) => return true
  | .bareCall .. => return false
  | .fullCall .. => return false
  | .node id => return takesValue (← shapeOf id)

end Scan

structure TargetList where
  before : List NodeId := []
  rest : Option NodeId := none
  after : List NodeId := []

namespace TargetList

def push (list : TargetList) (target : NodeId) : TargetList :=
  if list.rest.isSome then { list with after := list.after ++ [target] }
  else { list with before := list.before ++ [target] }

end TargetList

namespace Parse

def endsTargets : TokenKind → Bool
  | .punct .assign => true
  | .punct .rightParen => true
  | .punct .bar => true
  | .keyword .inWord => true
  | .newline => true
  | _ => false

def endsSplat : TokenKind → Bool
  | .punct .comma => true
  | .punct .assign => true
  | .punct .rightParen => true
  | .keyword .inWord => true
  | .newline => true
  | _ => false

def targetSplat (list : TargetList) : Parse TargetList := do
  let star ← take
  let target ←
    if endsSplat (← peekKind) then pure none else pure (some (← descend .target))
  let span := star.span.hull (← Scan.spanOf? target)
  let splat ← Scan.alloc (.optional .splat target) span
  if list.rest.isSome then
    Scan.unexpected star none
    return list
  else return { list with rest := some splat }

def targetItem? (list : TargetList) : Parse (Option TargetList) := do
  let kind ← peekKind
  if endsTargets kind then return none
  else if kind = .punct .splatStar || kind = .punct .star then
    return some (← targetSplat list)
  else return some (list.push (← descend .target))

def targetTurn : TargetList × Bool → Parse (Turn (TargetList × Bool) TargetList)
  | (list, starting) => do
      let continues ← if starting then pure true else accept (.punct .comma)
      if !continues then return .done list
      match ← targetItem? list with
      | none => return .done list
      | some list => return .again (list, false)

/-- The rest of a list of targets. If none has been read, the list starts
here; otherwise commas come first. -/
def targetsRest (read : List NodeId) (start : Span) : Parse NodeId := do
  let first : TargetList := { before := read }
  let list ← repeatUntil (first, read.isEmpty) targetTurn
  Scan.alloc (.targets list.before list.rest list.after)
    (start.hull (← spanSince start.start))

def nestedTargets (opening : Span) : Parse NodeId := do
  if (← peekKind) = .punct .splatStar then targetsRest [] opening
  else
    let first ← descend .target
    targetsRest [first] opening

def target : Parse NodeId := do
  let token ← peekToken
  if token.kind.isLeftParen then
    skip
    let targets ← deeper token.span.start (nestedTargets token.span)
    let close ← expect (.punct .rightParen)
    Scan.widen targets close
    return targets
  else Scan.targetOf (← descend .chain)

end Parse

end RubySyntax
