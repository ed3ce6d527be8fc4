/-
Bodies with handlers, conditionals and loops.
-/

import RubySyntax.Grammar.Argument
import RubySyntax.Grammar.Target

namespace RubySyntax

namespace Parse

def rescuedClasses : Parse (List NodeId) := do
  match ← peekKind with
  | .punct .fatArrow | .keyword .thenWord | .newline | .semicolon => return []
  | _ => commaList listItem true

def rescueClause : Parse NodeId := do
  let word ← take
  let exceptions ← rescuedClasses
  let variableTarget ←
    if ← accept (.punct .fatArrow) then pure (some (← descend .target)) else pure none
  skipSeparator .thenWord
  let body ← descend .statements
  Scan.alloc (.rescueClause exceptions variableTarget body) (← spanSince word.span.start)

def rescueTurn (clauses : Array NodeId) : Parse (Turn (Array NodeId) (Array NodeId)) := do
  if (← peekKind) = .keyword .rescueWord then
    return .again (clauses.push (← rescueClause))
  else return .done clauses

def rescueClauses : Parse (List NodeId) := do
  return (← repeatUntil #[] rescueTurn).toList

/-- A body that ends with an `else` but handles nothing: its statements simply
follow. -/
def uselessElse (body otherwise : Option NodeId) : Parse (Option NodeId) := do
  let items := body.toList ++ otherwise.toList
  sequence items (← Scan.spanOfAll items)

def handledBody (body : Option NodeId) : Parse (Option NodeId) := do
  let clauses ← rescueClauses
  let word ← accept? (.keyword .elseWord)
  let otherwise ← if word.isSome then descend .statements else pure none
  match clauses, word with
  | [], none => return body
  | [], some word =>
      Scan.report word.span .uselessElse
      uselessElse body otherwise
  | clauses, _ =>
      let span := ((← Scan.spanOf? body).hull (← Scan.spanOfAll clauses)).hull
        (← Scan.spanOf? otherwise)
      return some (← Scan.alloc (.rescue body clauses otherwise) span)

def body : Parse (Option NodeId) := do
  let statements ← descend .statements
  let handled ← handledBody statements
  match ← accept? (.keyword .ensureWord) with
  | none => return handled
  | some word =>
      let cleanup ← descend .statements
      let span := ((← Scan.spanOf? handled).hull word.span).hull (← Scan.spanOf? cleanup)
      return some (← Scan.alloc (.ensure handled cleanup) span)

def beginBlock : Parse NodeId := do
  let word ← take
  Scan.enterConstruct
  let inner ← body
  let close ← expectEnd
  Scan.leaveConstruct
  Scan.alloc (.optional .group inner) (word.span.hull close)

def elseBranch : Parse (Option NodeId) := do
  if ← accept (.keyword .elseWord) then descend .statements else return none

def ifTail : Parse (Option NodeId) := do
  let token ← peekToken
  if token.kind = .keyword .elsifWord then
    skip
    let condition ← conditionValue
    skipSeparator .thenWord
    let whenTrue ← descend .statements
    let whenFalse ← deeper token.span.start (descend .ifTail)
    let span ← spanSince token.span.start
    return some (← Scan.alloc (.conditional condition whenTrue whenFalse) span)
  else elseBranch

def ifBlock : Parse NodeId := do
  let word ← take
  Scan.enterConstruct
  let condition ← conditionValue
  skipSeparator .thenWord
  let whenTrue ← descend .statements
  let whenFalse ← ifTail
  let close ← expectEnd
  Scan.leaveConstruct
  Scan.alloc (.conditional condition whenTrue whenFalse) (word.span.hull close)

/-- `unless ... end`, which is `if` with its branches swapped and has no
`elsif`. -/
def unlessBlock : Parse NodeId := do
  let word ← take
  Scan.enterConstruct
  let condition ← conditionValue
  skipSeparator .thenWord
  let whenFalse ← descend .statements
  match ← accept? (.keyword .elsifWord) with
  | some token => Scan.unexpected token none
  | none => pure ()
  let whenTrue ← elseBranch
  let close ← expectEnd
  Scan.leaveConstruct
  Scan.alloc (.conditional condition whenTrue whenFalse) (word.span.hull close)

def loopHead : Parse NodeId := do
  Scan.setLexer fun lexer => { lexer with loopFlags := lexer.loopFlags.push true }
  let head ← expressionValue
  Scan.setLexer fun lexer => { lexer with loopFlags := lexer.loopFlags.pop }
  return head

def loopBlock (form : LoopForm) : Parse NodeId := do
  let word ← take
  Scan.enterConstruct
  let condition ← Scan.condition (← loopHead)
  skipSeparator .doLoop
  let inner ← descend .statements
  let close ← expectEnd
  Scan.leaveConstruct
  Scan.alloc (.loop form condition inner false) (word.span.hull close)

def whenClause (word : Token) : Parse NodeId := do
  let conditions ← commaList listItem true
  skipSeparator .thenWord
  let inner ← descend .statements
  Scan.alloc (.whenClause conditions inner) (← spanSince word.span.start)

def whenTurn (clauses : Array NodeId) : Parse (Turn (Array NodeId) (Array NodeId)) := do
  match ← accept? (.keyword .whenWord) with
  | some word => return .again (clauses.push (← whenClause word))
  | none => return .done clauses

def whenClauses : Parse (List NodeId) := do
  return (← repeatUntil #[] whenTurn).toList

def caseBlock : Parse NodeId := do
  let word ← take
  Scan.enterConstruct
  let subject ←
    if (← peekKind).isTerminator then pure none else pure (some (← expressionValue))
  skipTerminators
  let clauses ← whenClauses
  if clauses.isEmpty then
    Scan.unexpected (← peekToken) (some (TokenKind.keyword .whenWord).describe)
  let otherwise ← elseBranch
  let close ← expectEnd
  Scan.leaveConstruct
  Scan.alloc (.caseOf subject clauses otherwise) (word.span.hull close)

def forTarget : Parse NodeId := do
  let first ← descend .target
  if (← peekKind) = .punct .comma then targetsRest [first] (← Scan.spanOf first)
  else return first

def forBlock : Parse NodeId := do
  let word ← take
  Scan.enterConstruct
  let loopTarget ← forTarget
  let _ ← expect (.keyword .inWord)
  let iterated ← loopHead
  skipSeparator .doLoop
  let inner ← descend .statements
  let close ← expectEnd
  Scan.leaveConstruct
  Scan.alloc (.forLoop loopTarget iterated inner) (word.span.hull close)

end Parse

end RubySyntax
