/-
The table of rules and whole programs.
-/

import RubySyntax.Grammar.Operator

namespace RubySyntax

namespace Parse

def rule : (name : Nonterminal) → Parse name.Result
  | .heredocBodies => heredocBodies
  | .statements => statements
  | .negation rule => negation rule
  | .argument rule => argumentOperand rule
  | .binary rule level => binary rule level
  | .minus rule => minus rule
  | .unary rule => unary rule
  | .chain => chain
  | .command head allowBlock => command head allowBlock
  | .ifTail => ifTail
  | .target => target
  | .pattern => pattern

def table : Nat → RuleTable
  | 0, _ => throw .starved
  | depth + 1, name => rule name (table depth)

/-- Statements up to a word or mark that closes nothing, which is reported and
passed over. -/
def programTurn (items : Array NodeId) : Parse (Turn (Array NodeId) (Array NodeId)) := do
  let items := items.append (← statements).toArray
  let token ← peekToken
  if token.kind = .endOfInput then return .done items
  Scan.unexpected token none
  skip
  return .again items

def programItems : Parse (List NodeId) := do
  return (← repeatUntil #[] programTurn).toList

def program : Parse NodeId := do
  let items ← programItems
  let inner ← sequence items (← spanOfEnds items)
  let state ← get
  Scan.alloc (.scope state.scopes.locals inner) ⟨0, state.previousStop⟩

end Parse

end RubySyntax
