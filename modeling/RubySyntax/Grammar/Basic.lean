/-
The frame of the grammar: how rules call each other, and the steps that they
share.

Rules that lead back to themselves are called through a table that is handed
to every rule. The table is tied to the rules by a depth that is fixed before
the parse starts, so no rule is recursive by itself.
-/

import RubySyntax.Grammar.Operand
import RubySyntax.Lexer.Token

namespace RubySyntax

inductive Nonterminal where
  /-- The bodies of the heredocs that were opened on the line just read. -/
  | heredocBodies
  | statements
  /-- An expression under any number of `not`. -/
  | negation (rule : CommandRule)
  | argument (rule : CommandRule)
  /-- Binary operators that bind at least as tightly as a level. -/
  | binary (rule : CommandRule) (level : Nat)
  | minus (rule : CommandRule)
  | unary (rule : CommandRule)
  | chain
  /-- A call without parentheses; a `do` block may belong to it. -/
  | command (head : Operand) (allowBlock : Bool)
  | ifTail
  | target
  | pattern
deriving DecidableEq, Repr, Inhabited

@[reducible] def Nonterminal.Result : Nonterminal → Type
  | .heredocBodies => Unit
  | .statements => Option NodeId
  | .negation _ => NodeId
  | .argument _ => Operand
  | .binary .. => Operand
  | .minus _ => Operand
  | .unary _ => Operand
  | .chain => Operand
  | .command .. => NodeId
  | .ifTail => Option NodeId
  | .target => NodeId
  | .pattern => NodeId

abbrev RuleTable := (rule : Nonterminal) → Scan rule.Result

abbrev Parse := ReaderT RuleTable Scan

namespace Scan

/-- Stores a node. Its line and file are those of the start of its range. -/
def alloc (shape : Shape NodeId) (span : Span) : Scan NodeId := do
  let state ← get
  relyOn (state.report.map.canLocate span.start) .outOfRange
  let location := state.report.map.locate span.start
  match state.arena.alloc { shape, span, line := location.line, file := location.file } with
  | some (id, arena) =>
      set { state with arena }
      return id
  | none => fail (.arenaExhausted state.arena.limit)

def recycle (id : NodeId) : Scan Unit :=
  modify fun state => { state with arena := state.arena.recycle id }

def nodeAt (id : NodeId) : Scan Node := do
  match (← get).arena.get? id with
  | some node => return node
  | none => throw (.fault .emptySlot)

def modifyNode (id : NodeId) (f : Node → Node) : Scan Unit := do
  let _ ← nodeAt id
  modify fun state => { state with arena := state.arena.modify id f }

def widen (id : NodeId) (span : Span) : Scan Unit :=
  modifyNode id fun node => { node with span := node.span.hull span }

def setShape (id : NodeId) (shape : Shape NodeId) : Scan Unit :=
  modifyNode id fun node => { node with shape }

def shapeOf (id : NodeId) : Scan (Shape NodeId) :=
  return (← nodeAt id).shape

def spanOf (id : NodeId) : Scan Span :=
  return (← nodeAt id).span

def spanOf? (id : Option NodeId) : Scan Span :=
  match id with
  | some id => spanOf id
  | none => pure Span.dummy

def spanOfAll (items : List NodeId) : Scan Span :=
  return Span.hullAll (← items.mapM spanOf)

def spanOfBoth (left right : NodeId) : Scan Span :=
  return (← spanOf left).hull (← spanOf right)

def sliceOf (span : Span) : Scan Bytes :=
  return (← get).input.slice span

def nameOf (symbol : Symbol) : Scan Bytes := do
  let symbols := (← get).symbols
  relyOn (symbol.index < symbols.size) .unknownSymbol
  return symbols.name symbol

def declare (name : Symbol) : Scan Unit :=
  modify fun state => { state with scopes := state.scopes.declare name }

def enterScope (kind : ScopeKind) : Scan Unit :=
  modify fun state => { state with scopes := state.scopes.push kind }

def leaveScope (body : Option NodeId) (span : Span) : Scan NodeId := do
  let (locals, scopes) := (← get).scopes.pop
  modify fun state => { state with scopes }
  alloc (.scope locals body) span

def enterConstruct : Scan Unit :=
  setLexer fun lexer => { lexer with openConstructs := lexer.openConstructs + 1 }

def leaveConstruct : Scan Unit :=
  setLexer fun lexer => { lexer with openConstructs := lexer.openConstructs - 1 }

def takeQuotedKey? : Scan (Option NodeId) :=
  modifyGet fun state => (state.quotedKey, { state with quotedKey := none })

def unexpected (token : Token) (expecting : Option String) : Scan Unit :=
  report token.span (.unexpected token.kind expecting)

def requireValue (id : NodeId) : Scan Unit := do
  if (← shapeOf id).isVoid then report (← spanOf id) .voidValue

def refuseBlock (block : Option NodeId) : Scan Unit := do
  match block with
  | some block => report (← spanOf block) .misplacedBlockArgument
  | none => pure ()

end Scan

namespace Parse

def descend (rule : Nonterminal) : Parse rule.Result :=
  fun table => table rule

def repeatUntil {σ α : Type} (first : σ) (step : σ → Parse (Turn σ α)) : Parse α :=
  fun table => Scan.repeatUntil first fun current => step current table

def deeper {α : Type} (position : Nat) (step : Parse α) : Parse α := do
  let state ← get
  if state.limits.maxDepth ≤ state.depth then
    Scan.fail (.nestingTooDeep state.limits.maxDepth position)
  modify fun state => { state with depth := state.depth + 1 }
  let result ← step
  modify fun state => { state with depth := state.depth - 1 }
  return result

def readTurn : Parse (Turn Unit Token) := do
  let token ← Scan.readToken
  if token.kind = .heredocBodies then
    descend .heredocBodies
    return .again ()
  else return .done token

/-- The next token, which stays. The bodies of heredocs are read on the way to
it. -/
def peekToken : Parse Token := do
  match (← get).lookahead with
  | some token => return token
  | none =>
      let token ← repeatUntil () fun _ => readTurn
      modify fun state => { state with lookahead := some token }
      return token

def take : Parse Token := do
  match (← get).lookahead with
  | none => throw (.fault .noToken)
  | some token =>
      modify fun state => { state with lookahead := none, previousStop := token.span.stop }
      return token

def skip : Parse Unit := do
  let _ ← take

def peekKind : Parse TokenKind :=
  return (← peekToken).kind

def accept? (kind : TokenKind) : Parse (Option Token) := do
  if (← peekKind) = kind then return some (← take) else return none

def accept (kind : TokenKind) : Parse Bool :=
  return (← accept? kind).isSome

def spanSince (start : Nat) : Parse Span :=
  return ⟨start, (← get).previousStop⟩

/-- Takes the next token if it is wanted. Otherwise it is reported, and passed
over unless the construct around may need it. -/
def expectWhere (wanted : TokenKind → Bool) (what : String) : Parse Span := do
  let token ← peekToken
  if wanted token.kind then
    skip
    return token.span
  else
    Scan.unexpected token (some what)
    if !token.kind.endsStatements && token.kind != .newline then skip
    return Span.point token.span.start

def expect (kind : TokenKind) : Parse Span :=
  expectWhere (· = kind) kind.describe

def expectEnd : Parse Span :=
  expect (.keyword .endWord)

def skipTurn (skipped : TokenKind → Bool) : Parse (Turn Unit Unit) := do
  if skipped (← peekKind) then
    skip
    return .again ()
  else return .done ()

def skipWhile (skipped : TokenKind → Bool) : Parse Unit :=
  repeatUntil () fun _ => skipTurn skipped

def skipNewlines : Parse Unit :=
  skipWhile (· = .newline)

def skipTerminators : Parse Unit :=
  skipWhile TokenKind.isTerminator

def separatorTurn (word : Keyword) (separated : Bool) : Parse (Turn Bool Unit) := do
  let token ← peekToken
  if token.kind.isTerminator then
    skip
    return .again true
  else if token.kind = .keyword word then
    skip
    return .done ()
  else
    if !separated then Scan.unexpected token (some (TokenKind.keyword word).describe)
    return .done ()

def skipSeparator (word : Keyword) : Parse Unit :=
  repeatUntil false (separatorTurn word)

def commaTurn (item : Parse NodeId) (breakable : Bool) (items : Array NodeId) :
    Parse (Turn (Array NodeId) (Array NodeId)) := do
  let items := items.push (← item)
  if ← accept (.punct .comma) then
    if breakable then skipNewlines
    return .again items
  else return .done items

/-- A list of items between commas. Line ends may follow a comma where
`breakable` allows it. -/
def commaList (item : Parse NodeId) (breakable : Bool) : Parse (List NodeId) := do
  return (← repeatUntil #[] (commaTurn item breakable)).toList

def sequence (items : List NodeId) (span : Span) : Parse (Option NodeId) := do
  match items with
  | [] => return none
  | [item] => return some item
  | items => return some (← Scan.alloc (.list .statements items) span)

end Parse

end RubySyntax
