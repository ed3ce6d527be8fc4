/-
The state of a parse and the steps that change it.

A step either gives a value or halts, and keeps the state reached in both
cases. Every loop of the parser has a bound on its turns that is fixed by the
size of the whole input before the parse starts.
-/

import RubySyntax.BitStack
import RubySyntax.Lexer.Mode
import RubySyntax.Report.Basic
import RubySyntax.Scope
import RubySyntax.Source.Input
import RubySyntax.Tree.Arena

namespace RubySyntax

structure Quotation where
  kind : LiteralKind
  interpolates : Bool
  opening : Option Byte := none
  closing : Byte
  nesting : Nat := 0
  /-- A colon after the closing quote makes it a label. -/
  labelAllowed : Bool := false
  percent : Bool := false
  start : Nat
  wordStarted : Bool := false
deriving DecidableEq, Repr, Inhabited

structure Heredoc where
  delimiter : Bytes
  indented : Bool
  /-- The common indentation of the body is removed. -/
  dedented : Bool
  quote : Option Char
  start : Nat
deriving DecidableEq, Repr, Inhabited

namespace Heredoc

def interpolates (heredoc : Heredoc) : Bool :=
  heredoc.quote != some '\''

def kind (heredoc : Heredoc) : LiteralKind :=
  if heredoc.quote == some (Char.ofNat 0x60) then .shell else .string

end Heredoc

structure PendingHeredoc where
  heredoc : Heredoc
  node : Option NodeId := none
deriving DecidableEq, Repr, Inhabited

inductive OpenLiteral where
  | quotation (literal : Quotation)
  /-- `lineHead` says that a line of the body starts here. -/
  | heredocBody (heredoc : Heredoc) (lineHead : Bool)
deriving DecidableEq, Repr, Inhabited

/-- What is put aside at `#{` and taken up again at its `}`. -/
structure LexerContext where
  literal : Option OpenLiteral
  mode : Mode
  statementStart : Bool
  loopFlags : BitStack
  commandFlags : BitStack
  brackets : Nat
deriving DecidableEq, Repr, Inhabited

structure LexerState where
  ended : Bool := false
  mode : Mode := .begin
  statementStart : Bool := true
  /-- Whether `do` belongs to a loop. -/
  loopFlags : BitStack := {}
  /-- Whether `do` belongs to a command call. -/
  commandFlags : BitStack := {}
  brackets : Nat := 0
  /-- How many constructs with an `end` or a closing brace are open. -/
  openConstructs : Nat := 0
  literal : Option OpenLiteral := none
  /-- The `#` before an interpolated variable has been read. -/
  variablePending : Bool := false
  afterArrow : Bool := false
  heredocs : List PendingHeredoc := []
  /-- The line of the openers has ended; the bodies come next. -/
  heredocsDue : Bool := false
  contexts : List LexerContext := []
deriving DecidableEq, Repr, Inhabited

structure Limits where
  maxDepth : Nat
  tokenMax : Nat
  /-- No loop takes more turns than this. -/
  turns : Nat
deriving DecidableEq, Repr, Inhabited

structure State where
  input : Input
  lexer : LexerState := {}
  report : Report
  symbols : SymbolTable
  scopes : ScopeStack := {}
  arena : Arena
  /-- The tokens read so far, the last one first. No step depends on them; they
  are what the laws about whole runs speak of. -/
  tokens : List Token := []
  /-- The token that has been read but not taken. -/
  lookahead : Option Token := none
  /-- Where the token taken last ended. -/
  previousStop : Nat := 0
  depth : Nat := 0
  /-- The key of a quoted label that was just read as an operand. -/
  quotedKey : Option NodeId := none
  limits : Limits
deriving DecidableEq, Repr, Inhabited

/-- What the parser takes for granted, and where it would break off if that
failed. -/
inductive Fault where
  /-- A token is taken before one has been read. -/
  | noToken
  /-- A slot that holds no node is looked into. -/
  | emptySlot
  /-- Bytes, lines or files are asked for beyond their end. -/
  | outOfRange
  /-- The name of a symbol is asked for that was never issued. -/
  | unknownSymbol
  /-- A token is read as a variable but is none. -/
  | noVariable
deriving DecidableEq, Repr, Inhabited

inductive Halt where
  | fatal (error : Fatal)
  /-- A bound on turns or on depth was used up. -/
  | starved
  | fault (fault : Fault)
deriving DecidableEq, Repr, Inhabited

abbrev Scan := EStateM Halt State

inductive Turn (σ α : Type) where
  | again (next : σ)
  | done (result : α)

def iterate {σ α : Type} (step : σ → Scan (Turn σ α)) : Nat → σ → Scan α
  | 0, _ => throw .starved
  | turns + 1, current => fun state =>
      match step current state with
      | .ok (.done result) state => .ok result state
      | .ok (.again next) state => iterate step turns next state
      | .error halt state => .error halt state

namespace Scan

def repeatUntil {σ α : Type} (first : σ) (step : σ → Scan (Turn σ α)) : Scan α := do
  iterate step (← get).limits.turns first

def fail {α : Type} (error : Fatal) : Scan α :=
  throw (.fatal error)

def relyOn (holds : Bool) (fault : Fault) : Scan Unit :=
  if holds then pure () else throw (.fault fault)

def checkRange (start stop : Nat) : Scan Unit := do
  relyOn ((← get).input.covers ⟨start, stop⟩) .outOfRange

def checkByte (position : Nat) : Scan Unit :=
  checkRange position (position + 1)

def report (span : Span) (problem : Problem) : Scan Unit := do
  relyOn ((← get).report.map.canLocate span.start) .outOfRange
  modify fun state => { state with report := state.report.add span problem }

def intern (name : Bytes) : Scan Symbol :=
  modifyGet fun state =>
    let (symbol, symbols) := state.symbols.intern name
    (symbol, { state with symbols })

def setLexer (f : LexerState → LexerState) : Scan Unit :=
  modify fun state => { state with lexer := f state.lexer }

def setMode (mode : Mode) : Scan Unit :=
  setLexer fun lexer => { lexer with mode }

def position : Scan Nat :=
  return (← get).input.position

def peek : Scan Char :=
  return (← get).input.peek

def advance (distance : Nat) : Scan Unit :=
  modify fun state => { state with input := state.input.advance distance }

def fetchMore : Scan Bool := do
  relyOn (← get).report.map.knowsFile .outOfRange
  modifyGet fun state =>
    let asked := state.input.ask
    match state.input.answers.head?.join with
    | none => (false, { state with input := asked })
    | some chunk =>
        if chunk.bytes.isEmpty then (false, { state with input := asked })
        else
          let map := state.report.map.addChunk asked.bytes.size chunk.bytes chunk.fileName 1
          (true,
            { state with
              input := asked.append chunk.bytes
              report := { state.report with map } })

def hasMore : Scan Bool := do
  if (← get).input.atEnd then fetchMore else return true

def token (kind : TokenKind) (start : Nat) : Scan Token :=
  return ⟨kind, ⟨start, ← position⟩⟩

end Scan

end RubySyntax
