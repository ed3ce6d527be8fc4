/-
Parsing a program.

A parse gives a tree unless a fatal error ends it. All other problems are
reported, and placeholders stand in the tree where something is missing.
-/

import RubySyntax.Grammar.Rules
import RubySyntax.Tree.Dump

namespace RubySyntax

structure ParseOptions where
  fileName : Option String := none
  line : Nat := 1
  /-- Local variables that are known from the start. -/
  locals : List Symbol := []
  mode : ReportMode := .capture 10 10
  maxDepth : Nat := 32
  maxNodes : Nat := 1 <<< 22
  tokenMax : Nat := 65536
  answers : List (Option Chunk) := []
deriving DecidableEq, Repr, Inhabited

structure Parsed where
  /-- The scope of the program; nothing after a fatal error. -/
  tree : Option NodeId
  arena : Arena
  /-- The names of the innermost scope that was open at the end. -/
  locals : List Symbol
  report : Report
  fatal : Option Fatal
  symbols : SymbolTable
  requests : Nat
deriving DecidableEq, Repr, Inhabited

namespace Parsed

def isOk (parsed : Parsed) : Bool :=
  parsed.tree.isSome && parsed.report.errors == 0

def dumpAt (parsed : Parsed) (id : NodeId) : Except DumpError String :=
  parsed.arena.dump parsed.symbols id

def nodeAt? (parsed : Parsed) (position : Nat) : Option NodeId :=
  parsed.tree.bind fun _ => parsed.arena.nodeAt? position

def ofState (state : State) (tree : Option NodeId) (fatal : Option Fatal) : Parsed :=
  { tree
    arena := state.arena
    locals := state.scopes.locals
    report := state.report
    fatal
    symbols := state.symbols
    requests := state.input.requests }

/-- The result of a parse that a fatal error ended. The error is reported at
its own place, or where the input was being read. -/
def ofFatal (state : State) (error : Fatal) : Parsed :=
  let place := Span.point (error.position?.getD state.input.position)
  ofState { state with report := state.report.add place (.fatal error) } none (some error)

end Parsed

namespace State

def start (source : Bytes) (options : ParseOptions) (symbols : SymbolTable) : State :=
  let input := Input.ofBytes source options.answers
  let map := ({} : SourceMap).addChunk 0 source options.fileName options.line
  { input
    report := { mode := options.mode, map }
    symbols
    scopes := options.locals.foldl ScopeStack.declare {}
    arena := Arena.withLimit options.maxNodes
    limits :=
      { maxDepth := options.maxDepth
        tokenMax := options.tokenMax
        turns := 4 * input.unread + 128 } }

end State

/-- How deep rules may call each other. On a path of calls fewer than sixteen
come in a row without a byte being read. -/
def ruleDepth (input : Input) : Nat :=
  16 * input.unread + 256

def runProgram (source : Bytes) (options : ParseOptions) (symbols : SymbolTable) :
    EStateM.Result Halt State NodeId :=
  let state := State.start source options symbols
  Parse.program (Parse.table (ruleDepth state.input)) state

def parse (source : Bytes) (options : ParseOptions) (symbols : SymbolTable) : Parsed :=
  match runProgram source options symbols with
  | .ok tree state => Parsed.ofState state (some tree) none
  | .error (.fatal error) state => Parsed.ofFatal state error
  | .error _ state => Parsed.ofState state none none

end RubySyntax
