/-
What holds of a state whenever a token is read, and what reading does to it.

The lexer never touches the nodes. It moves on in the input, and what is left
to be read goes down with every token, apart from the end of the input and the
marker before the bodies of heredocs.
-/

import Mathlib.Algebra.Ring.Nat
import RubySyntax.Proofs.Outcome

namespace RubySyntax

/-! ### What is left to be read -/

/-- One for a heredoc body at the head of a line: a token of no width may come
there, after which the line goes on. -/
def OpenLiteral.headWeight : Option OpenLiteral → Nat
  | some (.heredocBody _ true) => 1
  | _ => 0

/-- How many tokens of no width the lexer may give before bytes are read. -/
def LexerState.weight (lexer : LexerState) : Nat :=
  2 * lexer.heredocs.length + (if lexer.heredocsDue then 1 else 0) +
    OpenLiteral.headWeight lexer.literal +
    (lexer.contexts.map fun context => OpenLiteral.headWeight context.literal).sum

def State.remaining (state : State) : Nat :=
  2 * state.input.unread + state.lexer.weight

def LexerState.awaited (lexer : LexerState) : List NodeId :=
  lexer.heredocs.filterMap (·.node)

def SymbolTable.Knows (table : SymbolTable) (name : Symbol) : Prop :=
  name.index < table.size

def TokenKind.names : TokenKind → List Symbol
  | .identifier name | .constant name | .methodName name | .label name | .symbol name
  | .instanceVariable name | .classVariable name | .globalVariable name
  | .operatorAssign name => [name]
  | _ => []

def TokenKind.Plain (kind : TokenKind) : Prop :=
  kind ≠ .heredocBodies ∧ kind ≠ .variableInterpolation

/-! ### Literals that are open -/

def OpenLiteral.quotation? : Option OpenLiteral → Option Quotation
  | some (.quotation literal) => some literal
  | _ => none

def LexerState.quotations (lexer : LexerState) : List Quotation :=
  (lexer.literal :: lexer.contexts.map LexerContext.literal).filterMap OpenLiteral.quotation?

class LexerState.Narrows (f : LexerState → LexerState) : Prop where
  quotations : ∀ lexer, (f lexer).quotations ⊆ lexer.quotations

namespace LexerState

theorem mem_quotations {lexer : LexerState} {literal : Quotation} :
    literal ∈ lexer.quotations ↔ some (.quotation literal) ∈
      lexer.literal :: lexer.contexts.map LexerContext.literal := by
  unfold quotations
  rw [List.mem_filterMap]
  constructor
  · rintro ⟨listed, member, found⟩
    unfold OpenLiteral.quotation? at found
    split at found
    · cases found
      exact member
    · cases found
  · exact fun member => ⟨_, member, rfl⟩

instance {ended statementStart variablePending afterArrow heredocsDue : LexerState → Bool}
    {mode : LexerState → Mode} {loopFlags commandFlags : LexerState → BitStack}
    {brackets openConstructs : LexerState → Nat} {heredocs : LexerState → List PendingHeredoc} :
    Narrows fun lexer =>
      { ended := ended lexer
        mode := mode lexer
        statementStart := statementStart lexer
        loopFlags := loopFlags lexer
        commandFlags := commandFlags lexer
        brackets := brackets lexer
        openConstructs := openConstructs lexer
        literal := lexer.literal
        variablePending := variablePending lexer
        afterArrow := afterArrow lexer
        heredocs := heredocs lexer
        heredocsDue := heredocsDue lexer
        contexts := lexer.contexts } :=
  ⟨fun lexer => List.Subset.refl lexer.quotations⟩

theorem Narrows.replace {f : LexerState → LexerState} {literal : Option OpenLiteral}
    (plain : OpenLiteral.quotation? literal = none) (put : ∀ lexer, (f lexer).literal = literal)
    (contexts : ∀ lexer, (f lexer).contexts = lexer.contexts) : Narrows f where
  quotations lexer other member := by
    rw [mem_quotations, put, contexts, List.mem_cons] at member
    rw [mem_quotations]
    rcases member with opened | aside
    · rw [← opened] at plain
      cases plain
    · exact List.mem_cons_of_mem _ aside

end LexerState

/-! ### Invariants of reading -/

/-- The unread bytes are those after the position, which may lie one byte
beyond the end. -/
structure Input.Sound (input : Input) : Prop where
  rest : input.rest = input.bytes.toList.drop input.position
  position : input.position ≤ input.bytes.size + 1

def VariableAhead (rest : Bytes) : Prop :=
  ∃ mark after, rest = mark :: after ∧ (mark.char = '$' ∨ mark.char = '@')

structure State.Reads (state : State) : Prop where
  input : state.input.Sound
  map : state.report.map.Sound
  pendingVariable : state.lexer.variablePending = true →
    state.lexer.literal.isSome = true ∧ VariableAhead state.input.rest
  /-- Only texts without options can run past the end. -/
  regexp : ∀ literal, state.lexer.literal = some (.quotation literal) →
    literal.kind = .regexp → state.input.position ≤ state.input.bytes.size
  turns : state.remaining + 65 ≤ state.limits.turns

structure State.Lexing (state : State) : Prop extends state.Reads where
  idle : state.lexer.variablePending = false

structure Carried (before after : State) : Prop where
  arena : after.arena = before.arena
  quotedKey : after.quotedKey = before.quotedKey
  lookahead : after.lookahead = before.lookahead
  limits : after.limits = before.limits
  tokens : before.tokens.length ≤ after.tokens.length
  names : before.symbols.size ≤ after.symbols.size
  awaited : after.lexer.awaited = before.lexer.awaited
  remaining : after.remaining ≤ before.remaining

structure Lexed (before after : State) : Prop extends Carried before after where
  lexing : after.Lexing

structure Gives (before : State) (token : Token) (after : State) : Prop
    extends Lexed before after where
  known : ∀ name ∈ token.kind.names, after.symbols.Knows name
  progress : token.kind = .endOfInput ∨ after.remaining < before.remaining
  plain : token.kind.Plain

structure Next (before : State) (token : Token) (after : State) : Prop
    extends Carried before after where
  reads : after.Reads
  known : ∀ name ∈ token.kind.names, after.symbols.Knows name
  progress : token.kind = .endOfInput ∨ token.kind = .heredocBodies ∨
    after.remaining < before.remaining
  due : token.kind = .heredocBodies → after.lexer.heredocsDue = true
  pending : token.kind = .variableInterpolation → after.lexer.variablePending = true

theorem Gives.next {before after : State} {token : Token} (gives : Gives before token after) :
    Next before token after where
  toCarried := gives.toCarried
  reads := gives.lexing.toReads
  known := gives.known
  progress := gives.progress.imp_right .inr
  due marker := absurd marker gives.plain.1
  pending variableNext := absurd variableNext gives.plain.2

structure Silent (before after : State) : Prop where
  input : after.input = before.input
  lexer : after.lexer = before.lexer
  map : after.report.map = before.report.map
  arena : after.arena = before.arena
  quotedKey : after.quotedKey = before.quotedKey
  lookahead : after.lookahead = before.lookahead
  limits : after.limits = before.limits
  tokens : after.tokens = before.tokens
  names : before.symbols.size ≤ after.symbols.size

namespace Silent

variable {before middle after : State}

theorem refl (state : State) : Silent state state :=
  ⟨rfl, rfl, rfl, rfl, rfl, rfl, rfl, rfl, Nat.le_refl _⟩

theorem trans (first : Silent before middle) (second : Silent middle after) :
    Silent before after where
  input := second.input.trans first.input
  lexer := second.lexer.trans first.lexer
  map := second.map.trans first.map
  arena := second.arena.trans first.arena
  quotedKey := second.quotedKey.trans first.quotedKey
  lookahead := second.lookahead.trans first.lookahead
  limits := second.limits.trans first.limits
  tokens := second.tokens.trans first.tokens
  names := Nat.le_trans first.names second.names

theorem remaining (silent : Silent before after) : after.remaining = before.remaining := by
  unfold State.remaining
  rw [silent.input, silent.lexer]

theorem reads (silent : Silent before after) (reads : before.Reads) : after.Reads where
  input := silent.input ▸ reads.input
  map := silent.map ▸ reads.map
  pendingVariable := by
    rw [silent.lexer, silent.input]
    exact reads.pendingVariable
  regexp := by
    rw [silent.lexer, silent.input]
    exact reads.regexp
  turns := by
    rw [silent.remaining, silent.limits]
    exact reads.turns

theorem lexing (silent : Silent before after) (lexing : before.Lexing) : after.Lexing where
  toReads := silent.reads lexing.toReads
  idle := by
    rw [silent.lexer]
    exact lexing.idle

theorem lexed (silent : Silent before after) (lexing : before.Lexing) :
    Lexed before after where
  lexing := silent.lexing lexing
  arena := silent.arena
  quotedKey := silent.quotedKey
  lookahead := silent.lookahead
  limits := silent.limits
  tokens := Nat.le_of_eq (congrArg List.length silent.tokens.symm)
  names := silent.names
  awaited := by rw [silent.lexer]
  remaining := Nat.le_of_eq silent.remaining

end Silent

theorem Carried.trans {before middle after : State} (first : Carried before middle)
    (second : Carried middle after) : Carried before after where
  arena := second.arena.trans first.arena
  quotedKey := second.quotedKey.trans first.quotedKey
  lookahead := second.lookahead.trans first.lookahead
  limits := second.limits.trans first.limits
  tokens := Nat.le_trans first.tokens second.tokens
  names := Nat.le_trans first.names second.names
  awaited := second.awaited.trans first.awaited
  remaining := Nat.le_trans second.remaining first.remaining

namespace Lexed

variable {before middle after : State}

theorem refl {state : State} (lexing : state.Lexing) : Lexed state state :=
  (Silent.refl state).lexed lexing

theorem trans (first : Lexed before middle) (second : Lexed middle after) :
    Lexed before after where
  toCarried := first.toCarried.trans second.toCarried
  lexing := second.lexing

theorem silent (first : Lexed before middle) (second : Silent middle after) :
    Lexed before after :=
  first.trans (second.lexed first.lexing)

end Lexed

theorem Gives.after {before middle after : State} {token : Token}
    (lexed : Lexed before middle) (gives : Gives middle token after) :
    Gives before token after where
  toLexed := lexed.trans gives.toLexed
  known := gives.known
  progress := gives.progress.imp_right fun less =>
    Nat.lt_of_lt_of_le less lexed.remaining
  plain := gives.plain

theorem Gives.silent {before middle after : State} {token : Token}
    (gives : Gives before token middle) (silent : Silent middle after) :
    Gives before token after where
  toLexed := gives.toLexed.silent silent
  known name member := Nat.lt_of_lt_of_le (gives.known name member) silent.names
  progress := by
    rw [silent.remaining]
    exact gives.progress
  plain := gives.plain

theorem Next.after {before middle after : State} {token : Token} (lexed : Lexed before middle)
    (next : Next middle token after) : Next before token after where
  toCarried := lexed.toCarried.trans next.toCarried
  reads := next.reads
  known := next.known
  progress := next.progress.imp_right fun later =>
    later.imp_right fun less => Nat.lt_of_lt_of_le less lexed.remaining
  due := next.due
  pending := next.pending

/-! ### The input -/

namespace Input

variable {input : Input}

theorem Sound.size (sound : input.Sound) :
    input.rest.length = input.bytes.size - input.position := by
  rw [sound.rest, List.length_drop, Array.length_toList]

theorem Sound.inside (sound : input.Sound) {length : Nat} (some : 0 < input.rest.length)
    (enough : length ≤ input.rest.length) :
    input.position + length ≤ input.bytes.size := by
  have size := sound.size
  omega

theorem Sound.advance (sound : input.Sound) {distance : Nat}
    (enough : distance ≤ input.rest.length) : (input.advance distance).Sound where
  rest := by
    change input.rest.drop distance = input.bytes.toList.drop (input.position + distance)
    rw [sound.rest, List.drop_drop]
  position := by
    change input.position + distance ≤ input.bytes.size + 1
    have size := sound.size
    have inRange := sound.position
    omega

/-- At the end the position may pass the end by one byte. -/
theorem Sound.advance_past (sound : input.Sound) {distance : Nat}
    (within : input.position ≤ input.bytes.size)
    (enough : distance ≤ input.rest.length + 1) : (input.advance distance).Sound where
  rest := by
    change input.rest.drop distance = input.bytes.toList.drop (input.position + distance)
    rw [sound.rest, List.drop_drop]
  position := by
    change input.position + distance ≤ input.bytes.size + 1
    have size := sound.size
    omega

theorem unread_advance (input : Input) (distance : Nat) :
    (input.advance distance).unread + min distance input.rest.length = input.unread := by
  unfold unread
  change (input.rest.drop distance).length + _ + _ = _
  rw [List.length_drop]
  change input.rest.length - distance +
    input.answers.foldr (fun answer later => 1 + (answer.map (·.bytes.length)).getD 0 + later) 0 +
      _ = _
  omega

theorem covers_of_le {start stop : Nat} (ordered : start ≤ stop)
    (inside : stop ≤ input.bytes.size) : input.covers ⟨start, stop⟩ = true := by
  simp [covers, ordered, inside]

end Input

/-! ### The map of the source -/

namespace SourceMap

variable {map : SourceMap}

theorem Sound.canLocate (sound : map.Sound) (position : Nat) :
    map.canLocate position = true := by
  unfold SourceMap.canLocate lineIndex?
  cases found : map.segments[map.segments.countP (·.offset ≤ position) - 1]? with
  | none => rfl
  | some segment =>
      have line := sound.line segment (Array.mem_of_getElem? found)
      have counted : map.lineStarts.countP (· ≤ position) ≤ map.lineStarts.size :=
        Array.countP_le_size
      simp only [Option.map_some, Option.all_some, decide_eq_true_eq]
      omega

theorem Sound.knowsFile (sound : map.Sound) : map.knowsFile = true := by
  unfold SourceMap.knowsFile
  cases found : map.segments.back? with
  | none => rfl
  | some segment =>
      have file := sound.file segment (Array.mem_of_back? found)
      simpa using file

theorem Sound.addSegment (sound : map.Sound) (offset : Nat) (name : String) (line : Nat) :
    (map.addSegment offset name line).Sound := by
  unfold SourceMap.addSegment addFile
  split
  · next index renamed pair =>
      split at pair
      · next found =>
          obtain ⟨rfl, rfl⟩ := Prod.mk.inj pair
          obtain ⟨inside, -⟩ := Array.findIdx?_eq_some_iff_getElem.mp found
          constructor
          · intro segment member
            rcases Array.mem_push.mp member with old | rfl
            · have before := sound.line segment old
              simp only [Array.size_push]
              omega
            · simp
          · intro segment member
            rcases Array.mem_push.mp member with old | rfl
            · exact sound.file segment old
            · exact inside
      · obtain ⟨rfl, rfl⟩ := Prod.mk.inj pair
        constructor
        · intro segment member
          rcases Array.mem_push.mp member with old | rfl
          · have before := sound.line segment old
            simp only [Array.size_push]
            omega
          · simp
        · intro segment member
          rcases Array.mem_push.mp member with old | rfl
          · have before := sound.file segment old
            simp only [Array.size_push]
            omega
          · simp

theorem Sound.addChunk (sound : map.Sound) (offset : Nat) (bytes : Bytes)
    (name : Option String) (line : Nat) : (map.addChunk offset bytes name line).Sound := by
  have placed : (if map.continues name then map.continueFile offset
      else map.addSegment offset (name.getD unnamed) line).Sound := by
    split
    · unfold continueFile
      split
      · exact sound
      · refine ⟨fun segment member => ?_, sound.file⟩
        have before := sound.line segment member
        simp only [Array.size_push]
        omega
    · exact sound.addSegment offset _ line
  refine ⟨fun segment member => ?_, placed.file⟩
  have before := placed.line segment member
  refine Nat.lt_of_lt_of_le before ?_
  simp [SourceMap.addChunk, ← Array.length_toList]

end SourceMap

end RubySyntax
