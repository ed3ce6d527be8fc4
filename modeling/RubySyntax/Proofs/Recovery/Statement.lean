/-
The statement on a line.

An assignment is read as a whole. Of several numbers in a row the first one is the
statement, and the others are left over.
-/

import RubySyntax.Proofs.Reading.Level
import RubySyntax.Proofs.Recovery.Upcoming

namespace RubySyntax

/-! ### What comes next -/

namespace Upcoming

variable {upcoming later : Upcoming} {state : State} {token : Token}

def Names (upcoming : Upcoming) (state : State) (kind : TokenKind) : Prop :=
  upcoming.Announces
    (fun symbol name => state.symbols.Spells symbol (name.take state.limits.tokenMax)) kind

def Faces (upcoming : Upcoming) (state : State) : Prop :=
  match state.lookahead with
  | none => upcoming.Unread state.lexer state.input
  | some token => upcoming.Names state token.kind ∧
      ∀ later ∈ upcoming.next?, later.Unread state.lexer state.input

structure Ready (upcoming : Upcoming) (state : State) : Prop where
  faces : upcoming.Faces state
  free : state.arena.FreeSound
  unlabelled : state.quotedKey = none

theorem Ready.names (ready : upcoming.Ready state) (ahead : state.lookahead = some token) :
    upcoming.Names state token.kind := by
  have faces := ready.faces
  unfold Faces at faces
  rw [ahead] at faces
  exact faces.1

theorem Ready.taken (ready : upcoming.Ready state) (ahead : state.lookahead = some token)
    (next : upcoming.next? = some later) {stop : Nat} :
    later.Ready { state with lookahead := none, previousStop := stop } := by
  have faces := ready.faces
  unfold Faces at faces
  rw [ahead] at faces
  exact ⟨faces.2 later next, ready.free, ready.unlabelled⟩

theorem ends_of_names {more : List Line} {kind : TokenKind}
    (names : (numbers [] more).Names state kind) : kind = .newline ∨ kind = .endOfInput := by
  cases more with
  | cons line more => exact .inl names
  | nil => exact .inr names

theorem closes_of_names {others : List Nat} {more : List Line} {kind : TokenKind}
    (names : (numbers others more).Names state kind) : kind.closes = true := by
  cases others with
  | cons value others => exact names ▸ rfl
  | nil => rcases ends_of_names names with rfl | rfl <;> rfl

theorem opensOperand_of_line {line : Line} {more : List Line} {kind : TokenKind}
    (names : (wholeLine line more).Names state kind) : kind.opensOperand = true := by
  cases line with
  | assignment name value =>
      obtain ⟨symbol, rfl, -⟩ := names
      rfl
  | numbers first second others => exact names ▸ rfl

theorem opensOperand_of_assigned {value : Int} {more : List Line} {kind : TokenKind}
    (names : (assigned value more).Names state kind) : kind.opensOperand = true := by
  cases value with
  | ofNat value => exact names ▸ rfl
  | negSucc value => exact names ▸ rfl

theorem ne_heredocBodies {spells : Symbol → Bytes → Prop} {kind : TokenKind}
    (announced : upcoming.Announces spells kind) : kind ≠ .heredocBodies := by
  rintro rfl
  cases upcoming with
  | wholeLine line more =>
      cases line with
      | assignment name value =>
          obtain ⟨symbol, same, -⟩ := announced
          cases same
      | numbers first second others => cases announced
  | assign value more => cases announced
  | assigned value more => cases value <;> cases announced
  | digits value more => cases announced
  | numbers others more => cases others <;> cases more <;> cases announced

end Upcoming

namespace Parse

variable {table : RuleTable} {depth : Nat} {state : State} {upcoming later : Upcoming}
  {token : Token} {rule : CommandRule} {excused : Fatal → State → Prop}

theorem peekToken_upcoming (ready : upcoming.Ready state) :
    Yields table peekToken state (fun token after => after.lookahead = some token ∧
      upcoming.Ready after ∧ state.Gains 0 0 after) excused := by
  have faces := ready.faces
  unfold Upcoming.Faces at faces
  cases ahead : state.lookahead with
  | some token =>
      refine Yields.get_bind ?_
      rw [ahead]
      exact yields_pure ⟨ahead, ready, .refl state⟩
  | none =>
      rw [ahead] at faces
      have read : Scan.Yields Scan.nextToken state (fun token after =>
          token.kind ≠ .heredocBodies ∧ UpcomingRead upcoming state token after) excused :=
        (Scan.upcomingToken_yields faces).mono fun token after read =>
          ⟨Upcoming.ne_heredocBodies read.kind, read⟩
      refine (peekToken_reads ahead read).mono ?_
      rintro token _ ⟨_, ⟨kind, ⟨input, lexer, report, symbols, rfl⟩, grows, unread⟩, rfl⟩
      refine ⟨rfl, ⟨⟨kind, unread⟩, ready.free, ready.unlabelled⟩, ?_⟩
      exact ⟨⟨grows.nodes, grows.names, grows.errors⟩, rfl, rfl, rfl, rfl⟩

theorem peekKind_upcoming (ready : upcoming.Ready state) :
    Yields table peekKind state (fun kind after => ∃ token, kind = token.kind ∧
      after.lookahead = some token ∧ upcoming.Ready after ∧ state.Gains 0 0 after) excused := by
  refine (peekToken_upcoming ready).bind ?_
  intro token after seen
  exact yields_pure ⟨token, rfl, seen⟩

theorem Yields.take_upcoming {α : Type} {next : Token → Parse α} {post : α → State → Prop}
    (ready : upcoming.Ready state) (ahead : state.lookahead = some token)
    (rest : upcoming.next? = some later)
    (follow : ∀ after, later.Ready after → state.Gains 0 0 after →
      Yields table (next token) after post excused) :
    Yields table (take >>= next) state post excused :=
  Yields.take_bind ahead (follow _ (ready.taken ahead rest) (.of_same rfl rfl rfl rfl rfl))

theorem Yields.skip_upcoming {α : Type} {next : Unit → Parse α} {post : α → State → Prop}
    (ready : upcoming.Ready state) (ahead : state.lookahead = some token)
    (rest : upcoming.next? = some later)
    (follow : ∀ after, later.Ready after → state.Gains 0 0 after →
      Yields table (next ()) after post excused) :
    Yields table (skip >>= next) state post excused :=
  Yields.skip_bind ahead (follow _ (ready.taken ahead rest) (.of_same rfl rfl rfl rfl rfl))

end Parse

theorem Scan.alloc_upcoming {upcoming : Upcoming} {state : State} (ready : upcoming.Ready state)
    (room : state.Room 1) (shape : Shape NodeId) (span : Span) :
    Succeeds (alloc shape span) state fun id after =>
      after.lookahead = state.lookahead ∧ upcoming.Ready after ∧ state.Gains 1 0 after ∧
        after.arena.Shaped id shape := by
  refine (alloc_succeeds ready.free room shape span).mono ?_
  rintro id _ ⟨⟨arena, rfl⟩, -, stored, builds, free⟩
  exact ⟨rfl, ⟨ready.faces, free, ready.unlabelled⟩, builds.toGains, stored⟩

/-! ### Numbers -/

structure NumberRead (before : State) (value : Int) (others : List Nat) (more : List Line)
    (id : NodeId) (after : State) : Prop where
  stored : after.arena.Shaped id (.integer value)
  ready : (Upcoming.numbers others more).Ready after
  gains : before.Gains 1 0 after

theorem NumberRead.shallower {before state : State} {value : Int} {others : List Nat}
    {more : List Line} {id : NodeId}
    (read : NumberRead { before with depth := before.depth + 1 } value others more id state) :
    NumberRead before value others more id { state with depth := state.depth - 1 } where
  stored := read.stored
  ready := ⟨read.ready.faces, read.ready.free, read.ready.unlabelled⟩
  gains := read.gains.shallower

namespace Parse

variable {table : RuleTable} {depth : Nat} {state : State} {upcoming : Upcoming} {token : Token}
  {rule : CommandRule} {value : Int} {others : List Nat} {more : List Line}

theorem primary_integer (ready : upcoming.Ready state) (room : state.Room 1)
    (ahead : state.lookahead = some token) (kind : token.kind = .integer value)
    (next : upcoming.next? = some (.numbers others more)) :
    Succeeds table primary state fun operand after =>
      ∃ id, operand = .node id ∧ NumberRead state value others more id after := by
  obtain ⟨_, span⟩ := token
  subst kind
  refine Yields.peek_bind ahead (Yields.skip_upcoming ready ahead next ?_)
  intro taken rest moved
  refine Yields.lift_bind (Scan.alloc_upcoming rest (room.after moved) _ _) ?_
  rintro id after ⟨-, rest, gains, shaped⟩
  exact yields_pure ⟨id, rfl, shaped, rest, moved.trans gains⟩

theorem primary_negative {digits : Nat} (ready : (Upcoming.assigned (.negSucc digits) more).Ready state)
    (room : state.Room 1) (ahead : state.lookahead = some token) :
    Succeeds table primary state fun operand after =>
      ∃ id, operand = .node id ∧ NumberRead state (.negSucc digits) [] more id after := by
  obtain ⟨kind, span⟩ := token
  have same : kind = .punct .numberMinus := ready.names ahead
  subst same
  have number : Succeeds table negativeNumber state (NumberRead state (.negSucc digits) [] more) := by
    refine Yields.take_upcoming ready ahead rfl ?_
    intro signed ready moved
    refine (peekToken_upcoming ready).bind ?_
    rintro ⟨kind, mark⟩ peeked ⟨seen, ready, looked⟩
    have digit : kind = .integer (digits + 1 : Nat) := ready.names seen
    subst digit
    refine Yields.skip_upcoming ready seen rfl ?_
    intro taken rest passed
    have before := (moved.trans looked).trans passed
    refine yields_lift ((Scan.alloc_upcoming rest (room.after before) _ _).mono ?_)
    rintro id after ⟨-, rest, gains, shaped⟩
    exact ⟨shaped, rest, before.trans gains⟩
  refine Yields.peek_bind ahead (number.bind ?_)
  intro id after read
  exact yields_pure ⟨id, rfl, read⟩

theorem primary_assigned (ready : (Upcoming.assigned value more).Ready state) (room : state.Room 1)
    (ahead : state.lookahead = some token) :
    Succeeds table primary state fun operand after =>
      ∃ id, operand = .node id ∧ NumberRead state value [] more id after := by
  cases value with
  | ofNat digits => exact primary_integer ready room ahead (ready.names ahead) rfl
  | negSucc digits => exact primary_negative ready room ahead

theorem chain_number {before : State}
    (yields : Succeeds table primary state fun operand after =>
      ∃ id, operand = .node id ∧ NumberRead before value others more id after) :
    Succeeds table chain state (ClosedOperand (NumberRead before value others more)) := by
  apply chain_closed yields
  intro id current read
  refine (peekKind_upcoming read.ready).mono ?_
  rintro _ after ⟨token, rfl, seen, ready, gains⟩
  exact ⟨token, rfl, seen, Upcoming.closes_of_names (ready.names seen), ready.unlabelled,
    gains.shaped read.stored, ready, read.gains.trans gains⟩

theorem argument_number (opens : token.kind.opensOperand = true)
    (shallow : state.depth < state.limits.maxDepth) (ahead : state.lookahead = some token)
    (yields : ∀ depth, Succeeds (Parse.table depth) primary { state with depth := state.depth + 1 }
      fun operand after => ∃ id, operand = .node id ∧
        NumberRead { state with depth := state.depth + 1 } value others more id after) :
    Succeeds (Parse.table depth) (argumentOperand rule) state
      (ClosedOperand (NumberRead state value others more)) := by
  apply argumentOperand_closed ahead opens shallow
  refine (operand_closed fun depth => chain_number (yields depth)).mono ?_
  intro operand after closed
  exact closed.mono fun id read => read.shallower

/-! ### Assignments -/

theorem assignedValue_reads (ready : (Upcoming.assigned value more).Ready state)
    (room : state.Room 1) (shallow : state.depth < state.limits.maxDepth) :
    Succeeds (Parse.table depth) (assignedValue rule) state
      (Closed (NumberRead state value [] more)) := by
  apply assignedValue_closed fun peeked =>
    (Upcoming.assigned value more).Ready peeked ∧ state.Gains 0 0 peeked
  · refine (peekKind_upcoming ready).mono ?_
    rintro _ peeked ⟨token, rfl, seen, ready, looked⟩
    exact ⟨token, rfl, Upcoming.opensOperand_of_assigned (ready.names seen), seen, ready, looked⟩
  · intro id after read
    exact ⟨_, read.stored, rfl⟩
  · rintro depth token peeked seen opens ⟨ready, looked⟩
    have deep : peeked.depth < peeked.limits.maxDepth := by
      rw [looked.limits, looked.depth]
      exact shallow
    have deeper : (Upcoming.assigned value more).Ready { peeked with depth := peeked.depth + 1 } :=
      ⟨ready.faces, ready.free, ready.unlabelled⟩
    have roomy : peeked.Room 1 := room.after looked
    refine (argument_number opens deep seen fun _ => primary_assigned deeper roomy seen).mono ?_
    intro operand after closed
    exact closed.mono fun id read => ⟨read.stored, read.ready, looked.trans read.gains⟩

end Parse

/-! ### Lines -/

namespace Line

def nodes : Line → Nat
  | .assignment .. => 3
  | .numbers .. => 1

def rest : Line → List Line → Upcoming
  | .assignment .., more => .numbers [] more
  | .numbers _ second others, more => .numbers (second :: others) more

def Stored (tokenMax : Nat) (arena : Arena) (symbols : SymbolTable) : Line → NodeId → Prop
  | .assignment name value, id => ∃ target assigned symbol,
      arena.Shaped id (.binary .assign target assigned) ∧
        arena.Shaped target (.named .localVariable symbol) ∧
        arena.Shaped assigned (.integer value) ∧
        symbols.Spells symbol (name.text.take tokenMax)
  | .numbers first .., id => arena.Shaped id (.integer first)

end Line

structure LineRead (before : State) (line : Line) (more : List Line) (id : NodeId)
    (after : State) : Prop where
  stored : line.Stored before.limits.tokenMax after.arena after.symbols id
  ready : (line.rest more).Ready after
  gains : before.Gains line.nodes 0 after

theorem LineRead.shallower {before after : State} {line : Line} {more : List Line} {id : NodeId}
    (read : LineRead { before with depth := before.depth + 1 } line more id after) :
    LineRead before line more id { after with depth := after.depth - 1 } where
  stored := read.stored
  ready := ⟨read.ready.faces, read.ready.free, read.ready.unlabelled⟩
  gains := read.gains.shallower

namespace Parse

variable {depth : Nat} {state : State} {token : Token} {rule : CommandRule} {line : Line}
  {name : VariableName} {value : Int} {more : List Line}

theorem operand_assignment
    (ready : (Upcoming.wholeLine (.assignment name value) more).Ready state)
    (room : state.Room 3) (shallow : state.depth < state.limits.maxDepth)
    (ahead : state.lookahead = some token) :
    Succeeds (Parse.table depth) (operand rule) state
      (ClosedOperand (LineRead state (.assignment name value) more)) := by
  obtain ⟨kind, span⟩ := token
  obtain ⟨symbol, rfl, spelled⟩ := ready.names ahead
  let named (current : State) : Prop := (∃ mark, current.lookahead = some ⟨.punct .assign, mark⟩) ∧
    (Upcoming.assign value more).Ready current ∧ state.Gains 0 0 current
  let valued (target assigned : NodeId) (current : State) : Prop :=
    current.arena.Shaped target (.named .localVariable symbol) ∧
      current.arena.Shaped assigned (.integer value) ∧
      (Upcoming.numbers [] more).Ready current ∧ state.Gains 2 0 current
  apply operand_assigns named valued ahead
  · intro table
    refine (peekKind_upcoming (ready.taken ahead rfl)).mono ?_
    rintro kind after ⟨⟨_, mark⟩, rfl, seen, ready, gains⟩
    have same : kind = .punct .assign := ready.names seen
    subst same
    have passed : state.Gains 0 0 { state with lookahead := none, previousStop := span.stop } :=
      .of_same rfl rfl rfl rfl rfl
    have moved : state.Gains 0 0 after := passed.trans gains
    have roomy : after.Room 3 := room.after moved
    exact ⟨rfl, ⟨mark, seen⟩, ready.free, roomy.of_le (by decide), ⟨mark, seen⟩, ready, moved⟩
  · rintro current stop scopes target after ⟨⟨mark, seen⟩, ready, moved⟩ stores
    have passed : current.Gains 0 0 { current with lookahead := none, previousStop := stop, scopes } :=
      .of_same rfl rfl rfl rfl rfl
    have gains : state.Gains 1 0 after := moved.trans (passed.trans stores.builds.toGains)
    have roomy : after.Room 2 := room.after gains
    have deep : after.depth < after.limits.maxDepth := by
      rw [gains.depth, gains.limits]
      exact shallow
    have rest : (Upcoming.assigned value more).Ready after := by
      obtain ⟨⟨arena, rfl⟩, -, -, -, free⟩ := stores
      have next : (Upcoming.assigned value more).Ready
          { current with lookahead := none, previousStop := stop } := ready.taken seen rfl
      exact ⟨next.faces, free, next.unlabelled⟩
    refine (assignedValue_reads rest (roomy.of_le (by decide)) deep).mono ?_
    rintro assigned valued ⟨read, unlabelled, following⟩
    have left : valued.Room 1 := roomy.after read.gains
    exact ⟨⟨read.ready.free, left, read.gains.shaped stores.stored, read.stored, read.ready,
      gains.trans read.gains⟩, unlabelled, following⟩
  · rintro target assigned current id after ⟨named, given, ready, gains⟩ stores
    have built := stores.builds.toGains
    have whole : state.Gains 3 0 after := gains.trans built
    obtain ⟨⟨arena, rfl⟩, -, joined, -, free⟩ := stores
    exact ⟨⟨target, assigned, symbol, joined, built.shaped named, built.shaped given,
      whole.spells spelled⟩, ⟨ready.faces, free, ready.unlabelled⟩, whole⟩

theorem argument_line (ready : (Upcoming.wholeLine line more).Ready state)
    (room : state.Room line.nodes) (shallow : state.depth + 2 ≤ state.limits.maxDepth)
    (ahead : state.lookahead = some token) :
    Succeeds (Parse.table depth) (argumentOperand rule) state
      (ClosedOperand (LineRead state line more)) := by
  have opens := Upcoming.opensOperand_of_line (ready.names ahead)
  have deeper : (Upcoming.wholeLine line more).Ready { state with depth := state.depth + 1 } :=
    ⟨ready.faces, ready.free, ready.unlabelled⟩
  have inside : state.depth < state.limits.maxDepth := Nat.lt_of_succ_lt shallow
  cases line with
  | assignment name value =>
      apply argumentOperand_closed ahead opens inside
      refine (operand_assignment deeper room shallow ahead).mono ?_
      intro operand after closed
      exact closed.mono fun id read => read.shallower
  | numbers first second others =>
      have number : Succeeds (Parse.table depth) (argumentOperand rule) state
          (ClosedOperand (NumberRead state first (second :: others) more)) :=
        argument_number opens inside ahead fun _ =>
          primary_integer deeper room ahead (ready.names ahead) rfl
      refine number.mono ?_
      intro operand after closed
      exact closed.mono fun id read => ⟨read.stored, read.ready, read.gains⟩

theorem statement_line (ready : (Upcoming.wholeLine line more).Ready state)
    (room : state.Room line.nodes) (shallow : state.depth + 2 ≤ state.limits.maxDepth)
    (ahead : state.lookahead = some token) :
    Succeeds (Parse.table depth) statement state (Closed (LineRead state line more)) := by
  have opens := Upcoming.opensOperand_of_line (ready.names ahead)
  apply statement_closed ahead opens
  intro depth
  exact negation_closed ahead opens fun _ => argument_line ready room shallow ahead

end Parse

end RubySyntax
