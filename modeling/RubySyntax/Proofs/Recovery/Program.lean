/-
A program with a statement on each line, some of them broken.

A broken line is reported once and left at its end, so the lines after it are read
as they would be alone.
-/

import RubySyntax.Proofs.Reading.Program
import RubySyntax.Proofs.Recovery.Statement

namespace RubySyntax

/-! ### Lines that have been read -/

def linesNodes (lines : List Line) : Nat :=
  (lines.map Line.nodes).sum

theorem linesNodes_cons (line : Line) (more : List Line) :
    linesNodes (line :: more) = line.nodes + linesNodes more := by
  simp [linesNodes]

theorem linesNodes_append (lines more : List Line) :
    linesNodes (lines ++ more) = linesNodes lines + linesNodes more := by
  simp [linesNodes]

theorem linesNodes_le (lines : List Line) : linesNodes lines ≤ 3 * lines.length := by
  induction lines with
  | nil => exact Nat.le_refl 0
  | cons line more ih =>
      have one : line.nodes ≤ 3 := by cases line <;> simp [Line.nodes]
      rw [linesNodes_cons, List.length_cons]
      omega

/-- What is left of a program between two statements: the next line, perhaps after the
end of the line before it. -/
def BetweenLines (left : List Line) (state : State) : Prop :=
  (Upcoming.start left).Ready state ∨ (Upcoming.numbers [] left).Ready state

structure LinesRead (before : State) (lines : List Line) (items : List NodeId)
    (after : State) : Prop where
  stored : lines.Forall₂ (·.Stored before.limits.tokenMax after.arena after.symbols ·) items
  gains : before.Gains (linesNodes lines) (lines.countP Line.isBroken) after

theorem Line.Stored.kept {line : Line} {tokenMax nodes errors : Nat} {id : NodeId}
    {before after : State} (gains : before.Gains nodes errors after)
    (stored : line.Stored tokenMax before.arena before.symbols id) :
    line.Stored tokenMax after.arena after.symbols id := by
  cases line with
  | assignment name value =>
      obtain ⟨target, assigned, symbol, joined, named, given, spelled⟩ := stored
      exact ⟨target, assigned, symbol, gains.shaped joined, gains.shaped named,
        gains.shaped given, gains.spells spelled⟩
  | numbers first second more => exact gains.shaped stored

namespace LinesRead

variable {before state after : State} {lines : List Line} {items : List NodeId} {line : Line}
  {id : NodeId}

theorem later (read : LinesRead before lines items state) (gains : state.Gains 0 0 after) :
    LinesRead before lines items after where
  stored := read.stored.imp fun _ _ stored => stored.kept gains
  gains := read.gains.trans gains

theorem append (read : LinesRead before lines items state)
    (stored : line.Stored state.limits.tokenMax after.arena after.symbols id)
    (gains : state.Gains line.nodes (if line.isBroken then 1 else 0) after) :
    LinesRead before (lines ++ [line]) (items ++ [id]) after where
  stored := by
    rw [read.gains.limits] at stored
    exact List.rel_append (read.stored.imp fun _ _ stored => stored.kept gains)
      (.cons stored .nil)
  gains := by
    have nodes : linesNodes (lines ++ [line]) = linesNodes lines + line.nodes := by
      rw [linesNodes_append, linesNodes_cons]
      rfl
    rw [nodes, List.countP_append, List.countP_singleton]
    exact read.gains.trans gains

end LinesRead

theorem Scan.unexpected_upcoming {upcoming : Upcoming} {state : State} {token : Token}
    {expecting : Option String} (ready : upcoming.Ready state) :
    Succeeds (unexpected token expecting) state fun _ after =>
      upcoming.Ready after ∧ state.Gains 0 1 after := by
  refine (report_yields token.span rfl).mono ?_
  rintro _ _ ⟨report, rfl, counted⟩
  exact ⟨⟨ready.faces, ready.free, ready.unlabelled⟩,
    ⟨fun _ _ found => found, fun _ known => ⟨known, rfl⟩, counted⟩, rfl, rfl, rfl, rfl⟩

namespace Parse

variable {table : RuleTable} {depth : Nat} {state : State} {left lines : List Line}
  {line : Line} {others : List Nat} {more : List Line}

theorem skipTerminators_lines (between : BetweenLines left state) :
    Succeeds table skipTerminators state fun _ after =>
      (Upcoming.start left).Ready after ∧ state.Gains 0 0 after := by
  apply repeatUntil_yields (fun _ current => BetweenLines left current ∧ state.Gains 0 0 current)
  · exact ⟨between, .refl state⟩
  rintro _ current ⟨between, moved⟩
  cases left with
  | nil =>
      have ready : (Upcoming.numbers [] []).Ready current := between.elim id id
      refine (peekKind_upcoming ready).bind ?_
      rintro kind after ⟨⟨_, span⟩, rfl, seen, ready, looked⟩
      have same : kind = .endOfInput := ready.names seen
      subst same
      exact yields_pure ⟨ready, moved.trans looked⟩
  | cons line more =>
      cases between with
      | inl ready =>
          refine (peekKind_upcoming ready).bind ?_
          rintro kind after ⟨token, rfl, seen, ready, looked⟩
          have opens := Upcoming.opensOperand_of_line (ready.names seen)
          rw [(TokenKind.goesOn_of_opensOperand opens).1]
          exact yields_pure ⟨ready, moved.trans looked⟩
      | inr ready =>
          refine (peekKind_upcoming ready).bind ?_
          rintro kind after ⟨⟨_, span⟩, rfl, seen, ready, looked⟩
          have same : kind = .newline := ready.names seen
          subst same
          refine Yields.skip_upcoming ready seen rfl ?_
          intro next ready passed
          exact yields_pure ⟨.inl ready, (moved.trans looked).trans passed⟩

/-- The numbers that are left over are passed over, up to the end of the line. -/
theorem skipToStatementEnd_numbers (ready : (Upcoming.numbers others more).Ready state) :
    Succeeds table skipToStatementEnd state fun _ after =>
      (Upcoming.numbers [] more).Ready after ∧ state.Gains 0 0 after := by
  apply repeatUntil_yields (fun _ current =>
    ∃ others, (Upcoming.numbers others more).Ready current ∧ state.Gains 0 0 current)
  · exact ⟨others, ready, .refl state⟩
  rintro _ current ⟨others, ready, moved⟩
  refine (peekKind_upcoming ready).bind ?_
  rintro kind after ⟨⟨_, span⟩, rfl, seen, ready, looked⟩
  cases others with
  | cons value others =>
      have same : kind = .integer value := ready.names seen
      subst same
      refine Yields.skip_upcoming ready seen rfl ?_
      intro next ready passed
      exact yields_pure ⟨others, ready, (moved.trans looked).trans passed⟩
  | nil =>
      rcases Upcoming.ends_of_names (ready.names seen) with rfl | rfl
      · exact yields_pure ⟨ready, moved.trans looked⟩
      · exact yields_pure ⟨ready, moved.trans looked⟩

/-- After the statement on a line comes the end of the line. If something else comes, it is
reported once and passed over. -/
theorem lineEnd_yields {α : Type} {next : Parse α} {post : α → State → Prop} {token : Token}
    (ready : (line.rest more).Ready state) (ahead : state.lookahead = some token)
    (follow : ∀ after, (Upcoming.numbers [] more).Ready after →
      state.Gains 0 (if line.isBroken then 1 else 0) after → Succeeds table next after post) :
    Succeeds table (do
      if !token.kind.isTerminator && !token.kind.endsStatements then
        Scan.unexpected token none
        skipToStatementEnd
      next) state post := by
  obtain ⟨kind, span⟩ := token
  cases line with
  | assignment name value =>
      have whole := follow state ready (.refl state)
      rcases Upcoming.ends_of_names (ready.names ahead) with rfl | rfl
      · exact whole
      · exact whole
  | numbers first second others =>
      have same : kind = .integer second := ready.names ahead
      subst same
      refine Yields.lift_bind (Scan.unexpected_upcoming ready) ?_
      rintro _ reported ⟨ready, counted⟩
      refine (skipToStatementEnd_numbers ready).bind ?_
      rintro _ after ⟨ready, passed⟩
      exact follow after ready (counted.trans passed)

def Reading (before : State) (lines : List Line) (items : Array NodeId) (current : State) :
    Prop :=
  ∃ done left, lines = done ++ left ∧ LinesRead before done items.toList current ∧
    BetweenLines left current

theorem lineTurn_yields {before : State} {items : Array NodeId} {token : Token}
    (read : LinesRead before lines items.toList state)
    (ready : (Upcoming.wholeLine line more).Ready state) (ahead : state.lookahead = some token)
    (room : state.Room line.nodes) (shallow : state.depth + 2 ≤ state.limits.maxDepth) :
    Succeeds (Parse.table depth) (do
      let items := items.push (← statement)
      let token ← peekToken
      if !token.kind.isTerminator && !token.kind.endsStatements then
        Scan.unexpected token none
        skipToStatementEnd
      return Turn.again items) state fun turn after => ∃ items : Array NodeId,
        turn = (.again items : Turn (Array NodeId) (Array NodeId)) ∧
        LinesRead before (lines ++ [line]) items.toList after ∧ BetweenLines more after := by
  refine (statement_line ready room shallow ahead).bind ?_
  rintro id stored ⟨⟨parts, ready, gains⟩, -, token, next, -⟩
  refine Yields.peek_bind next (lineEnd_yields ready next ?_)
  intro after ready ended
  refine yields_pure ⟨_, rfl, ?_, .inr ready⟩
  have whole := gains.trans ended
  rw [Nat.zero_add] at whole
  rw [Array.toList_push]
  exact read.append (parts.kept ended) whole

theorem statementList_lines (ready : (Upcoming.start lines).Ready state)
    (room : state.Room (linesNodes lines)) (shallow : state.depth + 2 ≤ state.limits.maxDepth) :
    Succeeds (Parse.table depth) statementList state fun items after =>
      LinesRead state lines items after ∧
        (∃ token, after.lookahead = some token ∧ token.kind = .endOfInput) ∧
        after.arena.FreeSound := by
  refine Yields.bind (repeatUntil_yields (Reading state lines) (fun items after =>
    LinesRead state lines items.toList after ∧
      (∃ token, after.lookahead = some token ∧ token.kind = .endOfInput) ∧
      after.arena.FreeSound) ?_ ?_) ?_
  · exact ⟨[], lines, rfl, ⟨.nil, .refl state⟩, .inl ready⟩
  · rintro items current ⟨done, left, rfl, read, between⟩
    refine (skipTerminators_lines between).bind ?_
    rintro _ skipped ⟨ready, moved⟩
    refine (peekKind_upcoming ready).bind ?_
    rintro kind peeked ⟨⟨_, span⟩, rfl, seen, ready, looked⟩
    have read := read.later (moved.trans looked)
    cases left with
    | nil =>
        have same : kind = .endOfInput := ready.names seen
        subst same
        rw [List.append_nil]
        exact yields_pure ⟨read, ⟨_, seen, rfl⟩, ready.free⟩
    | cons line more =>
        have opens := Upcoming.opensOperand_of_line (ready.names seen)
        rw [(TokenKind.goesOn_of_opensOperand opens).2]
        have left : peeked.Room (line.nodes + linesNodes more) := by
          rw [linesNodes_append, linesNodes_cons] at room
          exact room.after read.gains
        have shallow : peeked.depth + 2 ≤ peeked.limits.maxDepth := by
          rw [read.gains.depth, read.gains.limits]
          exact shallow
        refine (lineTurn_yields read ready seen (left.of_le (Nat.le_add_right ..)) shallow).mono ?_
        rintro _ after ⟨items, rfl, read, between⟩
        exact ⟨done ++ [line], more, by simp, read, between⟩
  · intro items after read
    exact yields_pure read

end Parse

/-! ### The program -/

structure BodyRead (before : State) (lines : List Line) (body : Option NodeId) (after : State) :
    Prop where
  items : ∃ items, after.arena.Sequence items body ∧
    lines.Forall₂ (·.Stored before.limits.tokenMax after.arena after.symbols ·) items
  errors : after.report.errors = before.report.errors + lines.countP Line.isBroken

theorem BodyRead.later {before state after : State} {nodes : Nat} {lines : List Line}
    {body : Option NodeId} (read : BodyRead before lines body state)
    (gains : state.Gains nodes 0 after) : BodyRead before lines body after where
  items := by
    obtain ⟨items, sequence, stored⟩ := read.items
    exact ⟨items, sequence.kept gains, stored.imp fun _ _ stored => stored.kept gains⟩
  errors := gains.errors.trans read.errors

namespace Parse

variable {table : RuleTable} {depth : Nat} {state : State} {lines : List Line}

theorem statements_lines (ready : (Upcoming.start lines).Ready state)
    (room : state.Room (linesNodes lines + 2)) (shallow : state.depth + 2 ≤ state.limits.maxDepth) :
    Succeeds (Parse.table depth) statements state fun body after =>
      BodyRead state lines body after ∧ after.Finished := by
  refine (statementList_lines ready (room.of_le (Nat.le_add_right ..)) shallow).bind ?_
  rintro items read ⟨⟨stored, gains⟩, ended, free⟩
  refine (spanOfEnds_yields items).bind ?_
  rintro span settled rfl
  refine (sequence_succeeds free (room.after gains) items span).mono ?_
  rintro body after ⟨⟨arena, rfl⟩, sequence, free, room, nodes, built⟩
  refine ⟨⟨⟨items, sequence, stored.imp fun _ _ stored => stored.kept built.toGains⟩, ?_⟩,
    ended, free, room⟩
  exact built.errors.trans gains.errors

theorem program_lines (ready : (Upcoming.start lines).Ready state)
    (room : state.Room (linesNodes lines + 2)) (shallow : state.depth + 2 ≤ state.limits.maxDepth) :
    Succeeds (Parse.table depth) program state fun root after => ∃ locals body,
      after.arena.Shaped root (.scope locals body) ∧ BodyRead state lines body after := by
  refine (program_of_statements (statements_lines ready room shallow)).mono ?_
  rintro root after ⟨locals, body, middle, read, stores⟩
  exact ⟨locals, body, stores.stored, read.later stores.builds.toGains⟩

end Parse

/-! ### Written out -/

def Line.written (tokenMax : Nat) : Line → String
  | .assignment name value =>
      "(asgn (lvar " ++ Utf8.read (name.text.take tokenMax) ++ ") (int " ++ toString value ++ "))"
  | .numbers first .. => "(int " ++ toString first ++ ")"

theorem Arena.Shaped.dumpWithin {arena : Arena} {names : Symbol → String} {depth : Nat}
    {id : NodeId} {shape : Shape NodeId} (stored : arena.Shaped id shape) :
    arena.dumpWithin names (depth + 1) id =
      (shape.mapM (arena.dumpWithin names depth)).map fun written => written.render names := by
  obtain ⟨node, found, rfl⟩ := stored
  unfold Arena.dumpWithin
  rw [found]
  rfl

theorem Line.Stored.dump {line : Line} {tokenMax : Nat} {arena : Arena} {symbols : SymbolTable}
    {id : NodeId} (stored : line.Stored tokenMax arena symbols id) :
    arena.dump symbols id = .ok (line.written tokenMax) := by
  unfold Arena.dump
  cases line with
  | numbers first second more =>
      rw [stored.dumpWithin]
      rfl
  | assignment name value =>
      obtain ⟨target, assigned, symbol, joined, named, given, spelled⟩ := stored
      have slots : 0 < arena.slotCount := by
        obtain ⟨node, found, -⟩ := joined
        exact Nat.zero_lt_of_lt (Arena.slot_lt_of_get? found)
      obtain ⟨depth, same⟩ := Nat.exists_eq_succ_of_ne_zero (Nat.ne_of_gt slots)
      have left : arena.dumpWithin symbols.text (depth + 1) target =
          .ok ("(lvar " ++ Utf8.read (name.text.take tokenMax) ++ ")") := by
        rw [named.dumpWithin, ← spelled.name]
        rfl
      have right : arena.dumpWithin symbols.text (depth + 1) assigned =
          .ok ("(int " ++ toString value ++ ")") := by
        rw [given.dumpWithin]
        rfl
      rw [joined.dumpWithin, same, Shape.mapM, left, right]
      change Except.ok ("(" ++ "asgn" ++ Shape.spaced [_, _] ++ ")") = Except.ok _
      simp only [Shape.spaced, String.join, List.map_cons, List.map_nil, List.foldl_cons,
        List.foldl_nil, String.empty_append, String.append_assoc, written]
      rfl

/-! ### What a parse gives -/

theorem Line.Stored.single {line : Line} {tokenMax : Nat} {arena : Arena} {symbols : SymbolTable}
    {id : NodeId} (stored : line.Stored tokenMax arena symbols id) :
    ∃ shape, arena.Shaped id shape ∧ ∀ items, shape ≠ .list .statements items := by
  cases line with
  | assignment name value =>
      obtain ⟨target, assigned, symbol, joined, -⟩ := stored
      exact ⟨_, joined, nofun⟩
  | numbers first second more => exact ⟨_, stored, nofun⟩

section

variable (lines : List Line) (options : ParseOptions) (symbols : SymbolTable)

theorem State.start_lines :
    (Upcoming.start lines).Ready (State.start (linesText lines) options symbols) where
  faces := ⟨⟨rfl, rfl, rfl, rfl, rfl, rfl, rfl, rfl⟩,
    (State.start_sound _ options symbols True).reads.input, (Upcoming.text_start lines).symm, by
    cases lines with
    | nil => exact .inr rfl
    | cons line more => exact rfl⟩
  free := (Arena.sound_withLimit True options.maxNodes).free
  unlabelled := rfl

/-- The statements of a program are those of its lines. -/
theorem parse_lines (shallow : 2 ≤ options.maxDepth)
    (room : 3 * lines.length + 2 ≤ options.maxNodes) :
    (parse (linesText lines) options symbols).fatal = none ∧
      (parse (linesText lines) options symbols).report.errors = lines.countP Line.isBroken ∧
      ∃ items, (parse (linesText lines) options symbols).statements? = some items ∧
        lines.Forall₂ (·.Stored options.tokenMax
          (parse (linesText lines) options symbols).arena
          (parse (linesText lines) options symbols).symbols ·) items := by
  have ready := State.start_lines lines options symbols
  have space : (State.start (linesText lines) options symbols).Room (linesNodes lines + 2) := by
    have few := linesNodes_le lines
    exact State.start_room (by omega)
  have depths : (State.start (linesText lines) options symbols).depth + 2 ≤
      (State.start (linesText lines) options symbols).limits.maxDepth := shallow
  obtain ⟨root, after, ⟨locals, body, scope, read⟩, given⟩ :=
    parse_succeeds fun _ => Parse.program_lines ready space depths
  obtain ⟨items, sequence, stored⟩ := read.items
  rw [given]
  refine ⟨rfl, read.errors.trans (Nat.zero_add _), items, ?_, stored⟩
  refine Parsed.statements_of_scope rfl scope sequence ?_
  rintro item rfl
  cases stored with
  | cons stored rest => exact stored.single

/-- A statement is what its line gives when it is parsed alone. -/
def Line.ReadAsAlone (line : Line) (options : ParseOptions) (symbols : SymbolTable)
    (parsed : Parsed) (id : NodeId) : Prop :=
  ∃ alone, (parse line.text options symbols).statements? = some [alone] ∧
    (parse line.text options symbols).dumpAt alone = .ok (line.written options.tokenMax) ∧
    parsed.dumpAt id = .ok (line.written options.tokenMax)

/-- A parse recovers at the end of a line. Of a program with a statement on each line,
some of them broken, each broken line is one error. The statements are those of the lines,
in order: the assignment of each line that is one, and the first number of each broken
line, just as if the line were parsed alone. An assignment is two levels deep and takes
three nodes; with room for that nothing ends the parse. -/
theorem parse_recovers_by_line (shallow : 2 ≤ options.maxDepth)
    (room : 3 * lines.length + 2 ≤ options.maxNodes) :
    (parse (linesText lines) options symbols).fatal = none ∧
      (parse (linesText lines) options symbols).report.errors = lines.countP Line.isBroken ∧
      ∃ items, (parse (linesText lines) options symbols).statements? = some items ∧
        lines.Forall₂ (fun line id =>
          line.Stored options.tokenMax (parse (linesText lines) options symbols).arena
            (parse (linesText lines) options symbols).symbols id ∧
          line.ReadAsAlone options symbols (parse (linesText lines) options symbols) id) items := by
  obtain ⟨ended, counted, items, statements, stored⟩ :=
    parse_lines lines options symbols shallow room
  refine ⟨ended, counted, items, statements, ?_⟩
  cases lines with
  | nil =>
      cases stored
      exact .nil
  | cons first more =>
      have roomForOne : 3 * [first].length + 2 ≤ options.maxNodes := by
        simp only [List.length_cons, List.length_nil] at room ⊢
        omega
      refine stored.imp fun line id stored => ⟨stored, ?_⟩
      obtain ⟨-, -, single, statements, storedAlone⟩ :=
        parse_lines [line] options symbols shallow roomForOne
      cases storedAlone with
      | cons storedAlone rest =>
          cases rest
          rw [linesText_single] at statements storedAlone
          exact ⟨_, statements, storedAlone.dump, stored.dump⟩

end

/-- The line in the middle of three is broken. -/
theorem parse_recovers_by_line_middle :
    let lines : List Line :=
      [.assignment ⟨ascii "x", rfl⟩ 1, .numbers 1 2 [3], .assignment ⟨ascii "y", rfl⟩ (-2)]
    let options : ParseOptions := {}
    2 ≤ options.maxDepth ∧ 3 * lines.length + 2 ≤ options.maxNodes ∧
      linesText lines = ascii "x = 1\n1 2 3\ny = -2" ∧
      (parse (linesText lines) options {}).fatal = none ∧
      (parse (linesText lines) options {}).report.errors = 1 ∧
      ∃ items, (parse (linesText lines) options {}).statements? = some items ∧
        lines.Forall₂ (fun line id =>
          line.Stored options.tokenMax (parse (linesText lines) options {}).arena
            (parse (linesText lines) options {}).symbols id ∧
          line.ReadAsAlone options {} (parse (linesText lines) options {}) id) items := by
  intro lines options
  exact ⟨by decide, by decide, by decide,
    parse_recovers_by_line lines options {} (by decide) (by decide)⟩

end RubySyntax
