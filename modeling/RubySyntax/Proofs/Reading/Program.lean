/-
Programs whose statements are known.

What a program gives follows from what its statements give, where there is room for
the scope around them. A parse that meets no limit then gives that scope.
-/

import RubySyntax.Proofs.Reading.Level
import RubySyntax.Proofs.Program

namespace RubySyntax

/-- What stands for a sequence of statements: nothing for none, a single statement for
itself, and several as a list. -/
def Arena.Sequence (arena : Arena) : List NodeId → Option NodeId → Prop
  | [], body => body = none
  | [item], body => body = some item
  | items, body => ∃ id, body = some id ∧ arena.Shaped id (.list .statements items)

theorem Arena.Sequence.kept {before after : State} {nodes errors : Nat} {items : List NodeId}
    {body : Option NodeId} (gains : before.Gains nodes errors after)
    (sequence : before.arena.Sequence items body) : after.arena.Sequence items body := by
  match items with
  | [] => exact sequence
  | [item] => exact sequence
  | first :: second :: more =>
      obtain ⟨id, same, shaped⟩ := sequence
      exact ⟨id, same, gains.shaped shaped⟩

structure State.Finished (state : State) : Prop where
  ended : ∃ token, state.lookahead = some token ∧ token.kind = .endOfInput
  free : state.arena.FreeSound
  room : state.Room 1

namespace Parse

variable {table : RuleTable} {depth : Nat} {state : State} {read : Option NodeId → State → Prop}
  {begun : State → Prop} {excused : Fatal → State → Prop}

theorem skipTerminators_before (peeks : Yields table peekKind state (fun kind after =>
      kind.isTerminator = false ∧ begun after) excused) :
    Yields table skipTerminators state (fun _ after => begun after) excused := by
  apply repeatUntil_yields (fun _ current => current = state)
  · rfl
  rintro _ _ rfl
  refine peeks.bind ?_
  rintro kind after ⟨other, started⟩
  rw [other]
  exact yields_pure started

/-- Statements of which there is one: its first token starts an operand, its last one ends it,
and after that a token ends the statements. -/
theorem statementList_single {ended : NodeId → State → Prop} (finished : NodeId → State → Prop)
    (peeks : Yields (Parse.table depth) peekKind state (fun kind after => ∃ token,
      kind = token.kind ∧ kind.opensOperand = true ∧ after.lookahead = some token ∧ begun after)
      excused)
    (yields : ∀ token current, current.lookahead = some token →
      token.kind.opensOperand = true → begun current →
      Yields (Parse.table depth) statement current (Closed ended) excused)
    (stops : ∀ id after, ended id after → ∃ token, after.lookahead = some token ∧
      (token.kind.isTerminator = true ∨ token.kind.endsStatements = true))
    (passes : ∀ id current, ended id current →
      Yields (Parse.table depth) skipTerminators current (fun _ after => ∃ token,
        after.lookahead = some token ∧ token.kind.endsStatements = true ∧ finished id after)
        excused) :
    Yields (Parse.table depth) statementList state (fun items after => ∃ id, items = [id] ∧
      finished id after) excused := by
  refine Yields.bind (repeatUntil_yields (fun (items : Array NodeId) current =>
      (items = #[] ∧ current = state) ∨ ∃ id, items = #[id] ∧ ended id current)
    (fun items after => ∃ id, items = #[id] ∧ finished id after) ?_ ?_) ?_
  · exact .inl ⟨rfl, rfl⟩
  · rintro _ current (⟨rfl, rfl⟩ | ⟨id, rfl, whole⟩)
    · have begins : Yields (Parse.table depth) skipTerminators current (fun _ after =>
          ∃ token, token.kind.opensOperand = true ∧ after.lookahead = some token ∧ begun after)
          excused := by
        refine skipTerminators_before (peeks.mono ?_)
        rintro _ after ⟨token, rfl, opens, seen⟩
        exact ⟨(TokenKind.goesOn_of_opensOperand opens).1, token, opens, seen⟩
      refine begins.bind ?_
      rintro _ peeked ⟨token, opens, ahead, started⟩
      refine Yields.peekKind_bind ahead ?_
      rw [(TokenKind.goesOn_of_opensOperand opens).2]
      refine (yields token peeked ahead opens started).bind ?_
      rintro id after ⟨whole, -, -⟩
      obtain ⟨token, next, stop⟩ := stops id after whole
      refine Yields.peek_bind next ?_
      have still : (!token.kind.isTerminator && !token.kind.endsStatements) = false := by
        rcases stop with stop | stop <;> rw [stop] <;> simp
      rw [still]
      exact yields_pure (.inr ⟨id, rfl, whole⟩)
    · refine (passes id current whole).bind ?_
      rintro _ after ⟨token, ahead, ends, done⟩
      refine Yields.peekKind_bind ahead ?_
      rw [ends]
      exact yields_pure ⟨id, rfl, done⟩
  · rintro _ after ⟨id, rfl, done⟩
    exact yields_pure ⟨id, rfl, done⟩

theorem statements_single {ended : NodeId → State → Prop} (finished : NodeId → State → Prop)
    (peeks : Yields (Parse.table depth) peekKind state (fun kind after => ∃ token,
      kind = token.kind ∧ kind.opensOperand = true ∧ after.lookahead = some token ∧ begun after)
      excused)
    (yields : ∀ token current, current.lookahead = some token →
      token.kind.opensOperand = true → begun current →
      Yields (Parse.table depth) statement current (Closed ended) excused)
    (stops : ∀ id after, ended id after → ∃ token, after.lookahead = some token ∧
      (token.kind.isTerminator = true ∨ token.kind.endsStatements = true))
    (passes : ∀ id current, ended id current →
      Yields (Parse.table depth) skipTerminators current (fun _ after => ∃ token,
        after.lookahead = some token ∧ token.kind.endsStatements = true ∧ finished id after)
        excused) :
    Yields (Parse.table depth) statements state (fun body after => ∃ id, body = some id ∧
      finished id after) excused := by
  refine (statementList_single finished peeks yields stops passes).bind ?_
  rintro _ after ⟨id, rfl, done⟩
  refine (spanOfEnds_yields [id]).bind ?_
  rintro span settled rfl
  exact yields_pure ⟨id, rfl, done⟩

theorem statements_of_closed {ended : NodeId → State → Prop}
    (peeks : Yields (Parse.table depth) peekKind state (fun kind after => ∃ token,
      kind = token.kind ∧ kind.opensOperand = true ∧ after.lookahead = some token ∧ begun after)
      excused)
    (yields : ∀ token current, current.lookahead = some token →
      token.kind.opensOperand = true → begun current →
      Yields (Parse.table depth) statement current (Closed ended) excused)
    (ends : ∀ id after, ended id after → ∃ token, after.lookahead = some token ∧
      token.kind.isTerminator = false ∧ token.kind.endsStatements = true) :
    Yields (Parse.table depth) statements state (fun body after => ∃ id, body = some id ∧
      ended id after) excused := by
  apply statements_single ended peeks yields
  · intro id after whole
    obtain ⟨token, next, -, stops⟩ := ends id after whole
    exact ⟨token, next, .inr stops⟩
  · intro id current whole
    obtain ⟨token, next, other, stops⟩ := ends id current whole
    exact skipTerminators_before
      (Yields.peek_bind next (yields_pure ⟨other, token, next, stops, whole⟩))

theorem programStatements_single {ended : NodeId → State → Prop}
    (finished : NodeId → State → Prop)
    (peeks : Yields (Parse.table depth) peekKind state (fun kind after => ∃ token,
      kind = token.kind ∧ kind.opensOperand = true ∧ after.lookahead = some token ∧ begun after)
      excused)
    (yields : ∀ token current, current.lookahead = some token →
      token.kind.opensOperand = true → begun current →
      Yields (Parse.table depth) statement current (Closed ended) excused)
    (stops : ∀ id after, ended id after → ∃ token, after.lookahead = some token ∧
      (token.kind.isTerminator = true ∨ token.kind.endsStatements = true))
    (passes : ∀ id current, ended id current →
      Yields (Parse.table depth) skipTerminators current (fun _ after => ∃ token,
        after.lookahead = some token ∧ token.kind = .endOfInput ∧ finished id after) excused)
    (settles : ∀ id after, finished id after → after.arena.FreeSound ∧ after.Room 1) :
    Yields (Parse.table depth) statements state (fun body after =>
      (∃ id, body = some id ∧ finished id after) ∧ after.Finished) excused := by
  refine (statements_single (fun id after => finished id after ∧
      ∃ token, after.lookahead = some token ∧ token.kind = .endOfInput)
    peeks yields stops fun id current whole => (passes id current whole).mono ?_).mono ?_
  · rintro _ after ⟨token, ahead, kind, done⟩
    exact ⟨token, ahead, kind ▸ rfl, done, token, ahead, kind⟩
  · rintro _ after ⟨id, rfl, done, ended⟩
    obtain ⟨free, room⟩ := settles id after done
    exact ⟨⟨id, rfl, done⟩, ended, free, room⟩

theorem sequence_succeeds (free : state.arena.FreeSound) (room : state.Room 2)
    (items : List NodeId) (span : Span) :
    Succeeds table (sequence items span) state fun body after =>
      (∃ arena, after = { state with arena }) ∧ after.arena.Sequence items body ∧
        after.arena.FreeSound ∧ after.Room 1 ∧ ∃ nodes, state.Builds nodes after := by
  have roomy : state.Room 1 := room.of_le (by decide)
  match items with
  | [] => exact yields_pure ⟨⟨_, rfl⟩, rfl, free, roomy, 0, .refl state⟩
  | [item] => exact yields_pure ⟨⟨_, rfl⟩, rfl, free, roomy, 0, .refl state⟩
  | first :: second :: more =>
      refine Yields.lift_bind (Scan.alloc_succeeds free roomy _ span) ?_
      intro id after stores
      have left : after.Room 1 := State.Room.after room stores.builds.toGains
      exact yields_pure ⟨stores.others, ⟨id, rfl, stores.stored⟩, stores.free, left, 1,
        stores.builds⟩

theorem programItems_of_statements
    (yields : Yields (Parse.table depth) statements state (fun body after =>
      read body after ∧ after.Finished) excused) :
    Yields (Parse.table depth) programItems state (fun items after => ∃ body : Option NodeId,
      items = body.toList ∧ read body after ∧ after.Finished) excused := by
  refine Yields.bind (repeatUntil_yields (fun items current => items = #[] ∧ current = state)
    (fun items after => ∃ body : Option NodeId, items.toList = body.toList ∧ read body after ∧
      after.Finished) ⟨rfl, rfl⟩ ?_) ?_
  · rintro items current ⟨rfl, rfl⟩
    refine yields.bind ?_
    rintro body after ⟨given, finished⟩
    obtain ⟨⟨kind, span⟩, ahead, rfl⟩ := finished.ended
    refine Yields.peek_bind ahead ?_
    exact yields_pure ⟨body, by cases body <;> rfl, given, finished⟩
  · rintro items after ⟨body, same, whole⟩
    exact yields_pure ⟨body, same, whole⟩

theorem program_of_statements
    (yields : Yields (Parse.table depth) statements state (fun body after =>
      read body after ∧ after.Finished) excused) :
    Yields (Parse.table depth) program state (fun root after => ∃ locals body middle,
      read body middle ∧ middle.Stores (.scope locals body) root after) excused := by
  refine (programItems_of_statements yields).bind ?_
  rintro _ read ⟨body, rfl, given, finished⟩
  refine (spanOfEnds_yields body.toList).bind ?_
  rintro span middle rfl
  have single : Yields (Parse.table depth) (sequence body.toList span) middle
      (fun inner after => inner = body ∧ after = middle) excused := by
    cases body with
    | none => exact yields_pure ⟨rfl, rfl⟩
    | some id => exact yields_pure ⟨rfl, rfl⟩
  refine single.bind ?_
  rintro inner settled ⟨rfl, rfl⟩
  refine Yields.get_bind (yields_lift ?_)
  refine (Scan.alloc_succeeds finished.free finished.room _ _).unexcused.mono ?_
  intro root after stores
  exact ⟨_, inner, settled, given, stores⟩

end Parse

theorem runProgram_yields {source : Bytes} {options : ParseOptions} {symbols : SymbolTable}
    {post : NodeId → State → Prop} {excused : Fatal → State → Prop}
    (yields : ∀ depth, Parse.Yields (Parse.table depth) Parse.program
      (State.start source options symbols) post excused) :
    (∃ root after, post root after ∧ runProgram source options symbols = .ok root after) ∨
      ∃ error after, excused error after ∧
        runProgram source options symbols = .error (.fatal error) after := by
  have ends := tree_or_fatal source options symbols
  unfold parse at ends
  cases run : runProgram source options symbols with
  | ok root after => exact .inl ⟨root, after, Scan.Yields.value (yields _) run, rfl⟩
  | error halt after =>
      rw [run] at ends
      cases halt with
      | fatal error => exact .inr ⟨error, after, Scan.Yields.limit (yields _) run, rfl⟩
      | starved => exact ends.elim nofun nofun
      | fault fault => exact ends.elim nofun nofun

/-- A parse that meets no limit gives the tree of its program. -/
theorem parse_succeeds {source : Bytes} {options : ParseOptions} {symbols : SymbolTable}
    {post : NodeId → State → Prop}
    (yields : ∀ depth, Parse.Succeeds (Parse.table depth) Parse.program
      (State.start source options symbols) post) :
    ∃ root after, post root after ∧
      parse source options symbols = Parsed.ofState after (some root) none := by
  rcases runProgram_yields yields with ⟨root, after, given, run⟩ | ⟨error, after, never, run⟩
  · refine ⟨root, after, given, ?_⟩
    unfold parse
    rw [run]
  · exact never.elim

/-- A parse without diagnostics: no fatal error ended it, and nothing was reported. -/
structure Parsed.Clean (parsed : Parsed) : Prop where
  fatal : parsed.fatal = none
  errors : parsed.report.errors = 0
  warnings : parsed.report.warnings = 0
  captured : parsed.report.captured = #[]
  written : parsed.report.written = ""

/-- A parse is without diagnostics if the report is the one that it started with. -/
theorem Parsed.Clean.of_quiet {parsed : Parsed} {source : Bytes} {options : ParseOptions}
    {symbols : SymbolTable} (fatal : parsed.fatal = none)
    (quiet : parsed.report = (State.start source options symbols).report) : parsed.Clean where
  fatal := fatal
  errors := congrArg Report.errors quiet
  warnings := congrArg Report.warnings quiet
  captured := congrArg Report.captured quiet
  written := congrArg Report.written quiet

def Parsed.statements? (parsed : Parsed) : Option (List NodeId) := do
  let root ← parsed.tree
  match (← parsed.arena.get? root).shape with
  | .scope _ none => return []
  | .scope _ (some body) =>
      match (← parsed.arena.get? body).shape with
      | .list .statements items => return items
      | _ => return [body]
  | _ => none

/-- The statements of a program are those that its scope holds, unless a single one is a
list itself. -/
theorem Parsed.statements_of_scope {parsed : Parsed} {root : NodeId} {locals : List Symbol}
    {body : Option NodeId} {items : List NodeId} (tree : parsed.tree = some root)
    (scope : parsed.arena.Shaped root (.scope locals body))
    (sequence : parsed.arena.Sequence items body)
    (single : ∀ item, items = [item] → ∃ shape, parsed.arena.Shaped item shape ∧
      ∀ others, shape ≠ .list .statements others) :
    parsed.statements? = some items := by
  obtain ⟨node, found, shape⟩ := scope
  simp only [statements?, tree, found, shape, Option.bind_eq_bind, Option.bind_some]
  cases items with
  | nil =>
      cases sequence
      rfl
  | cons first more =>
      cases more with
      | nil =>
          cases sequence
          obtain ⟨_, ⟨node, found, rfl⟩, other⟩ := single first rfl
          simp only [found, Option.bind_some]
          rfl
      | cons second more =>
          obtain ⟨id, rfl, node, found, shape⟩ := sequence
          simp only [found, shape, Option.bind_some]
          rfl

end RubySyntax
