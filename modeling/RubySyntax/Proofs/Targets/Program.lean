/-
Programs with an assignment to several targets on each line.

Each line is one statement. The variables of the program are the ones that were given to it and
then the targets in the order of the source, each where it comes first, whichever of them were
known where they were assigned to.
-/

import RubySyntax.Proofs.Targets.Statement

namespace RubySyntax

/-! ### The words of a program -/

namespace TargetItem

variable {tokenMax : Nat} {next : Word} {others : List Word} {item : TargetItem}

theorem words_fit (blank : Bool)
    (ends : next = .comma ∨ next = .assign ∧ ∃ more, Word.textOf others = 0x20 :: more)
    (short : item.name.text.length ≤ tokenMax)
    (later : Word.Fits tokenMax next.leaves (next.nests 0) others) :
    Word.Fits tokenMax .operand 0 (item.words blank ++ next :: others) := by
  obtain ⟨stop, more, follows, stops⟩ : ∃ stop more,
      Word.textOf (next :: others) = stop :: more ∧ stop.endsName = true := by
    rcases ends with rfl | ⟨rfl, -⟩
    · exact ⟨0x2C, Word.textOf others, rfl, rfl⟩
    · exact ⟨0x20, 0x3D :: Word.textOf others, rfl, rfl⟩
  have after : Word.Fits tokenMax .after 0 (next :: others) := by
    rcases ends with rfl | ⟨rfl, spaced⟩
    · exact ⟨trivial, trivial, later⟩
    · exact ⟨⟨rfl, spaced⟩, trivial, later⟩
  obtain ⟨gathers, name⟩ := item
  have named (blank : Bool) : Word.Fits tokenMax .operand 0 (.name blank name :: next :: others) :=
    ⟨⟨nofun, stop, more, follows, stops⟩, short, after⟩
  cases gathers with
  | false => exact named blank
  | true => exact Word.gather_fit blank .star (.inr rfl) (named false)

theorem words_start {words : List Word}
    (fits : Word.Fits tokenMax .operand 0 (item.words false ++ words)) :
    Word.Fits tokenMax .statement 0 (item.words false ++ words) := by
  obtain ⟨gathers, name⟩ := item
  cases gathers with
  | false => exact ⟨⟨nofun, fits.1.2⟩, fits.2⟩
  | true => exact ⟨⟨.inl rfl, fits.1.2⟩, fits.2⟩

end TargetItem

namespace TargetLine

def source (lines : List TargetLine) : Bytes :=
  [0x0A].intercalate (lines.map text)

def laterWords (lines : List TargetLine) : List Word :=
  lines.flatMap fun line => .lineFeed :: line.words

def sourceWords : List TargetLine → List Word
  | [] => []
  | line :: more => line.words ++ laterWords more

theorem items_ne_nil (line : TargetLine) : ∃ item more, line.items = item :: more := by
  rcases line.items_cases with ⟨rest, more, items⟩ | ⟨first, other, more, items⟩
  · exact ⟨_, _, items⟩
  · exact ⟨_, _, items⟩

theorem textOf_words (line : TargetLine) : Word.textOf line.words = line.text := by
  obtain ⟨item, more, items⟩ := line.items_ne_nil
  rw [words, text, items, Word.textOf_append,
    Word.textOf_commaList TargetItem.textOf_words false item more]
  rfl

theorem textOf_sourceWords (lines : List TargetLine) :
    Word.textOf (sourceWords lines) = source lines := by
  cases lines with
  | nil => rfl
  | cons line more =>
      rw [sourceWords, source, List.map_cons, intercalate_cons_eq_flatMap, Word.textOf_append,
        textOf_words, laterWords, Word.textOf, List.flatMap_assoc, List.flatMap_map]
      congr 2
      funext line
      exact congrArg (0x0A :: ·) line.textOf_words

theorem endsLine_laterWords (lines : List TargetLine) : EndsLine (laterWords lines) := by
  cases lines with
  | nil => exact .inl rfl
  | cons line more => exact .inr ⟨_, rfl⟩

theorem continuation?_eq_none (line : TargetLine) (words : List Word) :
    Space.continuation? (Word.textOf (line.words ++ words)) = none := by
  rcases line.items_cases with ⟨rest, more, items⟩ | ⟨name, other, more, items⟩
  · rw [TargetLine.words, items]
    have star : Byte.startsToken 0x2A = true := by decide
    exact Space.continuation?_eq_none star (by decide) (by decide) _
  · obtain ⟨byte, rest, written, starts, -⟩ := name.first
    have low : byte < 0x80 := (name.ascii byte (written ▸ List.mem_cons_self)).2
    obtain ⟨solid, -, noDot, noSafeDot⟩ := Byte.startsToken_of_isNameStart byte starts low
    rw [TargetLine.words, items, List.append_assoc, TargetItem.commaList_words, List.append_assoc,
      Word.textOf_append, TargetItem.textOf_words]
    change Space.continuation? (name.text ++ _) = none
    rw [written]
    exact Space.continuation?_eq_none solid noDot noSafeDot _

variable {tokenMax : Nat}

def Short (tokenMax : Nat) (line : TargetLine) : Prop :=
  ∀ name ∈ line.names, name.length ≤ tokenMax

instance (line : TargetLine) : Decidable (line.Short tokenMax) :=
  inferInstanceAs (Decidable (∀ name ∈ line.names, name.length ≤ tokenMax))

theorem words_fit {words : List Word} (line : TargetLine) (short : line.Short tokenMax)
    (ends : EndsLine words) (later : Word.Fits tokenMax .after 0 words) :
    Word.Fits tokenMax .statement 0 (line.words ++ words) := by
  obtain ⟨item, more, items⟩ := line.items_ne_nil
  have figure : Word.Fits tokenMax .operand 0 (.number 0 :: words) := by
    refine ⟨?_, trivial, later⟩
    rcases ends with rfl | ⟨more, rfl⟩
    · exact .inl rfl
    · exact .inr ⟨0x0A, _, rfl, rfl⟩
  have list : Word.Fits tokenMax .operand 0 (Word.commaList TargetItem.words false (item :: more) ++
      .assign :: .number 0 :: words) := by
    refine Word.commaList_fit false item more figure fun blank item member next others ends fits =>
      TargetItem.words_fit blank (ends.imp_right ?_) (short _ ?_) fits
    · rintro ⟨rfl, rfl⟩
      exact ⟨rfl, _, rfl⟩
    · rw [Targets.names, items]
      exact List.mem_map_of_mem member
  rw [TargetItem.commaList_words, List.append_assoc] at list
  rw [TargetLine.words, items, List.append_assoc, TargetItem.commaList_words, List.append_assoc]
  exact TargetItem.words_start list

theorem laterWords_fit (lines : List TargetLine) (short : ∀ line ∈ lines, line.Short tokenMax) :
    Word.Fits tokenMax .after 0 (laterWords lines) := by
  induction lines with
  | nil => exact ⟨.inr rfl, rfl⟩
  | cons line more ih =>
      rw [List.forall_mem_cons] at short
      exact ⟨⟨rfl, line.continuation?_eq_none _⟩, trivial,
        line.words_fit short.1 (endsLine_laterWords more) (ih short.2)⟩

theorem sourceWords_fit (lines : List TargetLine) (short : ∀ line ∈ lines, line.Short tokenMax) :
    Word.Fits tokenMax .statement 0 (sourceWords lines) := by
  cases lines with
  | nil => exact ⟨.inl rfl, rfl⟩
  | cons line more =>
      rw [List.forall_mem_cons] at short
      exact line.words_fit short.1 (endsLine_laterWords more) (laterWords_fit more short.2)

end TargetLine

/-! ### Lines that have been read -/

def TargetLine.nodesOf (lines : List TargetLine) : Nat :=
  (lines.map TargetLine.nodes).sum

def TargetLine.namesOf (lines : List TargetLine) : List Bytes :=
  lines.flatMap (·.names)

structure TargetLinesRead (before : State) (lines : List TargetLine) (items : List NodeId)
    (after : State) : Prop where
  assigned : lines.Forall₂ (·.Assigned after.arena after.symbols ·) items
  adds : ∃ symbols, after.symbols.Issued (TargetLine.namesOf lines) symbols ∧
    before.Adds (TargetLine.nodesOf lines) 0 symbols after

namespace TargetLinesRead

variable {before state after : State} {lines : List TargetLine} {items : List NodeId}
  {line : TargetLine} {id : NodeId} {words : List Word}

theorem later (read : TargetLinesRead before lines items state) (passed : state.Adds 0 0 [] after) :
    TargetLinesRead before lines items after where
  assigned := read.assigned.imp fun _ _ assigned => assigned.kept passed.toGains
  adds := by
    obtain ⟨symbols, issued, adds⟩ := read.adds
    exact ⟨symbols, issued.later passed.names, adds.later passed⟩

theorem append (read : TargetLinesRead before lines items state)
    (one : AssignmentRead state line.toTargets words id after) :
    TargetLinesRead before (lines ++ [line]) (items ++ [id]) after := by
  obtain ⟨symbols, issued, adds⟩ := read.adds
  obtain ⟨more, found, added⟩ := one.adds
  constructor
  · exact List.rel_append (read.assigned.imp fun _ _ assigned => assigned.kept added.toGains)
      (.cons one.assigned .nil)
  · refine ⟨symbols ++ more, ?_, ?_⟩
    · rw [TargetLine.namesOf, List.flatMap_append, List.flatMap_singleton]
      exact (issued.later added.names).append found
    · rw [TargetLine.nodesOf, List.map_append, List.sum_append, List.map_singleton, List.sum_singleton]
      exact adds.trans added

end TargetLinesRead

structure TargetsDeclared (before : State) (lines : List TargetLine) (items : List NodeId)
    (after : State) : Prop where
  assigned : lines.Forall₂ (·.Assigned after.arena after.symbols ·) items
  quiet : after.report = before.report
  grows : after.symbols.Extends before.symbols
  declared : ∃ symbols, after.symbols.Issued (TargetLine.namesOf lines) symbols ∧
    after.scopes = symbols.foldl ScopeStack.declare before.scopes

namespace Parse

variable {table : RuleTable} {depth : Nat} {state : State} {lines left : List TargetLine}

/-- A line starts with a token that goes on; after the last one the statements end. -/
theorem peekKind_targets (ahead : state.Ahead (TargetLine.sourceWords left)) :
    Succeeds table peekKind state fun kind after => kind.isTerminator = false ∧
      (∃ token, after.lookahead = some token ∧ token.kind.endsStatements = left.isEmpty ∧
        (left = [] → token.kind = .endOfInput)) ∧
      after.Ahead (TargetLine.sourceWords left) ∧ state.Adds 0 0 [] after := by
  cases left with
  | nil =>
      refine (peekToken_last ahead).bind ?_
      rintro token after ⟨seen, kind, ahead, looked⟩
      exact yields_pure ⟨kind ▸ rfl, ⟨token, seen, kind ▸ rfl, fun _ => kind⟩, ahead, looked⟩
  | cons line more =>
      have starts {word : Word} {rest : List Word}
          (written : TargetLine.sourceWords (line :: more) = word :: rest)
          (opens : ∀ after token, word.Announces after token →
            token.kind.isTerminator = false ∧ token.kind.endsStatements = false) :
          Succeeds table peekKind state fun kind after => kind.isTerminator = false ∧
            (∃ token, after.lookahead = some token ∧ token.kind.endsStatements = false ∧
              (line :: more = [] → token.kind = .endOfInput)) ∧
            after.Ahead (TargetLine.sourceWords (line :: more)) ∧ state.Adds 0 0 [] after := by
        rw [written] at ahead ⊢
        refine (peekKind_word ahead).mono ?_
        rintro _ after ⟨token, rfl, seen, announced, ahead, looked⟩
        obtain ⟨goesOn, stays⟩ := opens after token announced
        exact ⟨goesOn, ⟨token, seen, stays, nofun⟩, ahead, looked⟩
      rcases line.items_cases with ⟨rest, others, items⟩ | ⟨name, other, others, items⟩
      · refine starts (by rw [TargetLine.sourceWords, TargetLine.words, items]; rfl) ?_
        intro after token kind
        rw [show token.kind = .punct .splatStar from kind]
        exact ⟨rfl, rfl⟩
      · refine starts (by rw [TargetLine.sourceWords, TargetLine.words, items]; rfl) ?_
        rintro after token ⟨symbol, kind, -⟩
        rw [kind]
        exact ⟨rfl, rfl⟩

theorem skipTerminators_targets (between : state.Ahead (TargetLine.sourceWords left) ∨
      state.Ahead (TargetLine.laterWords left)) :
    Succeeds table skipTerminators state fun _ after =>
      (∃ token, after.lookahead = some token ∧ token.kind.endsStatements = left.isEmpty ∧
        (left = [] → token.kind = .endOfInput)) ∧
      after.Ahead (TargetLine.sourceWords left) ∧ state.Adds 0 0 [] after := by
  cases left with
  | nil => exact skipTerminators_before (peekKind_targets (between.elim id id))
  | cons line more =>
      rcases between with ahead | ahead
      · exact skipTerminators_before (peekKind_targets ahead)
      · refine skipTerminators_lineFeed ahead fun current ahead passed => ?_
        have ahead : current.Ahead (TargetLine.sourceWords (line :: more)) := ahead
        refine (peekKind_targets ahead).mono ?_
        rintro kind after ⟨goesOn, seen, ahead, looked⟩
        exact ⟨goesOn, seen, ahead, looked.since passed⟩

theorem statementList_targets (closed : state.Opaque)
    (ahead : state.Ahead (TargetLine.sourceWords lines)) (room : state.Room (TargetLine.nodesOf lines))
    (shallow : state.depth < state.limits.maxDepth) :
    Succeeds (Parse.table depth) statementList state fun items after =>
      TargetLinesRead state lines items after ∧
        (∃ token, after.lookahead = some token ∧ token.kind = .endOfInput) ∧
        after.arena.FreeSound := by
  refine Yields.bind (repeatUntil_yields (fun (items : Array NodeId) current => ∃ done left,
      lines = done ++ left ∧ TargetLinesRead state done items.toList current ∧
        (current.Ahead (TargetLine.sourceWords left) ∨ current.Ahead (TargetLine.laterWords left)))
    (fun items after => TargetLinesRead state lines items.toList after ∧
      (∃ token, after.lookahead = some token ∧ token.kind = .endOfInput) ∧
      after.arena.FreeSound) ?_ ?_) fun items after read => yields_pure read
  · exact ⟨[], lines, rfl, ⟨.nil, [], .nil, .refl state⟩, .inl ahead⟩
  rintro items current ⟨done, left, rfl, read, between⟩
  refine (skipTerminators_targets between).bind ?_
  rintro _ begun ⟨⟨token, seen, ends, last⟩, ahead, passed⟩
  have read := read.later passed
  refine Yields.peekKind_bind seen ?_
  rw [ends]
  cases left with
  | nil =>
      rw [List.append_nil]
      exact yields_pure ⟨read, ⟨token, seen, last rfl⟩, ahead.free⟩
  | cons line more =>
      obtain ⟨symbols, issued, adds⟩ := read.adds
      have roomy : begun.Room (line.nodes + TargetLine.nodesOf more) := by
        rw [TargetLine.nodesOf, List.map_append, List.sum_append, List.map_cons, List.sum_cons] at room
        exact room.after adds.toGains
      refine (statement_targets line (closed.later adds) ahead (TargetLine.endsLine_laterWords more)
        seen (roomy.of_le (Nat.le_add_right ..)) (adds.shallow shallow)).bind ?_
      rintro id after ⟨one, -, token, next, -⟩
      refine Yields.peek_bind next ?_
      have stops : (!token.kind.isTerminator && !token.kind.endsStatements) = false := by
        rcases (TargetLine.endsLine_laterWords more).kind_eq one.ahead next with kind | kind <;>
          exact kind ▸ rfl
      rw [stops]
      refine yields_pure ⟨done ++ [line], more, (List.append_assoc done [line] more).symm, ?_,
        .inr one.ahead⟩
      rw [Array.toList_push]
      exact read.append one

theorem statements_targets (closed : state.Opaque)
    (ahead : state.Ahead (TargetLine.sourceWords lines))
    (room : state.Room (TargetLine.nodesOf lines + 2))
    (shallow : state.depth < state.limits.maxDepth) :
    Succeeds (Parse.table depth) statements state fun body after =>
      (∃ items, after.arena.Sequence items body ∧ TargetsDeclared state lines items after) ∧
        after.Finished := by
  refine (statementList_targets closed ahead (room.of_le (Nat.le_add_right ..)) shallow).bind ?_
  rintro items read ⟨⟨assigned, symbols, issued, adds⟩, ended, free⟩
  refine (spanOfEnds_yields items).bind ?_
  rintro span settled rfl
  refine (sequence_succeeds free (room.after adds.toGains) items span).mono ?_
  rintro body after ⟨⟨arena, rfl⟩, sequence, free, room, nodes, built⟩
  exact ⟨⟨items, sequence, assigned.imp fun _ _ assigned => assigned.kept built.toGains,
    adds.quiet rfl, adds.names, symbols, issued.later built.names, adds.scopes⟩, ended, free, room⟩

end Parse

/-! ### The program -/

section

variable (lines : List TargetLine) (options : ParseOptions)

theorem parse_targets_declares (table : SymbolTable)
    (short : ∀ line ∈ lines, line.Short options.tokenMax) (shallow : 0 < options.maxDepth)
    (room : TargetLine.nodesOf lines + 2 ≤ options.maxNodes) :
    let parsed := parse (TargetLine.source lines) options table
    parsed.Clean ∧
      (∃ items, parsed.statements? = some items ∧
        lines.Forall₂ (·.Assigned parsed.arena parsed.symbols ·) items) ∧
      parsed.symbols.Extends table ∧ ∃ declared,
        parsed.symbols.Issued (TargetLine.namesOf lines) declared ∧
        parsed.locals = (options.locals ++ declared).eraseDups := by
  dsimp only
  rw [← TargetLine.textOf_sourceWords]
  have closed : (State.start (Word.textOf (TargetLine.sourceWords lines)) options table).Opaque := by
    rw [State.Opaque, State.start, ScopeStack.current_kind_foldl_declare]
    rfl
  have ahead : (State.start (Word.textOf (TargetLine.sourceWords lines)) options table).Ahead
      (TargetLine.sourceWords lines) :=
    State.start_ahead table (TargetLine.sourceWords_fit lines short)
  have single : ∀ item after, TargetsDeclared
      (State.start (Word.textOf (TargetLine.sourceWords lines)) options table) lines [item] after →
      ∃ shape, after.arena.Shaped item shape ∧ ∀ others, shape ≠ .list .statements others := by
    rintro item after ⟨assigned, -⟩
    cases assigned with
    | cons assigned more =>
        obtain ⟨target, value, list, joined, -⟩ := assigned
        refine ⟨_, joined, ?_⟩
        intro others same
        cases same
  obtain ⟨fatal, items, middle, after, ⟨assigned, quiet, grows, declared, issued, scopes⟩, builds,
    report, visible, statements, arena, names⟩ :=
    parse_of_row (fun _ => Parse.statements_targets closed ahead (State.start_room room) shallow)
      single
  have given : (options.locals.foldl ScopeStack.declare {}).locals = options.locals.eraseDups :=
    ScopeStack.locals_foldl_declare options.locals [] {} rfl
  rw [arena, names]
  refine ⟨.of_quiet fatal (report.trans quiet), ⟨items, statements, ?_⟩,
    SymbolTable.Extends.trans builds.names grows, declared, issued.later builds.names, ?_⟩
  · exact assigned.imp fun _ _ assigned => assigned.kept builds.toGains
  · rw [visible, scopes]
    exact ScopeStack.locals_foldl_declare declared options.locals _ given

/-- A program that assigns to several targets on each line is read without an error, and each line
as the assignment that it is. Its variables are those that were given to it and the targets, in
order and without those that came before. It makes no difference which targets are variables
already when they are assigned to. -/
theorem parse_target_lines (given : List Bytes) (symbols : SymbolTable)
    (short : ∀ line ∈ lines, line.Short options.tokenMax) (shallow : 0 < options.maxDepth)
    (room : TargetLine.nodesOf lines + 2 ≤ options.maxNodes) :
    let table := symbols.internAll given
    let parsed := parse (TargetLine.source lines) { options with locals := table.1 } table.2
    parsed.Clean ∧
      (∃ items, parsed.statements? = some items ∧
        lines.Forall₂ (·.Assigned parsed.arena parsed.symbols ·) items) ∧
      parsed.locals.map parsed.symbols.name = (given ++ TargetLine.namesOf lines).eraseDups := by
  dsimp only
  have known := symbols.issued_internAll given
  generalize symbols.internAll given = table at known ⊢
  obtain ⟨locals, table⟩ := table
  obtain ⟨clean, read, grows, declared, issued, visible⟩ :=
    parse_targets_declares lines { options with locals } table short shallow room
  refine ⟨clean, read, ?_⟩
  have all := (known.later grows).append issued
  dsimp only at all ⊢
  rw [visible, ← List.eraseDups_map_of_injective _ all.injective, all.map_name]

end

/-- A splat at the end of a line and one at the start, with a variable that is given. -/
theorem parse_target_lines_splats :
    let lines : List TargetLine :=
      [⟨⟨[⟨ascii "a", by decide⟩], some (⟨ascii "b", by decide⟩, [])⟩, .inl rfl⟩,
        ⟨⟨[], some (⟨ascii "c", by decide⟩, [⟨ascii "a", by decide⟩])⟩, .inl rfl⟩]
    let table := ({} : SymbolTable).internAll [ascii "b"]
    let parsed := parse (TargetLine.source lines) { locals := table.1 } table.2
    TargetLine.source lines = ascii "a, *b = 0\n*c, a = 0" ∧ parsed.Clean ∧
      (∃ items, parsed.statements? = some items ∧
        lines.Forall₂ (·.Assigned parsed.arena parsed.symbols ·) items) ∧
      parsed.locals.map parsed.symbols.name = [ascii "b", ascii "a", ascii "c"] := by
  intro lines table
  have text : TargetLine.source lines = ascii "a, *b = 0\n*c, a = 0" := by decide
  have short : ∀ line ∈ lines, line.Short 65536 := by decide
  obtain ⟨clean, read, visible⟩ :=
    parse_target_lines lines {} [ascii "b"] {} short (by decide) (by decide)
  exact ⟨text, clean, read, visible.trans (by decide)⟩

/-- Of a name that is too long only the first bytes are kept, and declared. Without a level of
nesting not even the first target is read. -/
theorem parse_target_lines_limited :
    let lines : List TargetLine :=
      [⟨⟨[⟨ascii "c", by decide⟩, ⟨ascii "ab", by decide⟩], none⟩, .inr (by decide)⟩]
    let short := parse (TargetLine.source lines) { tokenMax := 1 } {}
    let flat := parse (TargetLine.source lines) { maxDepth := 0 } {}
    TargetLine.source lines = ascii "c, ab = 0" ∧
      short.locals.map short.symbols.name ≠ (TargetLine.namesOf lines).eraseDups ∧
      flat.report.errors ≠ 0 := by
  intro lines
  have text : TargetLine.source lines = ascii "c, ab = 0" := by decide
  have kept : (parse (ascii "c, ab = 0") { tokenMax := 1 } {}).locals.map
      (parse (ascii "c, ab = 0") { tokenMax := 1 } {}).symbols.name = [ascii "c", ascii "a"] := by
    decide +kernel
  have stopped : (parse (ascii "c, ab = 0") { maxDepth := 0 } {}).report.errors = 1 := by
    decide +kernel
  have written : (TargetLine.namesOf lines).eraseDups = [ascii "c", ascii "ab"] := by decide
  dsimp only
  rw [text, kept, stopped, written]
  exact ⟨rfl, by decide, by decide⟩

end RubySyntax
