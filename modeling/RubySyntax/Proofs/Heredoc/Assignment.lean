/-
Assignments of heredocs, and what becomes of their indentation.

The heredoc is the value of the assignment, so the line ends right after its opener. A
heredoc that is opened with a tilde stands for its lines without their margin.
-/

import RubySyntax.Proofs.Heredoc.Program

namespace RubySyntax

structure ValueRead (before : State) (heredoc : RawHeredoc) (value : NodeId) (after : State) :
    Prop where
  ended : ∃ start, after.AtLineEnd [⟨heredoc, start, value⟩]
  builds : before.Builds 1 after

theorem ValueRead.shallower {before after : State} {heredoc : RawHeredoc} {value : NodeId}
    (read : ValueRead { before with depth := before.depth + 1 } heredoc value after) :
    ValueRead before heredoc value { after with depth := after.depth - 1 } := by
  obtain ⟨⟨start, ended⟩, builds⟩ := read
  exact ⟨⟨start, ended.shallower⟩, builds.shallower⟩

def AssignmentStored (name : VariableName) (placeholders : List Placeholder) (id : NodeId)
    (after : State) : Prop :=
  ∃ target value symbol, placeholders.map Placeholder.node = [value] ∧
    after.arena.Shaped id (.binary .assign target value) ∧
    after.arena.Shaped target (.named .localVariable symbol) ∧
    after.symbols.Spells symbol name.text

namespace Parse

variable {table : RuleTable} {depth : Nat} {state : State} {heredoc : RawHeredoc} {token : Token}
  {rule : CommandRule}

/-- Nothing goes on with a heredoc at the end of a line. -/
theorem chain_heredoc {start : Nat} (ahead : state.lookahead = some token)
    (kind : token.kind = .heredocBegin)
    (meets : state.Meets [] heredoc.body 0 [⟨heredoc.opened start, none⟩])
    (room : state.Room 1) :
    Succeeds table chain state (ClosedOperand (ValueRead state heredoc)) := by
  have line : ([heredoc] : List RawHeredoc).flatMap RawHeredoc.body = heredoc.body :=
    List.append_nil _
  rw [← line] at meets
  apply chain_closed (primary_heredoc ahead kind meets (.nil _) room)
  rintro id current ⟨⟨start, meets, awaits⟩, unseen, builds⟩
  refine (peekKind_lineEnd (List.cons_ne_nil _ _) meets awaits unseen).mono ?_
  rintro _ after ⟨token, rfl, seen, kind, ended, -, looked⟩
  exact ⟨token, rfl, seen, kind ▸ rfl, ended.unlabelled, ⟨start, ended⟩, builds.trans looked⟩

theorem argument_heredoc {start : Nat} (ahead : state.lookahead = some token)
    (kind : token.kind = .heredocBegin)
    (meets : state.Meets [] heredoc.body 0 [⟨heredoc.opened start, none⟩])
    (room : state.Room 1) (shallow : state.depth < state.limits.maxDepth) :
    Succeeds (Parse.table depth) (argumentOperand rule) state
      (ClosedOperand (ValueRead state heredoc)) := by
  apply argumentOperand_closed ahead (kind ▸ rfl) shallow
  have chained : ∀ depth, Succeeds (Parse.table depth) chain { state with depth := state.depth + 1 }
      (ClosedOperand (ValueRead { state with depth := state.depth + 1 } heredoc)) :=
    fun _ => chain_heredoc ahead kind meets.deeper room
  refine (operand_closed chained).mono ?_
  intro operand after closed
  exact closed.mono fun id read => read.shallower

theorem assignedValue_heredoc (meets : state.Meets [.opener true heredoc] heredoc.body 0 [])
    (unseen : state.lookahead = none) (room : state.Room 1)
    (shallow : state.depth < state.limits.maxDepth) :
    Succeeds (Parse.table depth) (assignedValue rule) state (Closed (ValueRead state heredoc)) := by
  apply assignedValue_closed fun peeked => ∃ start span,
    peeked.lookahead = some ⟨.heredocBegin, span⟩ ∧
      peeked.Meets [] heredoc.body 0 [⟨heredoc.opened start, none⟩] ∧ state.Builds 0 peeked
  · refine (peekKind_lexeme meets unseen).mono ?_
    rintro _ peeked ⟨⟨_, span⟩, rfl, seen, rfl, ⟨start, meets⟩, -, looked⟩
    exact ⟨_, rfl, rfl, seen, start, span, seen, meets, looked⟩
  · rintro id after ⟨⟨start, ended⟩, -⟩
    exact ⟨_, ended.awaits.empty _ (List.mem_singleton_self _), rfl⟩
  · rintro depth token peeked - - ⟨start, span, seen, meets, looked⟩
    have roomy : peeked.Room 1 := room.after looked.toGains
    have deep : peeked.depth < peeked.limits.maxDepth := by
      rw [looked.depth, looked.limits]
      exact shallow
    refine (argument_heredoc seen rfl meets roomy deep).mono ?_
    intro operand after closed
    exact closed.mono fun id read => ⟨read.ended, looked.trans read.builds⟩

theorem operand_heredoc {name : VariableName}
    (ahead : state.lookahead = some token) (names : (Lexeme.name name).Names state token.kind)
    (meets : state.Meets [.assign, .opener true heredoc] heredoc.body 0 [])
    (short : name.text.length ≤ state.limits.tokenMax) (room : state.Room 3)
    (shallow : state.depth < state.limits.maxDepth) :
    Succeeds (Parse.table depth) (operand rule) state (ClosedOperand fun id after =>
      ∃ placeholders, LineEnded state [heredoc] 3 placeholders after ∧
        AssignmentStored name placeholders id after) := by
  obtain ⟨_, span⟩ := token
  obtain ⟨symbol, rfl, spelled⟩ := names
  rw [List.take_of_length_le short] at spelled
  let named (current : State) : Prop :=
    current.Meets [.opener true heredoc] heredoc.body 0 [] ∧ state.Builds 0 current
  let valued (target value : NodeId) (current : State) : Prop :=
    current.arena.Shaped target (.named .localVariable symbol) ∧
      (∃ start, current.AtLineEnd [⟨heredoc, start, value⟩]) ∧ state.Builds 2 current
  apply operand_assigns named valued ahead
  · intro table
    refine (peekKind_lexeme meets.taken rfl).mono ?_
    rintro _ after ⟨⟨_, mark⟩, rfl, seen, rfl, ⟨start, meets⟩, -, looked⟩
    have passed : state.Builds 0 { state with lookahead := none, previousStop := span.stop } :=
      .of_same rfl rfl rfl rfl rfl
    have moved : state.Builds 0 after := passed.trans looked
    have roomy : after.Room 3 := room.after moved.toGains
    exact ⟨rfl, ⟨mark, seen⟩, meets.free, roomy.of_le (by decide), meets, moved⟩
  · rintro current stop scopes target after ⟨meets, moved⟩ stores
    have passed : current.Builds 0 { current with lookahead := none, previousStop := stop, scopes } :=
      .of_same rfl rfl rfl rfl rfl
    have builds : state.Builds 1 after := moved.trans (passed.trans stores.builds)
    have roomy : after.Room 2 := room.after builds.toGains
    have deep : after.depth < after.limits.maxDepth := by
      rw [builds.depth, builds.limits]
      exact shallow
    have next : after.Meets [.opener true heredoc] heredoc.body 0 [] := by
      obtain ⟨⟨arena, rfl⟩, -, -, -, free⟩ := stores
      exact ⟨meets.between, meets.sound, meets.text, meets.fits, free, meets.unlabelled⟩
    have unseen : after.lookahead = none := by
      obtain ⟨⟨arena, rfl⟩, -⟩ := stores
      rfl
    refine (assignedValue_heredoc next unseen (roomy.of_le (by decide)) deep).mono ?_
    rintro value reached ⟨⟨⟨start, ended⟩, read⟩, unlabelled, following⟩
    have left : reached.Room 1 := roomy.after read.toGains
    exact ⟨⟨ended.free, left, read.shaped stores.stored, ⟨start, ended⟩, builds.trans read⟩,
      unlabelled, following⟩
  · rintro target value current id after ⟨named, ⟨start, ended⟩, builds⟩ stores
    have whole : state.Builds 3 after := builds.trans stores.builds
    exact ⟨[⟨heredoc, start, value⟩], ⟨rfl, ended.stored stores, whole⟩, target, value, symbol,
      rfl, stores.stored, stores.builds.shaped named, whole.spells spelled⟩

theorem statement_heredoc {name : VariableName}
    (ahead : state.lookahead = some token) (names : (Lexeme.name name).Names state token.kind)
    (meets : state.Meets [.assign, .opener true heredoc] heredoc.body 0 [])
    (short : name.text.length ≤ state.limits.tokenMax) (room : state.Room 3)
    (shallow : state.depth + 2 ≤ state.limits.maxDepth) :
    Succeeds (Parse.table depth) statement state (Closed fun id after =>
      ∃ placeholders, LineEnded state [heredoc] 3 placeholders after ∧
        AssignmentStored name placeholders id after) := by
  have opens : token.kind.opensOperand = true := by
    obtain ⟨symbol, same, -⟩ := names
    rw [same]
    rfl
  have inside : state.depth < state.limits.maxDepth := Nat.lt_of_succ_lt shallow
  let deeper : State := { state with depth := state.depth + 1 }
  have read : ∀ depth, Succeeds (Parse.table depth) (operand .accepted) deeper
      (ClosedOperand fun id after => ∃ placeholders,
        LineEnded deeper [heredoc] 3 placeholders after ∧
          AssignmentStored name placeholders id after) :=
    fun _ => operand_heredoc ahead names meets.deeper short room shallow
  apply statement_closed ahead opens
  refine fun _ => negation_closed ahead opens fun depth =>
    argumentOperand_closed ahead opens inside ((read depth).mono ?_)
  intro operand after closed
  exact closed.mono fun id ⟨placeholders, line, parts⟩ => ⟨placeholders, line.shallower, parts⟩

end Parse

def assignmentLine (name : VariableName) (heredoc : RawHeredoc) : List Lexeme :=
  [.name name, .assign, .opener true heredoc]

theorem assignmentLine_fits (name : VariableName) (heredoc : RawHeredoc) {tokenMax : Nat}
    (short : name.text.length ≤ tokenMax) (tail : Bytes) :
    Lexeme.Fits tokenMax tail (assignmentLine name heredoc) .begin := by
  refine ⟨⟨rfl, _, _, rfl, rfl⟩, short, ?_⟩
  rintro operand ⟨-, callable⟩
  refine ⟨⟨callable, _, rfl⟩, trivial, ?_⟩
  rintro _ rfl
  refine ⟨rfl, trivial, ?_⟩
  rintro _ rfl
  rfl

/-- A heredoc that is assigned to a variable is its value. -/
theorem parse_assignment (name : VariableName) (heredoc : RawHeredoc) (options : ParseOptions)
    (symbols : SymbolTable) (named : name.text.length ≤ options.tokenMax)
    (short : heredoc.Short options.tokenMax) (shallow : 2 ≤ options.maxDepth)
    (room : 4 ≤ options.maxNodes) :
    let parsed := parse (Lexeme.textOf (assignmentLine name heredoc) ++ 0x0A :: heredoc.body)
      options symbols
    parsed.Clean ∧ ∃ id target value symbol, parsed.statements? = some [id] ∧
      parsed.arena.Shaped id (.binary .assign target value) ∧
      parsed.arena.Shaped target (.named .localVariable symbol) ∧
      parsed.symbols.Spells symbol name.text ∧
      parsed.arena.Shaped value (.text .string heredoc.value) := by
  intro parsed
  have kept : ∀ other ∈ [heredoc], other.Short options.tokenMax := by
    intro other member
    rw [List.mem_singleton.mp member]
    exact short
  obtain ⟨clean, id, placeholders, line, opened, ⟨target, value, symbol, node, joined, named,
    spelled⟩, statements, completes⟩ :=
    parse_line (assignmentLine_fits name heredoc named _) named shallow
      (fun depth token current ahead names meets short room shallow =>
        Parse.statement_heredoc ahead names meets short room shallow)
      (fun placeholders id after ⟨target, value, symbol, _, joined, _⟩ =>
        ⟨_, joined, nofun, nofun⟩) kept room
  refine ⟨clean, id, target, value, symbol, statements, completes.kept _ _ joined nofun,
    completes.kept _ _ named nofun, completes.symbols ▸ spelled, ?_⟩
  obtain ⟨placeholder, rfl, rfl⟩ := List.map_eq_singleton_iff.mp opened
  obtain rfl : placeholder.node = value := List.singleton_inj.mp node
  exact completes.filled placeholder (List.mem_singleton_self _)

/-! ### Indentation -/

def indentedHeredoc (lines : List Bytes) (whole : ∀ line ∈ lines, 0x0A ∉ line)
    (inner : ∀ line ∈ lines,
      line.dropWhile Margin.isBlank ≠ ascii "EOS" ∧
        line.dropWhile Margin.isBlank ≠ ascii "EOS\r") : RawHeredoc where
  delimiter := ascii "EOS"
  dedented := true
  lines := lines
  quotable := by decide +kernel
  whole := whole
  inner line member := by
    have ending : ascii "EOS\r" = ascii "EOS" ++ [0x0D] := by decide
    have other := inner line member
    rw [ending] at other
    simpa [RawHeredoc.closes] using other
  reached := by decide

/-- The margin of an indented heredoc is taken off its lines. The margin is the least
column that the blanks of a line reach, of all lines that hold more than blanks and a
carriage return; each line loses the longest row of blanks within it, and if all lines are
empty they stay as they are. The limits need room for the name of one letter, two levels
of nesting and the nodes of the program, the assignment and its two sides. -/
theorem parse_strips_indentation (lines : List Bytes) (options : ParseOptions)
    (symbols : SymbolTable) (whole : ∀ line ∈ lines, 0x0A ∉ line)
    (short : ∀ line ∈ lines, line.length < options.tokenMax - 1)
    (inner : ∀ line ∈ lines,
      line.dropWhile Margin.isBlank ≠ ascii "EOS" ∧
        line.dropWhile Margin.isBlank ≠ ascii "EOS\r")
    (named : 0 < options.tokenMax) (shallow : 2 ≤ options.maxDepth)
    (room : 4 ≤ options.maxNodes) :
    let parsed := parse
      (ascii "x = <<~'EOS'\n" ++ lines.flatMap (· ++ [0x0A]) ++ ascii "EOS\n") options symbols
    parsed.Clean ∧ ∃ id target value symbol, parsed.statements? = some [id] ∧
      parsed.arena.Shaped id (.binary .assign target value) ∧
      parsed.arena.Shaped target (.named .localVariable symbol) ∧
      parsed.symbols.Spells symbol (ascii "x") ∧
      parsed.arena.Shaped value (.text .string
        ((Margin.stripAll lines).flatMap (· ++ [0x0A]))) := by
  have source : ascii "x = <<~'EOS'\n" ++ lines.flatMap (· ++ [0x0A]) ++ ascii "EOS\n" =
      Lexeme.textOf (assignmentLine ⟨ascii "x", rfl⟩ (indentedHeredoc lines whole inner)) ++
        0x0A :: (indentedHeredoc lines whole inner).body := by
    have first : ascii "x = <<~'EOS'\n" = Lexeme.textOf
        (assignmentLine ⟨ascii "x", rfl⟩ (indentedHeredoc lines whole inner)) ++ [0x0A] := by
      change _ = ascii "x" ++ ([0x20, 0x3D] ++
        ([0x20] ++ (ascii "<<~'" ++ ascii "EOS" ++ ascii "'") ++ [])) ++ [0x0A]
      decide
    have last : ascii "EOS\n" = ascii "EOS" ++ [0x0A] := by decide
    rw [first, last]
    simp [RawHeredoc.body, indentedHeredoc]
  rw [source]
  refine parse_assignment _ _ options symbols named ?_ shallow room
  intro line member
  have within := short line member
  omega

/-- The first line sets a margin of four columns. The tab of the second reaches beyond it,
the third line does not count, and two blanks of the fourth are kept. -/
theorem parse_strips_indentation_tabs :
    let lines := [ascii "    first", ascii "\tsecond", ascii "", ascii "      third\r"]
    let options : ParseOptions := {}
    (∀ line ∈ lines, 0x0A ∉ line) ∧ (∀ line ∈ lines, line.length < options.tokenMax - 1) ∧
      (∀ line ∈ lines, line.dropWhile Margin.isBlank ≠ ascii "EOS" ∧
        line.dropWhile Margin.isBlank ≠ ascii "EOS\r") ∧
      0 < options.tokenMax ∧ 2 ≤ options.maxDepth ∧ 4 ≤ options.maxNodes ∧
      Margin.stripAll lines = [ascii "first", ascii "\tsecond", ascii "", ascii "  third\r"] ∧
      let parsed := parse
        (ascii "x = <<~'EOS'\n" ++ lines.flatMap (· ++ [0x0A]) ++ ascii "EOS\n") options {}
      parsed.Clean ∧ ∃ id target value symbol, parsed.statements? = some [id] ∧
        parsed.arena.Shaped id (.binary .assign target value) ∧
        parsed.arena.Shaped target (.named .localVariable symbol) ∧
        parsed.symbols.Spells symbol (ascii "x") ∧
        parsed.arena.Shaped value (.text .string
          ((Margin.stripAll lines).flatMap (· ++ [0x0A]))) := by
  intro lines options
  have whole : ∀ line ∈ lines, 0x0A ∉ line := by decide
  have short : ∀ line ∈ lines, line.length < options.tokenMax - 1 := by decide
  have inner : ∀ line ∈ lines, line.dropWhile Margin.isBlank ≠ ascii "EOS" ∧
      line.dropWhile Margin.isBlank ≠ ascii "EOS\r" := by decide
  exact ⟨whole, short, inner, by decide, by decide, by decide, by decide,
    parse_strips_indentation lines options {} whole short inner (by decide) (by decide)
      (by decide)⟩

end RubySyntax
