/-
Programs that define a method with a list of parameters.

The list is accepted exactly where the forms of its parameters are in the order of the grammar.
Then the parts of the list, one after the other, are the parameters as they were written, and so
are the variables of the method.
-/

import RubySyntax.Proofs.Parameters.Definition

namespace RubySyntax

/-! ### The text -/

def methodSource (name : VariableName) (parameters : List WrittenParameter) : Bytes :=
  ascii "def " ++ name.text ++ ascii "(" ++
    (ascii ", ").intercalate (parameters.map WrittenParameter.text) ++ ascii ")\nend"

namespace WrittenParameter

def methodWords (name : VariableName) (parameters : List WrittenParameter) : List Word :=
  .defWord :: .name true name :: .openParen ::
    (listWords false parameters ++ [.closeParen, .lineFeed, .endWord])

theorem textOf_words (blank : Bool) (parameter : WrittenParameter) :
    Word.textOf (parameter.words blank) = Word.blanks blank ++ parameter.text := by
  obtain ⟨form, name⟩ := parameter
  cases form <;> simp only [words, text, Word.textOf_cons, Word.textOf_nil, Word.text,
    List.append_assoc, List.append_nil] <;> rfl

theorem textOf_methodWords (name : VariableName) (parameters : List WrittenParameter) :
    Word.textOf (methodWords name parameters) = methodSource name parameters := by
  have list : Word.textOf (listWords false parameters) =
      (ascii ", ").intercalate (parameters.map text) := by
    cases parameters with
    | nil => rfl
    | cons parameter more => exact Word.textOf_commaList textOf_words false parameter more
  simp only [methodWords, methodSource, Word.textOf_cons, Word.textOf_append, list,
    List.append_assoc]
  rfl

/-! ### How it is read -/

variable {tokenMax nesting : Nat} {next : Word} {more : List Word}

/-- A parameter is read as it should be before a comma or the closing parenthesis. -/
theorem words_fit (blank : Bool) (parameter : WrittenParameter)
    (ends : next = .comma ∨ next = .closeParen)
    (short : parameter.name.text.length ≤ tokenMax)
    (later : Word.Fits tokenMax next.leaves (next.nests nesting) more) :
    Word.Fits tokenMax .operand nesting (parameter.words blank ++ next :: more) := by
  obtain ⟨stop, others, follows, stops, colon, figure⟩ : ∃ stop others,
      Word.textOf (next :: more) = stop :: others ∧ stop.endsName = true ∧
        (stop.char == ':') = false ∧ stop.endsNumber = true := by
    rcases ends with rfl | rfl
    · exact ⟨0x2C, Word.textOf more, rfl, rfl, by decide, rfl⟩
    · exact ⟨0x29, Word.textOf more, rfl, rfl, by decide, rfl⟩
  have always (place : Place) : Word.Fits tokenMax place nesting (next :: more) := by
    rcases ends with rfl | rfl
    · exact ⟨trivial, trivial, later⟩
    · exact ⟨trivial, trivial, later⟩
  obtain ⟨form, name⟩ := parameter
  have named (blank : Bool) : Word.Fits tokenMax .operand nesting
      (.name blank name :: next :: more) :=
    ⟨⟨nofun, stop, others, follows, stops⟩, short, always _⟩
  have valued : Word.Fits tokenMax .operand nesting (.number 1 :: next :: more) :=
    ⟨.inr ⟨stop, others, follows, figure⟩, trivial, always _⟩
  have gathered (mark : GatherMark) : Word.Fits tokenMax .operand nesting
      (.gather blank mark :: .name false name :: next :: more) :=
    Word.gather_fit blank mark (.inr rfl) (named false)
  cases form with
  | plain => exact named blank
  | optional =>
      exact ⟨⟨nofun, 0x20, _, rfl, rfl⟩, short, ⟨rfl, _, rfl⟩, trivial, valued⟩
  | rest => exact gathered .star
  | requiredKeyword =>
      refine ⟨⟨rfl, ?_⟩, short, always _⟩
      change (((Word.textOf (next :: more)).headD 0).char == ':') = false
      rw [follows]
      exact colon
  | optionalKeyword => exact ⟨⟨rfl, show (Byte.char 0x20 == ':') = false by decide⟩, short, valued⟩
  | keywordRest => exact gathered .doubleStar
  | block => exact gathered .ampersand

theorem listWords_fit (blank : Bool) (parameters : List WrittenParameter)
    (short : ∀ parameter ∈ parameters, parameter.name.text.length ≤ tokenMax)
    (later : Word.Fits tokenMax .after (nesting - 1) more) :
    Word.Fits tokenMax .operand nesting (listWords blank parameters ++ .closeParen :: more) := by
  cases parameters with
  | nil => exact ⟨trivial, trivial, later⟩
  | cons parameter others =>
      exact Word.commaList_fit blank parameter others later fun blank parameter member _ _ ends =>
        words_fit blank parameter (ends.imp_right And.left) (short parameter member)

theorem methodWords_fit (name : VariableName) (parameters : List WrittenParameter)
    (named : name.text.length ≤ tokenMax)
    (short : ∀ parameter ∈ parameters, parameter.name.text.length ≤ tokenMax) :
    Word.Fits tokenMax .statement 0 (methodWords name parameters) := by
  have ends : Word.Fits tokenMax .after 0 [.lineFeed, .endWord] :=
    ⟨⟨rfl, rfl⟩, trivial, ⟨rfl, rfl⟩, trivial, .inr rfl, rfl⟩
  exact ⟨⟨rfl, _, rfl⟩, trivial, ⟨nofun, 0x28, _, rfl, rfl⟩, named, rfl, trivial,
    listWords_fit false parameters short ends⟩

end WrittenParameter

/-! ### The statement -/

namespace Parse

variable {table : RuleTable} {depth constructs : Nat} {state : State} {name : VariableName}
  {parameters : List WrittenParameter}

theorem primary_method
    (ahead : state.Ahead (WrittenParameter.methodWords name parameters) constructs)
    (distinct : (parameters.map (·.name.text)).Nodup)
    (room : state.Room (2 * parameters.length + 3))
    (shallow : ∀ parameter ∈ parameters, parameter.hasDefault = true →
      state.depth < state.limits.maxDepth) :
    Succeeds (Parse.table depth) primary state fun operand after => ∃ id, operand = .node id ∧
      after.Ahead [] constructs ∧ ∃ items, MethodRead state name parameters items id after := by
  refine (peekToken_word ahead).bind ?_
  rintro ⟨_, span⟩ peeked ⟨seen, rfl, ahead, looked⟩
  have construct : Succeeds (Parse.table depth) (wordConstruct? .defWord) peeked fun found after =>
      ∃ id, found = some id ∧ after.Ahead [] constructs ∧
        ∃ items, MethodRead state name parameters items id after := by
    refine (methodDefinition_read ahead seen distinct (looked.room room)
      fun parameter member given => looked.shallow (shallow parameter member given)).bind ?_
    rintro id after ⟨ahead, items, read⟩
    exact yields_pure ⟨id, rfl, ahead, items, read.since looked⟩
  have node : Succeeds (Parse.table depth) (primaryNode ⟨.keyword .defWord, span⟩) peeked
      fun id after => after.Ahead [] constructs ∧
        ∃ items, MethodRead state name parameters items id after := by
    refine construct.bind ?_
    rintro _ after ⟨id, rfl, read⟩
    exact yields_pure read
  have noAtom : Succeeds (Parse.table depth) (atomShape? ⟨.keyword .defWord, span⟩) peeked
      fun shape after => shape = none ∧ after = peeked := yields_pure ⟨rfl, rfl⟩
  refine noAtom.bind ?_
  rintro _ _ ⟨rfl, rfl⟩
  refine node.bind ?_
  intro id after read
  exact yields_pure ⟨id, rfl, read⟩

theorem statement_method {before : State} {token : Token} (begun : before.Adds 0 0 [] state)
    (ahead : state.Ahead (WrittenParameter.methodWords name parameters))
    (seen : state.lookahead = some token) (opens : token.kind.opensOperand = true)
    (distinct : (parameters.map (·.name.text)).Nodup)
    (room : state.Room (2 * parameters.length + 3))
    (shallow : state.depth < state.limits.maxDepth)
    (deep : ∀ parameter ∈ parameters, parameter.hasDefault = true →
      state.depth + 1 < state.limits.maxDepth) :
    Succeeds (Parse.table depth) statement state (Closed fun id after =>
      after.Ahead [] ∧ (∃ token, after.lookahead = some token ∧ token.kind = .endOfInput) ∧
        ∃ items, MethodRead before name parameters items id after) := by
  refine statement_closed seen opens fun depth => negation_closed seen opens fun depth =>
    argumentOperand_closed seen opens shallow (operand_closed fun depth => ?_)
  have inner : State.Ahead { state with depth := state.depth + 1 }
      (WrittenParameter.methodWords name parameters) :=
    ahead.alike rfl rfl rfl rfl rfl ahead.free rfl
  refine chain_closed (primary_method inner distinct room deep) ?_
  rintro id current ⟨ahead, items, read⟩
  refine (peekToken_last ahead).bind ?_
  rintro token after ⟨seen, kind, ahead, looked⟩
  exact yields_pure ⟨token, rfl, seen, kind ▸ rfl, ahead.unlabelled,
    ahead.alike rfl rfl rfl rfl rfl ahead.free rfl, ⟨token, seen, kind⟩, items,
    (read.later looked).shallower.since begun⟩

theorem statements_method (ahead : state.Ahead (WrittenParameter.methodWords name parameters))
    (distinct : (parameters.map (·.name.text)).Nodup)
    (room : state.Room (2 * parameters.length + 4))
    (shallow : state.depth < state.limits.maxDepth)
    (deep : ∀ parameter ∈ parameters, parameter.hasDefault = true →
      state.depth + 1 < state.limits.maxDepth) :
    Succeeds (Parse.table depth) statements state fun body after =>
      (∃ read, after.arena.Sequence read body ∧ ∃ id items, read = [id] ∧
        MethodRead state name parameters items id after) ∧ after.Finished := by
  have peeks : Succeeds (Parse.table depth) peekKind state fun kind after => ∃ token,
      kind = token.kind ∧ kind.opensOperand = true ∧ after.lookahead = some token ∧
        after.Ahead (WrittenParameter.methodWords name parameters) ∧ state.Adds 0 0 [] after := by
    refine (peekKind_word ahead).mono ?_
    rintro _ after ⟨token, rfl, seen, kind, ahead, looked⟩
    rw [show token.kind = .keyword .defWord from kind]
    exact ⟨token, kind.symm, rfl, seen, ahead, looked⟩
  refine (statements_of_closed peeks (fun token current seen opens started =>
    statement_method started.2 started.1 seen opens distinct
      (started.2.room (room.of_le (Nat.le_succ _))) (started.2.shallow shallow) ?_) ?_).mono ?_
  · rw [started.2.depth, started.2.limits]
    exact deep
  · rintro id after ⟨-, ⟨token, seen, kind⟩, -⟩
    exact ⟨token, seen, kind ▸ rfl, kind ▸ rfl⟩
  rintro _ after ⟨id, rfl, ahead, ended, items, read⟩
  refine ⟨⟨[id], rfl, id, items, rfl, read⟩, ended, ahead.free, ?_⟩
  refine (room.of_le ?_).after read.adds.toGains
  exact Nat.add_le_add_right (WrittenParameter.formalsNodes_le parameters) 3

end Parse

/-! ### The program -/

/-- A node of a parse is a method without statements. The parts of its list of parameters, one
after the other, and the variables of its scope are given in pairs, one for each parameter. -/
structure Parsed.Method (parsed : Parsed) (name : VariableName)
    (parameters : List WrittenParameter) (items : List (Symbol × NodeId)) (id : NodeId) :
    Prop where
  method : ∃ symbol list scope, parsed.symbols.Spells symbol name.text ∧
    parsed.arena.Shaped id (.method symbol list scope) ∧
    parsed.arena.Shaped scope (.scope (items.map Prod.fst) none) ∧
    parsed.arena.Formals list (items.map Prod.snd)
  stored : parameters.Forall₂ (fun parameter item =>
    parameter.Stored parsed.arena parsed.symbols item.1 item.2) items

/-- Each parameter that comes too late is one error. If none does, the method is read as it was
written. -/
theorem parse_method (name : VariableName) (parameters : List WrittenParameter)
    (options : ParseOptions) (symbols : SymbolTable)
    (distinct : (parameters.map (·.name.text)).Nodup)
    (named : name.text.length ≤ options.tokenMax)
    (short : ∀ parameter ∈ parameters, parameter.name.text.length ≤ options.tokenMax)
    (shallow : 0 < options.maxDepth)
    (deep : ∀ parameter ∈ parameters, parameter.hasDefault = true → 1 < options.maxDepth)
    (room : 2 * parameters.length + 4 ≤ options.maxNodes) :
    let parsed := parse (methodSource name parameters) options symbols
    let misplaced := ParameterForm.misplaced .required (parameters.map (·.form))
    parsed.fatal = none ∧ parsed.report.errors = misplaced ∧ (misplaced = 0 → parsed.Clean ∧
      ∃ id items, parsed.statements? = some [id] ∧
        parsed.Method name parameters items id) := by
  rw [← WrittenParameter.textOf_methodWords]
  dsimp only
  have ahead : (State.start (Word.textOf (WrittenParameter.methodWords name parameters)) options
      symbols).Ahead (WrittenParameter.methodWords name parameters) :=
    State.start_ahead symbols (WrittenParameter.methodWords_fit name parameters named short)
  have space : (State.start (Word.textOf (WrittenParameter.methodWords name parameters)) options
      symbols).Room (2 * parameters.length + 4) := State.start_room room
  have single : ∀ item after, (∃ id items, [item] = [id] ∧ MethodRead (State.start (Word.textOf
      (WrittenParameter.methodWords name parameters)) options symbols) name parameters items id
      after) → ∃ shape, after.arena.Shaped item shape ∧
        ∀ others, shape ≠ .list .statements others := by
    rintro item after ⟨id, items, same, read⟩
    obtain rfl := (List.cons.inj same).1
    obtain ⟨symbol, list, scope, -, method, -⟩ := read.method
    exact ⟨_, method, nofun⟩
  obtain ⟨fatal, _, middle, after, ⟨id, items, rfl, read⟩, builds, report, -, statements, arena,
    names⟩ := parse_of_row
      (fun _ => Parse.statements_method ahead distinct space shallow deep) single
  have errors : middle.report.errors = ParameterForm.misplaced .required (parameters.map (·.form)) :=
    read.adds.errors.trans (Nat.zero_add _)
  refine ⟨fatal, report ▸ errors, fun ordered => ⟨.of_quiet fatal (report.trans
    (read.adds.quiet ordered)), id, items, statements, ?_⟩⟩
  have gains := builds.toGains
  obtain ⟨symbol, list, scope, spelled, method, inner, formals⟩ := read.method
  constructor
  · rw [arena, names]
    exact ⟨symbol, list, scope, gains.spells spelled, gains.shaped method, gains.shaped inner,
      (formals ordered).kept gains⟩
  · rw [arena, names]
    exact read.stored.imp fun _ _ stored => stored.kept gains

/-- A list of parameters is accepted exactly if the forms of the parameters are in the order of the
grammar. Then the parts of the list, one after the other, and the variables of the method are the
parameters in the order in which they were written. -/
theorem parse_method_clean_iff (name : VariableName) (parameters : List WrittenParameter)
    (options : ParseOptions) (symbols : SymbolTable)
    (distinct : (parameters.map (·.name.text)).Nodup)
    (named : name.text.length ≤ options.tokenMax)
    (short : ∀ parameter ∈ parameters, parameter.name.text.length ≤ options.tokenMax)
    (shallow : 0 < options.maxDepth)
    (deep : ∀ parameter ∈ parameters, parameter.hasDefault = true → 1 < options.maxDepth)
    (room : 2 * parameters.length + 4 ≤ options.maxNodes) :
    let parsed := parse (methodSource name parameters) options symbols
    (parsed.Clean ↔ parameters.map (·.form) ∈ ParameterForm.grammar.matches') ∧
    (parsed.Clean → ∃ id items, parsed.statements? = some [id] ∧
      parsed.Method name parameters items id ∧
      (items.map Prod.fst).map parsed.symbols.name = parameters.map (·.name.text)) := by
  dsimp only
  obtain ⟨-, errors, accepted⟩ := parse_method name parameters options symbols distinct named
    short shallow deep room
  have ordered : (parse (methodSource name parameters) options symbols).Clean →
      ParameterForm.misplaced .required (parameters.map (·.form)) = 0 :=
    fun clean => errors.symm.trans clean.errors
  refine ⟨?_, fun clean => ?_⟩
  · rw [← ParameterForm.misplaced_required]
    exact ⟨ordered, fun none => (accepted none).1⟩
  · obtain ⟨-, id, items, statements, method⟩ := accepted (ordered clean)
    exact ⟨id, items, statements, method, WrittenParameter.names_of_stored method.stored⟩

/-- A list with every form: `def f(a, b = 1, *c, d, e:, g: 1, **h, &i)`. -/
theorem parse_method_every_form :
    let name : VariableName := ⟨ascii "f", by decide⟩
    let parameters : List WrittenParameter := [⟨.plain, ascii "a", by decide⟩,
      ⟨.optional, ascii "b", by decide⟩, ⟨.rest, ascii "c", by decide⟩,
      ⟨.plain, ascii "d", by decide⟩, ⟨.requiredKeyword, ascii "e", by decide⟩,
      ⟨.optionalKeyword, ascii "g", by decide⟩, ⟨.keywordRest, ascii "h", by decide⟩,
      ⟨.block, ascii "i", by decide⟩]
    let parsed := parse (methodSource name parameters) {} {}
    methodSource name parameters = ascii "def f(a, b = 1, *c, d, e:, g: 1, **h, &i)\nend" ∧
      parsed.Clean ∧
      parsed.tree.map parsed.dumpAt = some (.ok ("(scope [] (def f (args (arg a) " ++
        "(optarg b (int 1)) (restarg c) (arg d) (kwarg e) (kwarg g (int 1)) (kwrest h) " ++
        "(blockarg i)) (scope [a b c d e g h i])))")) ∧
      ∃ id items, parsed.statements? = some [id] ∧ parsed.Method name parameters items id ∧
        (items.map Prod.fst).map parsed.symbols.name = [ascii "a", ascii "b", ascii "c", ascii "d",
          ascii "e", ascii "g", ascii "h", ascii "i"] := by
  intro name parameters parsed
  have distinct : (parameters.map (·.name.text)).Nodup := by decide
  have short : ∀ parameter ∈ parameters, parameter.name.text.length ≤ 65536 := by
    simp [parameters, ascii]
  have ordered : parameters.map (·.form) ∈ ParameterForm.grammar.matches' :=
    (ParameterForm.misplaced_required _).mp (by decide)
  have whole := parse_method_clean_iff name parameters {} {} distinct (by decide) short
    (by decide) (fun _ _ _ => by decide) (by decide)
  have clean := whole.1.mpr ordered
  exact ⟨by decide, clean, by decide +kernel, whole.2 clean⟩

/-- A name that is too long to be kept is reported on, whatever the form of its parameter. -/
theorem parse_method_truncated :
    let name : VariableName := ⟨ascii "f", by decide⟩
    let parameters : List WrittenParameter := [⟨.plain, ascii "ab", by decide⟩]
    methodSource name parameters = ascii "def f(ab)\nend" ∧
      parameters.map (·.form) ∈ ParameterForm.grammar.matches' ∧
      ¬(parse (methodSource name parameters) { tokenMax := 1 } {}).Clean := by
  intro name parameters
  have text : methodSource name parameters = ascii "def f(ab)\nend" := by decide
  have warned : (parse (ascii "def f(ab)\nend") { tokenMax := 1 } {}).report.warnings = 1 := by
    decide +kernel
  refine ⟨text, (ParameterForm.misplaced_required _).mp (by decide), fun clean => ?_⟩
  rw [text] at clean
  have none := clean.warnings
  rw [warned] at none
  cases none

end RubySyntax
