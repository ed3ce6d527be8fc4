/-
Definitions of methods with a list of parameters and no statements.

The variables of the method are those of the scope that is entered with it, which are left
again at its end: outside nothing has been declared.
-/

import RubySyntax.Proofs.Parameters.List

namespace RubySyntax

/-! ### Scopes -/

/-- What is added inside a scope is added outside without its names. -/
theorem State.Adds.scoped {before after : State} {kind : ScopeKind} {nodes reported : Nat}
    {names : List Symbol} (distinct : names.Nodup)
    (adds : State.Adds { before with scopes := before.scopes.push kind } nodes reported names
      after) :
    after.scopes.pop = (names, before.scopes) ∧
      before.Adds nodes reported [] { after with scopes := before.scopes } := by
  constructor
  · rw [adds.scopes]
    dsimp only
    rw [ScopeStack.foldl_declare_fresh names (before.scopes.push kind) distinct]
    rfl
  · exact ⟨⟨⟨adds.nodes, adds.names, adds.errors⟩, adds.live, adds.limit, adds.limits,
      adds.depth⟩, adds.quiet, rfl, adds.source⟩

/-- What rules note between two tokens is of no account. -/
theorem State.Adds.noted (state : State) (lexer : LexerState) :
    state.Adds 0 0 [] { state with lexer } :=
  .of_same rfl rfl rfl rfl rfl rfl rfl

structure MethodScopeRead (before : State) (parameters : List WrittenParameter)
    (items : List (Symbol × NodeId)) (list : Option NodeId) (scope : NodeId) (after : State) :
    Prop where
  scope : after.arena.Shaped scope (.scope (items.map Prod.fst) none)
  formals : ParameterForm.misplaced .required (parameters.map (·.form)) = 0 →
    after.arena.Formals list (items.map Prod.snd)
  stored : parameters.Forall₂ (fun parameter item =>
    parameter.Stored after.arena after.symbols item.1 item.2) items
  adds : before.Adds (WrittenParameter.formalsNodes parameters + 1)
    (ParameterForm.misplaced .required (parameters.map (·.form))) [] after

theorem MethodScopeRead.later {before middle after : State} {parameters : List WrittenParameter}
    {items : List (Symbol × NodeId)} {list : Option NodeId} {scope : NodeId}
    (read : MethodScopeRead before parameters items list scope middle)
    (passed : middle.Adds 0 0 [] after) : MethodScopeRead before parameters items list scope after :=
  ⟨passed.shaped read.scope, fun ordered => (read.formals ordered).kept passed.toGains,
    read.stored.imp fun _ _ stored => stored.kept passed.toGains, read.adds.later passed⟩

structure MethodRead (before : State) (name : VariableName) (parameters : List WrittenParameter)
    (items : List (Symbol × NodeId)) (id : NodeId) (after : State) : Prop where
  method : ∃ symbol list scope, after.symbols.Spells symbol name.text ∧
    after.arena.Shaped id (.method symbol list scope) ∧
    after.arena.Shaped scope (.scope (items.map Prod.fst) none) ∧
    (ParameterForm.misplaced .required (parameters.map (·.form)) = 0 →
      after.arena.Formals list (items.map Prod.snd))
  stored : parameters.Forall₂ (fun parameter item =>
    parameter.Stored after.arena after.symbols item.1 item.2) items
  adds : before.Adds (WrittenParameter.formalsNodes parameters + 2)
    (ParameterForm.misplaced .required (parameters.map (·.form))) [] after

namespace MethodRead

variable {before middle after : State} {name : VariableName} {parameters : List WrittenParameter}
  {items : List (Symbol × NodeId)} {id : NodeId}

theorem since (read : MethodRead middle name parameters items id after)
    (passed : before.Adds 0 0 [] middle) : MethodRead before name parameters items id after :=
  ⟨read.method, read.stored, read.adds.since passed⟩

theorem later (read : MethodRead before name parameters items id middle)
    (passed : middle.Adds 0 0 [] after) : MethodRead before name parameters items id after := by
  obtain ⟨symbol, list, scope, spelled, method, inner, formals⟩ := read.method
  exact ⟨⟨symbol, list, scope, passed.spells spelled, passed.shaped method, passed.shaped inner,
    fun ordered => (formals ordered).kept passed.toGains⟩,
    read.stored.imp fun _ _ stored => stored.kept passed.toGains, read.adds.later passed⟩

theorem shallower
    (read : MethodRead { before with depth := before.depth + 1 } name parameters items id after) :
    MethodRead before name parameters items id { after with depth := after.depth - 1 } :=
  ⟨read.method, read.stored, read.adds.shallower⟩

end MethodRead

namespace Parse

variable {table : RuleTable} {depth constructs : Nat} {state : State} {words : List Word}
  {name : VariableName} {parameters : List WrittenParameter} {token : Token}

theorem methodHead_name (ahead : state.Ahead (.name true name :: .openParen :: words) constructs) :
    Succeeds table methodHead state fun head after => ∃ symbol, head = (none, symbol) ∧
      after.symbols.Spells symbol name.text ∧ after.Ahead (.openParen :: words) constructs ∧
        state.Adds 0 0 [] after := by
  refine (peekKind_word ahead).bind ?_
  rintro _ peeked ⟨⟨_, span⟩, rfl, seen, ⟨symbol, rfl, spelled, -⟩, ahead, looked⟩
  rw [show TokenKind.isLeftParen (.identifier symbol) = false from rfl, if_neg Bool.false_ne_true]
  have named : Succeeds table methodName peeked fun named after => named = (span, symbol) ∧
      after.Ahead (.openParen :: words) constructs ∧ peeked.Adds 0 0 [] after := by
    refine Yields.peek_bind seen ?_
    refine Yields.skip_word ahead seen fun after _ ahead passed => ?_
    exact yields_pure ⟨rfl, ahead, passed⟩
  refine named.bind ?_
  rintro _ current ⟨rfl, ahead, passed⟩
  refine (peekKind_word ahead).bind ?_
  rintro _ after ⟨token, rfl, -, kind, ahead, looks⟩
  rw [show token.kind = .punct .callParen from kind]
  have whole := passed.later looks
  exact yields_pure ⟨symbol, rfl, whole.spells spelled, ahead, whole.since looked⟩

theorem methodParameters_read
    (ahead : state.Ahead (.openParen :: (WrittenParameter.listWords false parameters ++
      .closeParen :: words)) constructs)
    (unknown : state.scopes.locals = []) (distinct : (parameters.map (·.name.text)).Nodup)
    (room : state.Room (2 * parameters.length + 1))
    (shallow : ∀ parameter ∈ parameters, parameter.hasDefault = true →
      state.depth < state.limits.maxDepth) :
    Succeeds (Parse.table depth) methodParameters state fun list after => ∃ items,
      FormalsRead state parameters items list after ∧ after.Ahead words constructs := by
  refine (peekKind_word ahead).bind ?_
  rintro _ peeked ⟨token, rfl, seen, kind, ahead, looked⟩
  rw [show token.kind = .punct .callParen from kind,
    if_pos (show TokenKind.isLeftParen (.punct .callParen) = true from rfl)]
  refine Yields.skip_word ahead seen fun opened _ ahead passed => ?_
  have begun := passed.since looked
  have unknown : opened.scopes.locals = [] := by
    rw [begun.scopes]
    exact unknown
  refine (parameters_read ahead unknown distinct (begun.room room)
    fun parameter member given => begun.shallow (shallow parameter member given)).bind ?_
  rintro list current ⟨items, read, ahead⟩
  refine (expect_word ahead fun after token announced => announced).bind ?_
  rintro close after ⟨-, ahead, passed⟩
  exact yields_pure ⟨items, (read.since begun).later passed, ahead⟩

theorem statements_empty (ahead : state.Ahead [.lineFeed, .endWord] constructs) :
    Succeeds (Parse.table depth) statements state fun body after => body = none ∧
      after.Ahead [.endWord] constructs ∧ state.Adds 0 0 [] after := by
  have list : Succeeds (Parse.table depth) statementList state fun items after => items = [] ∧
      after.Ahead [.endWord] constructs ∧ state.Adds 0 0 [] after := by
    refine Yields.bind (repeatUntil_yields
      (fun (items : Array NodeId) current => items = #[] ∧ current = state)
      (fun items after => items = #[] ∧ after.Ahead [.endWord] constructs ∧ state.Adds 0 0 [] after)
      ⟨rfl, rfl⟩ ?_) ?_
    · rintro _ current ⟨rfl, rfl⟩
      have passes : Succeeds (Parse.table depth) skipTerminators current fun _ after =>
          after.Ahead [.endWord] constructs ∧ current.Adds 0 0 [] after := by
        refine skipTerminators_lineFeed ahead fun passed ahead taken => ?_
        refine (peekKind_word ahead).mono ?_
        rintro _ after ⟨token, rfl, -, kind, ahead, looked⟩
        rw [show token.kind = .keyword .endWord from kind]
        exact ⟨rfl, ahead, taken.later looked⟩
      refine passes.bind ?_
      rintro _ passed ⟨ahead, taken⟩
      refine (peekKind_word ahead).bind ?_
      rintro _ after ⟨token, rfl, -, kind, ahead, looked⟩
      rw [show token.kind = .keyword .endWord from kind,
        if_pos (show TokenKind.endsStatements (.keyword .endWord) = true from rfl)]
      exact yields_pure ⟨rfl, ahead, taken.later looked⟩
    · rintro _ after ⟨rfl, ahead, passed⟩
      exact yields_pure ⟨rfl, ahead, passed⟩
  refine list.bind ?_
  rintro _ current ⟨rfl, ahead, passed⟩
  exact yields_pure ⟨rfl, ahead, passed⟩

theorem body_empty (ahead : state.Ahead [.lineFeed, .endWord] constructs) :
    Succeeds (Parse.table depth) body state fun inner after => inner = none ∧
      after.Ahead [.endWord] constructs ∧ state.Adds 0 0 [] after := by
  refine (descend_yields .statements (fun _ => statements_empty ahead) depth).bind ?_
  rintro _ settled ⟨rfl, ahead, passed⟩
  have clauses : Succeeds (Parse.table depth) rescueClauses settled fun clauses after =>
      clauses = [] ∧ after.Ahead [.endWord] constructs ∧ settled.Adds 0 0 [] after := by
    refine Yields.bind (repeatUntil_yields
      (fun (clauses : Array NodeId) current => clauses = #[] ∧ current = settled)
      (fun clauses after => clauses = #[] ∧ after.Ahead [.endWord] constructs ∧
        settled.Adds 0 0 [] after) ⟨rfl, rfl⟩ ?_) ?_
    · rintro _ _ ⟨rfl, rfl⟩
      refine (peekKind_word ahead).bind ?_
      rintro _ after ⟨token, rfl, -, kind, ahead, looked⟩
      rw [show token.kind = .keyword .endWord from kind, if_neg nofun]
      exact yields_pure ⟨rfl, ahead, looked⟩
    · rintro _ after ⟨rfl, ahead, looked⟩
      exact yields_pure ⟨rfl, ahead, looked⟩
  have handled : Succeeds (Parse.table depth) (handledBody none) settled fun inner after =>
      inner = none ∧ after.Ahead [.endWord] constructs ∧ settled.Adds 0 0 [] after := by
    refine clauses.bind ?_
    rintro _ current ⟨rfl, ahead, looked⟩
    refine (accept?_other ahead fun after token kind => ?_).bind ?_
    · rw [show token.kind = .keyword .endWord from kind]
      nofun
    rintro _ after ⟨rfl, -, ahead, looks⟩
    exact yields_pure ⟨rfl, ahead, looked.later looks⟩
  refine handled.bind ?_
  rintro _ current ⟨rfl, ahead, looked⟩
  refine (accept?_other ahead fun after token kind => ?_).bind ?_
  · rw [show token.kind = .keyword .endWord from kind]
    nofun
  rintro _ after ⟨rfl, -, ahead, looks⟩
  exact yields_pure ⟨rfl, ahead, (passed.later looked).later looks⟩

/-- What is read in isolation comes before the same words as it would elsewhere. -/
theorem isolated_ahead {α : Type} {step : Parse α} {rest : List Word} {inner : Nat}
    {post : α → State → Prop} (ahead : state.Ahead words constructs)
    (yields : ∀ begun, begun.Ahead words constructs → state.Adds 0 0 [] begun →
      Succeeds table step begun fun value after => after.Ahead rest inner ∧ post value after) :
    Succeeds table (isolated step) state fun value after => after.Ahead rest inner ∧
      ∃ current lexer, after = { current with lexer } ∧ post value current := by
  refine Yields.get_bind (Yields.setLexer_bind ?_)
  refine Yields.bind (yields _ (ahead.noted rfl rfl fun _ between => ?_) (.noted state _)) ?_
  · exact ⟨between.literal, between.heredocs, between.due, between.contexts, between.brackets,
      between.constructs, between.running, between.unmarked⟩
  rintro value current ⟨ahead, whole⟩
  refine Yields.setLexer_bind (yields_pure ⟨ahead.noted rfl rfl fun _ between => ?_, current, _,
    rfl, whole⟩)
  exact ⟨between.literal, between.heredocs, between.due, between.contexts, between.brackets,
    between.constructs, between.running, between.unmarked⟩

theorem leaveScope_ahead {begun : State} {kind : ScopeKind} {nodes reported : Nat}
    {names : List Symbol} (ahead : state.Ahead words constructs) (distinct : names.Nodup)
    (adds : State.Adds { begun with scopes := begun.scopes.push kind } nodes reported names state)
    (room : begun.Room (nodes + 1)) (inner : Option NodeId) (span : Span) :
    Succeeds table (liftM (Scan.leaveScope inner span)) state fun scope after =>
      after.arena.Shaped scope (.scope names inner) ∧ after.Ahead words constructs ∧
        begun.Adds (nodes + 1) reported [] after ∧
        State.Adds { state with scopes := begun.scopes } 1 0 [] after := by
  obtain ⟨popped, outside⟩ := adds.scoped distinct
  have left : State.Ahead { state with scopes := begun.scopes } words constructs :=
    ahead.alike rfl rfl rfl rfl rfl ahead.free rfl
  refine yields_lift (Scan.Yields.get_bind ?_)
  rw [popped]
  refine Scan.Yields.modify_bind ?_
  refine (Scan.alloc_succeeds left.free (room.after outside.toGains) _ span).mono ?_
  intro id after stores
  exact ⟨stores.stored, left.stored stores, outside.trans (.of_stores stores), .of_stores stores⟩

theorem methodScope_read {before : State} {word : Token} (begun : before.Adds 0 0 [] state)
    (ahead : state.Ahead (.openParen :: (WrittenParameter.listWords false parameters ++
      [.closeParen, .lineFeed, .endWord])) constructs)
    (distinct : (parameters.map (·.name.text)).Nodup)
    (room : state.Room (2 * parameters.length + 2))
    (shallow : ∀ parameter ∈ parameters, parameter.hasDefault = true →
      state.depth < state.limits.maxDepth) :
    Succeeds (Parse.table depth) (do
      Scan.enterScope .method
      let list ← methodParameters
      let inner ← body
      let span := word.span.hull (← expectEnd)
      return (list, ← Scan.leaveScope inner span, span)) state fun found after =>
        after.Ahead [] constructs ∧ ∃ items,
          MethodScopeRead before parameters items found.1 found.2.1 after := by
  refine Yields.modify_bind ?_
  have ahead : State.Ahead { state with scopes := state.scopes.push .method } _ constructs :=
    ahead.alike rfl rfl rfl rfl rfl ahead.free rfl
  refine (methodParameters_read ahead rfl distinct (room.of_le (Nat.le_succ _)) shallow).bind ?_
  rintro list listed ⟨items, read, ahead⟩
  refine (body_empty ahead).bind ?_
  rintro _ emptied ⟨rfl, ahead, passed⟩
  have read := read.later passed
  refine (expect_word ahead fun after token announced => announced).bind ?_
  rintro close ended ⟨-, ahead, passed⟩
  have read := read.later passed
  have symbols : (items.map Prod.fst).Nodup := by
    rw [← WrittenParameter.names_of_stored read.stored] at distinct
    exact distinct.of_map
  refine (leaveScope_ahead ahead symbols read.adds (room.of_le ?_) none _).bind ?_
  · exact Nat.add_le_add_right (WrittenParameter.formalsNodes_le parameters) 1
  rintro scope after ⟨stored, ahead, adds, last⟩
  refine yields_pure ⟨ahead, items, stored, fun ordered => ?_, ?_, adds.since begun⟩
  · exact Arena.Formals.kept last.toGains (read.formals ordered)
  · exact read.stored.imp fun _ _ stored => stored.kept last.toGains

theorem Yields.enterConstruct_ahead {α : Type} {next : Unit → Parse α} {post : α → State → Prop}
    (ahead : state.Ahead words constructs)
    (follow : ∀ after, after.Ahead words (constructs + 1) → state.Adds 0 0 [] after →
      Succeeds table (next ()) after post) :
    Succeeds table (liftM Scan.enterConstruct >>= next) state post := by
  refine Yields.setLexer_bind (follow _ (ahead.noted rfl rfl fun _ between => ?_) (.noted state _))
  exact ⟨between.literal, between.heredocs, between.due, between.contexts, between.brackets,
    congrArg (· + 1) between.constructs, between.running, between.unmarked⟩

theorem Yields.leaveConstruct_ahead {α : Type} {next : Unit → Parse α} {post : α → State → Prop}
    (ahead : state.Ahead words (constructs + 1))
    (follow : ∀ after, after.Ahead words constructs → state.Adds 0 0 [] after →
      Succeeds table (next ()) after post) :
    Succeeds table (liftM Scan.leaveConstruct >>= next) state post := by
  refine Yields.setLexer_bind (follow _ (ahead.noted rfl rfl fun _ between => ?_) (.noted state _))
  exact ⟨between.literal, between.heredocs, between.due, between.contexts, between.brackets,
    congrArg (· - 1) between.constructs, between.running, between.unmarked⟩

theorem methodDefinition_read
    (ahead : state.Ahead (.defWord :: .name true name :: .openParen ::
      (WrittenParameter.listWords false parameters ++ [.closeParen, .lineFeed, .endWord]))
      constructs)
    (seen : state.lookahead = some token) (distinct : (parameters.map (·.name.text)).Nodup)
    (room : state.Room (2 * parameters.length + 3))
    (shallow : ∀ parameter ∈ parameters, parameter.hasDefault = true →
      state.depth < state.limits.maxDepth) :
    Succeeds (Parse.table depth) methodDefinition state fun id after =>
      after.Ahead [] constructs ∧ ∃ items, MethodRead state name parameters items id after := by
  refine Yields.take_word ahead seen fun taken _ ahead passed => ?_
  refine Yields.enterConstruct_ahead ahead fun inside ahead entered => ?_
  refine (methodHead_name ahead).bind ?_
  rintro _ headed ⟨symbol, rfl, spelled, ahead, named⟩
  have begun := named.since (passed.later entered)
  refine (isolated_ahead ahead fun inner ahead passed => methodScope_read passed ahead distinct
    ((begun.later passed).room (room.of_le (Nat.le_succ _))) fun parameter member given =>
      (begun.later passed).shallow (shallow parameter member given)).bind ?_
  rintro ⟨list, scope, span⟩ _ ⟨ahead, current, lexer, rfl, items, read⟩
  have read := read.later (.noted current lexer)
  refine Yields.leaveConstruct_ahead ahead fun outside ahead left => ?_
  have read := read.later left
  have roomy : outside.Room 1 := by
    refine ((begun.room room).of_le ?_).after read.adds.toGains
    exact Nat.add_le_add_right (WrittenParameter.formalsNodes_le parameters) 2
  refine (alloc_ahead ahead roomy _ _).mono ?_
  rintro id after ⟨stored, ahead, adds⟩
  have whole := read.adds.trans adds
  exact ⟨ahead, items, ⟨symbol, list, scope, whole.spells spelled, stored, adds.shaped read.scope,
    fun ordered => (read.formals ordered).kept adds.toGains⟩,
    read.stored.imp fun _ _ stored => stored.kept adds.toGains, whole.since begun⟩

end Parse

end RubySyntax
