/-
Parameters as they are written.

Each form has its words, and what is stored for it. A parameter is read off its words before
a comma or the closing parenthesis, whether or not it may come where it does: its place in the
order is looked at afterwards.
-/

import RubySyntax.Proofs.Parameters.Order
import RubySyntax.Proofs.Reading.Value

namespace RubySyntax

structure WrittenParameter where
  form : ParameterForm
  name : VariableName
deriving DecidableEq

namespace WrittenParameter

def text (parameter : WrittenParameter) : Bytes :=
  match parameter.form with
  | .plain => parameter.name.text
  | .optional => parameter.name.text ++ ascii " = 1"
  | .rest => ascii "*" ++ parameter.name.text
  | .requiredKeyword => parameter.name.text ++ ascii ":"
  | .optionalKeyword => parameter.name.text ++ ascii ": 1"
  | .keywordRest => ascii "**" ++ parameter.name.text
  | .block => ascii "&" ++ parameter.name.text

def words (blank : Bool) (parameter : WrittenParameter) : List Word :=
  match parameter.form with
  | .plain => [.name blank parameter.name]
  | .optional => [.name blank parameter.name, .assign, .number 1]
  | .rest => [.gather blank .star, .name false parameter.name]
  | .requiredKeyword => [.label blank parameter.name]
  | .optionalKeyword => [.label blank parameter.name, .number 1]
  | .keywordRest => [.gather blank .doubleStar, .name false parameter.name]
  | .block => [.gather blank .ampersand, .name false parameter.name]

def hasDefault (parameter : WrittenParameter) : Bool :=
  match parameter.form with
  | .optional => true
  | .optionalKeyword => true
  | _ => false

def nodes (parameter : WrittenParameter) : Nat :=
  match parameter.form with
  | .optional => 2
  | .optionalKeyword => 2
  | _ => 1

theorem nodes_le (parameter : WrittenParameter) : parameter.nodes ≤ 2 := by
  obtain ⟨form, name⟩ := parameter
  cases form <;> simp [nodes]

def Stored (parameter : WrittenParameter) (arena : Arena) (symbols : SymbolTable)
    (symbol : Symbol) (id : NodeId) : Prop :=
  symbols.Spells symbol parameter.name.text ∧
    match parameter.form with
    | .plain => arena.Shaped id (.named .parameter symbol)
    | .optional => ∃ default, arena.Shaped id (.optionalParameter symbol default) ∧
        arena.Shaped default (.integer 1)
    | .rest => arena.Shaped id (.restParameter .positional (some symbol))
    | .requiredKeyword => arena.Shaped id (.keywordParameter symbol none)
    | .optionalKeyword => ∃ default, arena.Shaped id (.keywordParameter symbol (some default)) ∧
        arena.Shaped default (.integer 1)
    | .keywordRest => arena.Shaped id (.restParameter .keyword (some symbol))
    | .block => arena.Shaped id (.named .blockParameter symbol)

theorem Stored.kept {parameter : WrittenParameter} {before after : State} {nodes errors : Nat}
    {symbol : Symbol} {id : NodeId} (gains : before.Gains nodes errors after)
    (stored : parameter.Stored before.arena before.symbols symbol id) :
    parameter.Stored after.arena after.symbols symbol id := by
  obtain ⟨spelled, shaped⟩ := stored
  refine ⟨gains.spells spelled, ?_⟩
  obtain ⟨form, name⟩ := parameter
  cases form with
  | optional =>
      obtain ⟨default, shaped, value⟩ := shaped
      exact ⟨default, gains.shaped shaped, gains.shaped value⟩
  | optionalKeyword =>
      obtain ⟨default, shaped, value⟩ := shaped
      exact ⟨default, gains.shaped shaped, gains.shaped value⟩
  | _ => exact gains.shaped shaped

end WrittenParameter

structure ParameterRead (before : State) (parameter : WrittenParameter) (words : List Word)
    (constructs : Nat) (symbol : Symbol) (id : NodeId) (after : State) : Prop where
  stored : parameter.Stored after.arena after.symbols symbol id
  ahead : after.Ahead words constructs
  adds : before.Adds parameter.nodes 0 [symbol] after

theorem ParameterRead.since {before middle after : State} {parameter : WrittenParameter}
    {words : List Word} {constructs : Nat} {symbol : Symbol} {id : NodeId}
    (read : ParameterRead middle parameter words constructs symbol id after)
    (passed : before.Adds 0 0 [] middle) :
    ParameterRead before parameter words constructs symbol id after :=
  ⟨read.stored, read.ahead, read.adds.since passed⟩

def State.Fresh (state : State) (name : VariableName) : Prop :=
  ∀ other ∈ state.scopes.locals, ∃ text, state.symbols.Spells other text ∧ text ≠ name.text

theorem State.Fresh.notMem {state after : State} {name : VariableName} {symbol : Symbol}
    {nodes reported : Nat} (fresh : state.Fresh name) (adds : state.Adds nodes reported [] after)
    (spelled : after.symbols.Spells symbol name.text) : symbol ∉ after.scopes.locals := by
  intro member
  rw [adds.scopes] at member
  obtain ⟨text, same, other⟩ := fresh symbol member
  exact other ((adds.spells same).name.symm.trans spelled.name)

theorem State.Fresh.later {state after : State} {name : VariableName} {nodes reported : Nat}
    (fresh : state.Fresh name) (adds : state.Adds nodes reported [] after) : after.Fresh name := by
  intro symbol member
  rw [adds.scopes] at member
  obtain ⟨text, same, other⟩ := fresh symbol member
  exact ⟨text, adds.spells same, other⟩

namespace Parse

variable {table : RuleTable} {depth constructs : Nat} {state current : State} {words : List Word}
  {next : Word} {name : VariableName} {parameter : WrittenParameter} {symbol : Symbol}
  {span : Span} {reached : ParameterStage}

theorem declareParameter_fresh (fresh : state.Fresh name) (passed : state.Adds 0 0 [] current)
    (spelled : current.symbols.Spells symbol name.text) (ahead : current.Ahead words constructs) :
    Succeeds table (declareParameter symbol span) current fun _ after =>
      after.symbols.Spells symbol name.text ∧ after.Ahead words constructs ∧
        current.Adds 0 0 [symbol] after := by
  have absent : ¬current.scopes.locals.contains symbol = true := by
    rw [List.contains_iff_mem]
    exact fresh.notMem passed spelled
  refine Yields.get_bind ?_
  rw [if_neg absent]
  exact yields_lift (Scan.yields_modify
    ⟨spelled, ahead.alike rfl rfl rfl rfl rfl ahead.free rfl, .declare current symbol⟩)

theorem parameterName?_written (ahead : state.Ahead (.name false name :: words) constructs)
    (fresh : state.Fresh name) :
    Succeeds table parameterName? state fun found after => ∃ symbol, found = some symbol ∧
      after.symbols.Spells symbol name.text ∧ after.Ahead words constructs ∧
        state.Adds 0 0 [symbol] after := by
  refine (peekToken_word ahead).bind ?_
  rintro ⟨_, span⟩ peeked ⟨seen, ⟨symbol, rfl, spelled, -⟩, ahead, looked⟩
  refine Yields.skip_word ahead seen fun taken _ ahead passed => ?_
  have before := passed.since looked
  refine (declareParameter_fresh fresh before (passed.spells spelled) ahead).bind ?_
  rintro _ after ⟨spelled, ahead, declared⟩
  exact yields_pure ⟨symbol, rfl, spelled, ahead, declared.since before⟩

theorem restParameter_written {mark : GatherMark} {blank : Bool} {form : RestForm} {token : Token}
    (ahead : state.Ahead (.gather blank mark :: .name false name :: words) constructs)
    (seen : state.lookahead = some token) (fresh : state.Fresh name) (room : state.Room 1) :
    Succeeds table (restParameter form) state fun id after => ∃ symbol,
      after.symbols.Spells symbol name.text ∧
        after.arena.Shaped id (.restParameter form (some symbol)) ∧
        after.Ahead words constructs ∧ state.Adds 1 0 [symbol] after := by
  refine Yields.take_word ahead seen fun taken _ ahead passed => ?_
  refine (parameterName?_written ahead (fresh.later passed)).bind ?_
  rintro _ named ⟨symbol, rfl, spelled, ahead, declared⟩
  have before := declared.since passed
  refine Yields.spanSince_bind ?_
  refine (alloc_ahead ahead (before.room room) _ _).mono ?_
  rintro id after ⟨stored, ahead, adds⟩
  exact ⟨symbol, adds.spells spelled, stored, ahead, before.trans adds⟩

theorem blockParameter_written {mark : GatherMark} {blank : Bool} {token : Token}
    (ahead : state.Ahead (.gather blank mark :: .name false name :: words) constructs)
    (seen : state.lookahead = some token) (fresh : state.Fresh name) (room : state.Room 1) :
    Succeeds table blockParameter state fun id after => ∃ symbol,
      after.symbols.Spells symbol name.text ∧
        after.arena.Shaped id (.named .blockParameter symbol) ∧
        after.Ahead words constructs ∧ state.Adds 1 0 [symbol] after := by
  refine Yields.take_word ahead seen fun taken _ ahead passed => ?_
  refine (parameterName?_written ahead (fresh.later passed)).bind ?_
  rintro _ named ⟨symbol, rfl, spelled, ahead, declared⟩
  have before := declared.since passed
  change Yields table (spanSince token.span.start >>= fun span =>
    liftM (Scan.alloc (.named .blockParameter symbol) span)) named _ _
  refine Yields.spanSince_bind ?_
  refine (alloc_ahead ahead (before.room room) _ _).mono ?_
  rintro id after ⟨stored, ahead, adds⟩
  exact ⟨symbol, adds.spells spelled, stored, ahead, before.trans adds⟩

theorem defaultValue_figure {value : Nat}
    (ahead : state.Ahead (.number value :: next :: words) constructs)
    (ends : next = .comma ∨ next = .closeParen) (room : state.Room 1)
    (shallow : state.depth < state.limits.maxDepth) :
    Succeeds (Parse.table depth) (defaultValue .parenthesis) state
      (FigureStored state value (next :: words) constructs) := by
  refine argumentValue_figure ahead ?_ room shallow
  rcases ends with rfl | rfl
  · exact .inl rfl
  · exact .inr (.inl rfl)

theorem namedParameter_plain {blank : Bool} {token : Token}
    (ahead : state.Ahead (.name blank name :: next :: words) constructs)
    (seen : state.lookahead = some token) (kind : token.kind = .identifier symbol)
    (ends : next = .comma ∨ next = .closeParen) (fresh : state.Fresh name) (room : state.Room 1) :
    Succeeds table (namedParameter .parenthesis reached symbol) state fun found after =>
      found.2 = reached.plain ∧
        ParameterRead state ⟨.plain, name⟩ (next :: words) constructs symbol found.1 after := by
  obtain ⟨_, same, spelled, -⟩ := ahead.announced seen
  obtain rfl := TokenKind.identifier.inj (kind.symm.trans same)
  refine Yields.take_word ahead seen fun taken _ ahead passed => ?_
  refine (declareParameter_fresh fresh passed (passed.spells spelled) ahead).bind ?_
  rintro _ declared ⟨spelled, ahead, declares⟩
  have before := declares.since passed
  refine (accept_other ahead fun after token announced => ?_).bind ?_
  · rcases ends with rfl | rfl <;> rw [show token.kind = _ from announced] <;> nofun
  rintro _ looked ⟨rfl, -, ahead, looks⟩
  rw [if_neg Bool.false_ne_true]
  refine (alloc_ahead ahead ((before.later looks).room room) _ _).bind ?_
  rintro id after ⟨stored, ahead, adds⟩
  exact yields_pure ⟨rfl, ⟨(looks.trans adds).spells spelled, stored⟩, ahead,
    (before.later looks).trans adds⟩

theorem namedParameter_optional {blank : Bool} {token : Token}
    (ahead : state.Ahead (.name blank name :: .assign :: .number 1 :: next :: words) constructs)
    (seen : state.lookahead = some token) (kind : token.kind = .identifier symbol)
    (ends : next = .comma ∨ next = .closeParen) (fresh : state.Fresh name) (room : state.Room 2)
    (shallow : state.depth < state.limits.maxDepth) :
    Succeeds (Parse.table depth) (namedParameter .parenthesis reached symbol) state
      fun found after => found.2 = .optional ∧
        ParameterRead state ⟨.optional, name⟩ (next :: words) constructs symbol found.1 after := by
  obtain ⟨_, same, spelled, -⟩ := ahead.announced seen
  obtain rfl := TokenKind.identifier.inj (kind.symm.trans same)
  refine Yields.take_word ahead seen fun taken _ ahead passed => ?_
  refine (declareParameter_fresh fresh passed (passed.spells spelled) ahead).bind ?_
  rintro _ declared ⟨spelled, ahead, declares⟩
  refine (accept_word ahead fun after token announced => announced).bind ?_
  rintro _ assigned ⟨rfl, -, ahead, assigns⟩
  have before := (declares.since passed).later assigns
  rw [if_pos rfl]
  refine (defaultValue_figure ahead ends ((before.room room).of_le (by decide))
    (before.shallow shallow)).bind ?_
  intro default valued figure
  have whole := before.trans figure.adds
  refine Yields.lift_bind (Scan.spanOf_yields default) ?_
  rintro _ _ rfl
  refine (alloc_ahead figure.ahead (room.after whole.toGains) _ _).bind ?_
  rintro id after ⟨stored, ahead, adds⟩
  exact yields_pure ⟨rfl, ⟨(assigns.trans (figure.adds.trans adds)).spells spelled, default, stored,
    adds.shaped figure.stored⟩, ahead, whole.trans adds⟩

theorem keywordParameter_required {blank : Bool} {token : Token}
    (ahead : state.Ahead (.label blank name :: next :: words) constructs)
    (seen : state.lookahead = some token) (kind : token.kind = .label symbol)
    (ends : next = .comma ∨ next = .closeParen) (fresh : state.Fresh name) (room : state.Room 1) :
    Succeeds table (keywordParameter .parenthesis symbol) state fun id after =>
      ParameterRead state ⟨.requiredKeyword, name⟩ (next :: words) constructs symbol id after := by
  obtain ⟨_, same, spelled⟩ := ahead.announced seen
  obtain rfl := TokenKind.label.inj (kind.symm.trans same)
  refine Yields.take_word ahead seen fun taken _ ahead passed => ?_
  refine (declareParameter_fresh fresh passed (passed.spells spelled) ahead).bind ?_
  rintro _ declared ⟨spelled, ahead, declares⟩
  refine (peekKind_word ahead).bind ?_
  rintro _ looked ⟨after, rfl, -, announced, ahead, looks⟩
  have before := (declares.since passed).later looks
  rw [if_pos (by rcases ends with rfl | rfl <;> rw [show after.kind = _ from announced] <;> rfl)]
  change Yields table (spanSince token.span.start >>= fun span =>
    liftM (Scan.alloc (.keywordParameter symbol none) span)) looked _ _
  refine Yields.spanSince_bind ?_
  refine (alloc_ahead ahead (before.room room) _ _).mono ?_
  rintro id after ⟨stored, ahead, adds⟩
  exact ⟨⟨(looks.trans adds).spells spelled, stored⟩, ahead, before.trans adds⟩

theorem keywordParameter_optional {blank : Bool} {token : Token}
    (ahead : state.Ahead (.label blank name :: .number 1 :: next :: words) constructs)
    (seen : state.lookahead = some token) (kind : token.kind = .label symbol)
    (ends : next = .comma ∨ next = .closeParen) (fresh : state.Fresh name) (room : state.Room 2)
    (shallow : state.depth < state.limits.maxDepth) :
    Succeeds (Parse.table depth) (keywordParameter .parenthesis symbol) state fun id after =>
      ParameterRead state ⟨.optionalKeyword, name⟩ (next :: words) constructs symbol id after := by
  obtain ⟨_, same, spelled⟩ := ahead.announced seen
  obtain rfl := TokenKind.label.inj (kind.symm.trans same)
  refine Yields.take_word ahead seen fun taken _ ahead passed => ?_
  refine (declareParameter_fresh fresh passed (passed.spells spelled) ahead).bind ?_
  rintro _ declared ⟨spelled, ahead, declares⟩
  refine (peekKind_word ahead).bind ?_
  rintro _ looked ⟨after, rfl, -, announced, ahead, looks⟩
  have before := (declares.since passed).later looks
  rw [if_neg (by rw [show after.kind = _ from announced]; decide)]
  refine Yields.bind (defaultValue_figure ahead ends ((before.room room).of_le (by decide))
    (before.shallow shallow)) ?_
  intro default valued figure
  have whole := before.trans figure.adds
  change Yields (Parse.table depth) (spanSince token.span.start >>= fun span =>
    liftM (Scan.alloc (.keywordParameter symbol (some default)) span)) valued _ _
  refine Yields.spanSince_bind ?_
  refine (alloc_ahead figure.ahead (room.after whole.toGains) _ _).mono ?_
  rintro id after ⟨stored, ahead, adds⟩
  exact ⟨⟨(looks.trans (figure.adds.trans adds)).spells spelled, default, stored,
    adds.shaped figure.stored⟩, ahead, whole.trans adds⟩

theorem parameter?_written (blank : Bool)
    (ahead : state.Ahead (parameter.words blank ++ next :: words) constructs)
    (ends : next = .comma ∨ next = .closeParen) (fresh : state.Fresh parameter.name)
    (room : state.Room 2)
    (shallow : parameter.hasDefault = true → state.depth < state.limits.maxDepth) :
    Succeeds (Parse.table depth) (parameter? .parenthesis reached) state fun found after =>
      ∃ symbol id, found = some (id, parameter.form.stage reached) ∧
        ParameterRead state parameter (next :: words) constructs symbol id after := by
  obtain ⟨first, others, written⟩ : ∃ first others,
      parameter.words blank ++ next :: words = first :: others := by
    obtain ⟨form, name⟩ := parameter
    cases form <;> exact ⟨_, _, rfl⟩
  rw [written] at ahead
  refine (peekKind_word ahead).bind ?_
  rintro _ peeked ⟨token, rfl, seen, announced, ahead, looked⟩
  have fresh := fresh.later looked
  have room : peeked.Room 2 := looked.room room
  have single : peeked.Room 1 := room.of_le (by decide)
  obtain ⟨form, name⟩ := parameter
  cases form <;> obtain ⟨rfl, rfl⟩ := List.cons.inj written
  case plain =>
    obtain ⟨symbol, kind, -⟩ := announced
    rw [kind]
    refine (namedParameter_plain ahead seen kind ends fresh single).bind ?_
    rintro ⟨id, _⟩ after ⟨rfl, read⟩
    exact yields_pure ⟨symbol, id, rfl, read.since looked⟩
  case optional =>
    obtain ⟨symbol, kind, -⟩ := announced
    rw [kind]
    refine (namedParameter_optional ahead seen kind ends fresh room
      (looked.shallow (shallow rfl))).bind ?_
    rintro ⟨id, _⟩ after ⟨rfl, read⟩
    exact yields_pure ⟨symbol, id, rfl, read.since looked⟩
  case rest =>
    rw [show token.kind = .punct .splatStar from announced]
    refine (restParameter_written ahead seen fresh single).bind ?_
    rintro id after ⟨symbol, spelled, stored, ahead, adds⟩
    exact yields_pure ⟨symbol, id, rfl, ⟨spelled, stored⟩, ahead, adds.since looked⟩
  case requiredKeyword =>
    obtain ⟨symbol, kind, -⟩ := announced
    rw [kind]
    refine (keywordParameter_required ahead seen kind ends fresh single).bind ?_
    intro id after read
    exact yields_pure ⟨symbol, id, rfl, read.since looked⟩
  case optionalKeyword =>
    obtain ⟨symbol, kind, -⟩ := announced
    rw [kind]
    refine (keywordParameter_optional ahead seen kind ends fresh room
      (looked.shallow (shallow rfl))).bind ?_
    intro id after read
    exact yields_pure ⟨symbol, id, rfl, read.since looked⟩
  case keywordRest =>
    rw [show token.kind = .punct .splatPower from announced]
    refine (restParameter_written ahead seen fresh single).bind ?_
    rintro id after ⟨symbol, spelled, stored, ahead, adds⟩
    exact yields_pure ⟨symbol, id, rfl, ⟨spelled, stored⟩, ahead, adds.since looked⟩
  case block =>
    rw [show token.kind = .punct .blockAmpersand from announced]
    refine (blockParameter_written ahead seen fresh single).bind ?_
    rintro id after ⟨symbol, spelled, stored, ahead, adds⟩
    exact yields_pure ⟨symbol, id, rfl, ⟨spelled, stored⟩, ahead, adds.since looked⟩

end Parse

end RubySyntax
