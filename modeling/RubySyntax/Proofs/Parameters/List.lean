/-
Lists of parameters as they are written.

Each turn of the loop reads one parameter and what separates it from the next. A parameter
that comes too late is reported, and is read and declared like the others.
-/

import RubySyntax.Proofs.Parameters.Parameter

namespace RubySyntax

/-! ### Names -/

theorem ScopeStack.foldl_declare_fresh (names : List Symbol) (scopes : ScopeStack)
    (distinct : (scopes.locals ++ names).Nodup) :
    names.foldl declare scopes =
      { scopes with current := { scopes.current with locals := scopes.locals ++ names } } := by
  induction names generalizing scopes with
  | nil => rw [List.append_nil]; rfl
  | cons name more ih =>
      have absent : ¬scopes.current.locals.contains name = true := by
        rw [List.contains_iff_mem]
        intro member
        exact (List.nodup_append.mp distinct).2.2 name member name List.mem_cons_self rfl
      have split : scopes.locals ++ name :: more = scopes.locals ++ [name] ++ more := by
        rw [List.append_assoc, List.singleton_append]
      rw [List.foldl_cons, declare, if_neg absent, ih, split]
      · rfl
      · rw [split] at distinct
        exact distinct

namespace WrittenParameter

def listWords : Bool → List WrittenParameter → List Word :=
  Word.commaList words

/-- The first word of a list before a closing parenthesis tells whether the list is empty. -/
theorem listWords_starts (blank : Bool) (parameters : List WrittenParameter) (words : List Word) :
    ∃ first others, listWords blank parameters ++ .closeParen :: words = first :: others ∧
      ∀ state token, first.Announces state token → token.kind ≠ .newline ∧
        ParametersEnd.parenthesis.isAt token.kind = parameters.isEmpty := by
  cases parameters with
  | nil =>
      refine ⟨.closeParen, words, rfl, fun state token announced => ?_⟩
      rw [show token.kind = _ from announced]
      exact ⟨nofun, rfl⟩
  | cons parameter more =>
      obtain ⟨form, name⟩ := parameter
      cases form <;> refine ⟨_, _, rfl, fun state token announced => ?_⟩
      case plain | optional | requiredKeyword | optionalKeyword =>
        obtain ⟨symbol, kind, -⟩ := announced
        rw [kind]
        exact ⟨nofun, rfl⟩
      case rest | keywordRest | block =>
        rw [show token.kind = _ from announced]
        exact ⟨nofun, rfl⟩

def listNodes (parameters : List WrittenParameter) : Nat :=
  (parameters.map nodes).sum

theorem listNodes_concat (parameters : List WrittenParameter) (parameter : WrittenParameter) :
    listNodes (parameters ++ [parameter]) = listNodes parameters + parameter.nodes := by
  simp [listNodes]

theorem listNodes_le (parameters : List WrittenParameter) :
    listNodes parameters ≤ 2 * parameters.length := by
  induction parameters with
  | nil => exact Nat.le_refl 0
  | cons parameter more ih =>
      have one := parameter.nodes_le
      rw [listNodes, List.map_cons, List.sum_cons, ← listNodes, List.length_cons]
      omega

end WrittenParameter

structure ParametersRead (before : State) (parameters : List WrittenParameter)
    (items : List (Symbol × NodeId)) (progress : Parse.ParameterProgress) (after : State) :
    Prop where
  stored : parameters.Forall₂ (fun parameter item =>
    parameter.Stored after.arena after.symbols item.1 item.2) items
  adds : before.Adds (WrittenParameter.listNodes parameters)
    (ParameterForm.misplaced .required (parameters.map (·.form))) (items.map Prod.fst) after
  reached : progress.reached = ParameterForm.reachedAfter .required (parameters.map (·.form))
  kept : progress.list.Until progress.reached
  filled : progress.list.isEmpty = parameters.isEmpty
  ordered : ParameterForm.misplaced .required (parameters.map (·.form)) = 0 →
    progress.list.children = items.map Prod.snd

theorem WrittenParameter.names_of_stored {parameters : List WrittenParameter} {arena : Arena}
    {symbols : SymbolTable} {items : List (Symbol × NodeId)}
    (stored : parameters.Forall₂ (fun parameter item =>
      parameter.Stored arena symbols item.1 item.2) items) :
    (items.map Prod.fst).map symbols.name = parameters.map (·.name.text) := by
  induction stored with
  | nil => rfl
  | cons one _ ih => rw [List.map_cons, List.map_cons, List.map_cons, ih, one.1.name]

theorem WrittenParameter.spelled_of_stored {parameters : List WrittenParameter} {arena : Arena}
    {symbols : SymbolTable} {items : List (Symbol × NodeId)} {symbol : Symbol}
    (stored : parameters.Forall₂ (fun parameter item =>
      parameter.Stored arena symbols item.1 item.2) items)
    (member : symbol ∈ items.map Prod.fst) :
    ∃ text ∈ parameters.map (·.name.text), symbols.Spells symbol text := by
  induction stored with
  | nil => cases member
  | cons one _ ih =>
      cases member with
      | head => exact ⟨_, List.mem_cons_self, one.1⟩
      | tail _ later =>
          obtain ⟨text, within, spelled⟩ := ih later
          exact ⟨text, List.mem_cons_of_mem _ within, spelled⟩

namespace ParametersRead

variable {before state current after : State} {parameters : List WrittenParameter}
  {items : List (Symbol × NodeId)} {progress : Parse.ParameterProgress}
  {parameter : WrittenParameter} {name : VariableName}

theorem start (state : State) : ParametersRead state [] [] {} state :=
  ⟨.nil, .refl state, rfl, .empty _, rfl, fun _ => rfl⟩

theorem later (read : ParametersRead before parameters items progress state)
    (passed : state.Adds 0 0 [] after) :
    ParametersRead before parameters items progress after where
  stored := read.stored.imp fun _ _ stored => stored.kept passed.toGains
  adds := read.adds.later passed
  reached := read.reached
  kept := read.kept
  filled := read.filled
  ordered := read.ordered

/-- The innermost scope has the names of the parameters, in their order. -/
theorem locals (read : ParametersRead before parameters items progress state)
    (unknown : before.scopes.locals = []) (distinct : (parameters.map (·.name.text)).Nodup) :
    state.scopes.locals = items.map Prod.fst := by
  have symbols : (items.map Prod.fst).Nodup := by
    rw [← WrittenParameter.names_of_stored read.stored] at distinct
    exact distinct.of_map
  rw [read.adds.scopes, ScopeStack.foldl_declare_fresh _ _ (by rwa [unknown, List.nil_append]),
    unknown]
  rfl

theorem fresh (read : ParametersRead before parameters items progress state)
    (unknown : before.scopes.locals = []) (distinct : (parameters.map (·.name.text)).Nodup)
    (other : name.text ∉ parameters.map (·.name.text)) : state.Fresh name := by
  intro symbol member
  rw [read.locals unknown distinct] at member
  obtain ⟨text, within, spelled⟩ := WrittenParameter.spelled_of_stored read.stored member
  exact ⟨text, spelled, fun same => other (same ▸ within)⟩

end ParametersRead

theorem State.Adds.report {state : State} {report : Report}
    (counted : report.errors = state.report.errors + 1) :
    state.Adds 0 1 [] { state with report } :=
  ⟨⟨⟨fun _ _ found => found, fun _ known => ⟨known, rfl⟩, counted⟩, rfl, rfl, rfl, rfl⟩, nofun,
    rfl, rfl⟩

namespace Parse

variable {table : RuleTable} {depth constructs : Nat} {before state current : State}
  {words : List Word} {parameters : List WrittenParameter} {parameter : WrittenParameter}
  {items : List (Symbol × NodeId)} {progress : ParameterProgress} {symbol : Symbol} {id : NodeId}

theorem addParameter_read (read : ParametersRead before parameters items progress state)
    (one : ParameterRead state parameter words constructs symbol id current) :
    Succeeds table (addParameter progress id (parameter.form.stage progress.reached)) current
      fun next after =>
        ParametersRead before (parameters ++ [parameter]) (items ++ [(symbol, id)]) next after ∧
          after.Ahead words constructs := by
  have whole (after : State) (reports : current.Adds 0 (if (parameter.form.stage
      progress.reached).mayFollow progress.reached then 0 else 1) [] after) :
      ParametersRead before (parameters ++ [parameter]) (items ++ [(symbol, id)])
        ⟨progress.list.add (parameter.form.stage progress.reached) id,
          progress.reached.later (parameter.form.stage progress.reached)⟩ after := by
    constructor
    case stored =>
      refine List.rel_append (read.stored.imp fun _ _ stored => ?_)
        (.cons (one.stored.kept reports.toGains) .nil)
      exact stored.kept (one.adds.trans reports).toGains
    case adds =>
      have adds := read.adds.trans (one.adds.trans reports)
      rw [List.map_append, List.map_append, List.map_singleton, List.map_singleton,
        ParameterForm.misplaced_concat, WrittenParameter.listNodes_concat, ← read.reached]
      simpa only [Nat.add_zero, Nat.zero_add, List.append_nil] using adds
    case reached =>
      rw [List.map_append, List.map_singleton, ParameterForm.reachedAfter_concat, ← read.reached]
    case kept => exact read.kept.add
    case filled =>
      simp [Parameters.isEmpty_add]
    case ordered =>
      intro none
      rw [List.map_append, List.map_singleton, ParameterForm.misplaced_concat, ← read.reached,
        Nat.add_eq_zero_iff] at none
      obtain ⟨ordered, follows⟩ := none
      rw [List.map_append, List.map_singleton, ← read.ordered ordered]
      refine read.kept.children_add ?_
      by_contra late
      rw [if_neg late] at follows
      cases follows
  refine Yields.ite (fun late => ?_) fun follows => ?_
  · rw [Bool.not_eq_true'] at late
    refine Yields.lift_bind (Scan.spanOf_yields id) ?_
    rintro span _ rfl
    refine Yields.lift_bind (Scan.report_yields span rfl) ?_
    rintro _ _ ⟨report, rfl, counted⟩
    refine yields_pure ⟨whole _ ?_, one.ahead.alike rfl rfl rfl rfl rfl one.ahead.free rfl⟩
    rw [late]
    exact .report counted
  · rw [Bool.not_eq_true', Bool.not_eq_false] at follows
    refine yields_pure ⟨whole _ ?_, one.ahead⟩
    rw [follows]
    exact .refl _

/-- After a parameter comes another one behind a comma, or the closing parenthesis. -/
theorem afterParameter_read {more : List WrittenParameter} (ahead : state.Ahead
      (more.flatMap (fun other => .comma :: other.words true) ++ .closeParen :: words)
      constructs) :
    Succeeds table (afterParameter .parenthesis progress) state fun turn after =>
      state.Adds 0 0 [] after ∧
        after.Ahead (WrittenParameter.listWords true more ++ .closeParen :: words) constructs ∧
        match turn with
        | .again next => next = progress
        | .done list => list = progress.list ∧ more = [] := by
  cases more with
  | nil =>
      have ahead : state.Ahead (.closeParen :: words) constructs := ahead
      refine (accept_other ahead fun after token announced => ?_).bind ?_
      · rw [show token.kind = _ from announced]
        nofun
      rintro _ after ⟨rfl, -, ahead, looked⟩
      exact yields_pure ⟨looked, ahead, rfl, rfl⟩
  | cons parameter more =>
      have ahead : state.Ahead (.comma :: (WrittenParameter.listWords true (parameter :: more) ++
        .closeParen :: words)) constructs := ahead
      refine (accept_word ahead fun after token announced => announced).bind ?_
      rintro _ after ⟨rfl, -, ahead, passed⟩
      exact yields_pure ⟨passed, ahead, rfl⟩

theorem parameterTurn_read {more : List WrittenParameter} {blank : Bool}
    (read : ParametersRead before parameters items progress state)
    (ahead : state.Ahead (WrittenParameter.listWords blank (parameter :: more) ++
      .closeParen :: words) constructs)
    (fresh : state.Fresh parameter.name) (room : state.Room 2)
    (shallow : parameter.hasDefault = true → state.depth < state.limits.maxDepth)
    {token : Token} :
    Succeeds (Parse.table depth) (do
      match ← parameter? .parenthesis progress.reached with
      | none =>
          Scan.unexpected token none
          skip
          return .done progress.list
      | some (node, stage) => afterParameter .parenthesis (← addParameter progress node stage))
      state fun turn after => ∃ items progress,
        ParametersRead before (parameters ++ [parameter]) items progress after ∧
        after.Ahead (WrittenParameter.listWords true more ++ .closeParen :: words) constructs ∧
        match turn with
        | .again next => next = progress
        | .done list => list = progress.list ∧ more = [] := by
  obtain ⟨next, others, written, ends⟩ : ∃ next others,
      more.flatMap (fun other => .comma :: other.words true) ++ .closeParen :: words =
        next :: others ∧ (next = .comma ∨ next = .closeParen) := by
    cases more with
    | nil => exact ⟨_, _, rfl, .inr rfl⟩
    | cons parameter more => exact ⟨_, _, rfl, .inl rfl⟩
  have ahead : state.Ahead (parameter.words blank ++ next :: others) constructs := by
    rwa [WrittenParameter.listWords, Word.commaList, List.append_assoc, written] at ahead
  refine (parameter?_written blank ahead ends fresh room shallow).bind ?_
  rintro _ one ⟨symbol, id, rfl, stored⟩
  refine (addParameter_read read stored).bind ?_
  rintro added current ⟨read, ahead⟩
  rw [← written] at ahead
  refine (afterParameter_read ahead).mono ?_
  rintro turn after ⟨passed, ahead, outcome⟩
  exact ⟨_, added, read.later passed, ahead, outcome⟩

end Parse

def Arena.Formals (arena : Arena) (list : Option NodeId) (children : List NodeId) : Prop :=
  match list with
  | none => children = []
  | some id => ∃ formals, arena.Shaped id (.formals formals) ∧ formals.children = children

def WrittenParameter.formalsNodes (parameters : List WrittenParameter) : Nat :=
  listNodes parameters + if parameters.isEmpty then 0 else 1

theorem WrittenParameter.formalsNodes_le (parameters : List WrittenParameter) :
    formalsNodes parameters ≤ 2 * parameters.length + 1 := by
  have items := listNodes_le parameters
  unfold formalsNodes
  split <;> omega

structure FormalsRead (before : State) (parameters : List WrittenParameter)
    (items : List (Symbol × NodeId)) (list : Option NodeId) (after : State) : Prop where
  stored : parameters.Forall₂ (fun parameter item =>
    parameter.Stored after.arena after.symbols item.1 item.2) items
  adds : before.Adds (WrittenParameter.formalsNodes parameters)
    (ParameterForm.misplaced .required (parameters.map (·.form))) (items.map Prod.fst) after
  formals : ParameterForm.misplaced .required (parameters.map (·.form)) = 0 →
    after.arena.Formals list (items.map Prod.snd)

theorem Arena.Formals.kept {before after : State} {nodes errors : Nat} {list : Option NodeId}
    {children : List NodeId} (gains : before.Gains nodes errors after)
    (formals : before.arena.Formals list children) : after.arena.Formals list children := by
  cases list with
  | none => exact formals
  | some id =>
      obtain ⟨formals, shaped, same⟩ := formals
      exact ⟨formals, gains.shaped shaped, same⟩

namespace FormalsRead

variable {before middle after : State} {parameters : List WrittenParameter}
  {items : List (Symbol × NodeId)} {list : Option NodeId}

theorem since (read : FormalsRead middle parameters items list after)
    (passed : before.Adds 0 0 [] middle) : FormalsRead before parameters items list after :=
  ⟨read.stored, read.adds.since passed, read.formals⟩

theorem later (read : FormalsRead before parameters items list middle)
    (passed : middle.Adds 0 0 [] after) : FormalsRead before parameters items list after :=
  ⟨read.stored.imp fun _ _ stored => stored.kept passed.toGains, read.adds.later passed,
    fun ordered => (read.formals ordered).kept passed.toGains⟩

end FormalsRead

namespace Parse

variable {depth constructs : Nat} {before state : State} {words : List Word}
  {parameters : List WrittenParameter}

theorem parameterLoop_read
    (ahead : state.Ahead (WrittenParameter.listWords false parameters ++ .closeParen :: words)
      constructs)
    (unknown : state.scopes.locals = []) (distinct : (parameters.map (·.name.text)).Nodup)
    (room : state.Room (2 * parameters.length))
    (shallow : ∀ parameter ∈ parameters, parameter.hasDefault = true →
      state.depth < state.limits.maxDepth) :
    Succeeds (Parse.table depth) (repeatUntil {} (parameterTurn .parenthesis)) state
      fun list after => ∃ items progress, list = progress.list ∧
        ParametersRead state parameters items progress after ∧
        after.Ahead (.closeParen :: words) constructs := by
  apply repeatUntil_yields (fun progress current => ∃ done left blank items,
    parameters = done ++ left ∧ ParametersRead state done items progress current ∧
    current.Ahead (WrittenParameter.listWords blank left ++ .closeParen :: words) constructs)
  · exact ⟨[], parameters, false, [], rfl, .start state, ahead⟩
  rintro progress current ⟨done, left, blank, items, rfl, read, ahead⟩
  obtain ⟨first, others, written, starts⟩ := WrittenParameter.listWords_starts blank left words
  rw [written] at ahead
  unfold parameterTurn
  rw [if_pos rfl]
  refine (skipWhile_stays ahead fun after token announced =>
    decide_eq_false (starts after token announced).1).bind ?_
  rintro _ kept ⟨-, ahead, looked⟩
  refine (peekToken_word ahead).bind ?_
  rintro token peeked ⟨-, announced, ahead, looks⟩
  have read := read.later (looked.later looks)
  rw [← written] at ahead
  rw [(starts peeked token announced).2]
  cases left with
  | nil =>
      rw [List.append_nil]
      exact yields_pure ⟨items, progress, rfl, read, ahead⟩
  | cons parameter more =>
      rw [List.isEmpty_cons, if_neg Bool.false_ne_true]
      obtain ⟨earlier, -, apart⟩ := List.nodup_append.mp (by rwa [List.map_append] at distinct)
      have fresh : peeked.Fresh parameter.name := read.fresh unknown earlier fun member =>
        apart _ member _ List.mem_cons_self rfl
      have room : peeked.Room 2 := by
        refine (room.of_le ?_).after read.adds.toGains
        have stored := WrittenParameter.listNodes_le done
        rw [List.length_append, List.length_cons]
        omega
      refine (parameterTurn_read read ahead fresh room fun given => ?_).mono ?_
      · exact read.adds.shallow (shallow _ (List.mem_append_right _ List.mem_cons_self) given)
      rintro turn after ⟨items, next, read, ahead, outcome⟩
      cases turn with
      | again progress =>
          obtain rfl : progress = next := outcome
          exact ⟨done ++ [parameter], more, true, items, by rw [List.append_assoc]; rfl, read,
            ahead⟩
      | done list =>
          obtain ⟨rfl, rfl⟩ := outcome
          exact ⟨items, next, rfl, read, ahead⟩

theorem parameters_read
    (ahead : state.Ahead (WrittenParameter.listWords false parameters ++ .closeParen :: words)
      constructs)
    (unknown : state.scopes.locals = []) (distinct : (parameters.map (·.name.text)).Nodup)
    (room : state.Room (2 * parameters.length + 1))
    (shallow : ∀ parameter ∈ parameters, parameter.hasDefault = true →
      state.depth < state.limits.maxDepth) :
    Succeeds (Parse.table depth) (Parse.parameters .parenthesis) state fun list after => ∃ items,
      FormalsRead state parameters items list after ∧
        after.Ahead (.closeParen :: words) constructs := by
  obtain ⟨first, others, written, -⟩ := WrittenParameter.listWords_starts false parameters words
  rw [written] at ahead
  refine (peekToken_word ahead).bind ?_
  rintro token peeked ⟨-, -, ahead, looked⟩
  rw [← written] at ahead
  have unknown : peeked.scopes.locals = [] := by
    rw [looked.scopes]
    exact unknown
  refine (parameterLoop_read ahead unknown distinct ((looked.room room).of_le (Nat.le_succ _))
    fun parameter member given => looked.shallow (shallow parameter member given)).bind ?_
  rintro _ current ⟨items, progress, rfl, read, ahead⟩
  rw [if_pos rfl]
  refine (skipWhile_stays ahead fun after token announced => ?_).bind ?_
  · rw [show token.kind = _ from announced]
    rfl
  rintro _ ended ⟨-, closes, looks⟩
  have read := read.later looks
  rw [read.filled]
  refine Yields.ite (fun empty => ?_) fun filled => ?_
  · obtain rfl := List.isEmpty_iff.mp empty
    obtain rfl := List.forall₂_nil_left_iff.mp read.stored
    exact yields_pure ⟨[], ⟨.nil, read.adds.since looked, fun _ => rfl⟩, closes⟩
  · refine Yields.spanSince_bind ?_
    have room : ended.Room 1 := by
      refine ((looked.room room).of_le ?_).after read.adds.toGains
      exact Nat.add_le_add_right (WrittenParameter.listNodes_le parameters) 1
    refine (alloc_ahead closes room _ _).bind ?_
    rintro id after ⟨stored, ahead, adds⟩
    refine yields_pure ⟨items, ⟨?_, ?_, fun ordered => ⟨_, stored, read.ordered ordered⟩⟩, ahead⟩
    · exact read.stored.imp fun _ _ stored => stored.kept adds.toGains
    · rw [WrittenParameter.formalsNodes, if_neg filled]
      have whole := (read.adds.since looked).trans adds
      rwa [List.append_nil] at whole

end Parse

end RubySyntax
