/-
Values in a row of words, and programs that are such rows.

A number is an operand before a word that goes on with none. What the statements of a row
store, report and declare is what a parse of it gives.
-/

import RubySyntax.Proofs.Reading.Row

namespace RubySyntax

def Word.EndOperand (constructs : Nat) : List Word → Prop
  | [] => constructs = 0
  | word :: _ => word = .comma ∨ word = .closeParen ∨ word = .lineFeed

structure FigureStored (before : State) (value : Nat) (words : List Word) (constructs : Nat)
    (id : NodeId) (after : State) : Prop where
  stored : after.arena.Shaped id (.integer value)
  ahead : after.Ahead words constructs
  adds : before.Adds 1 0 [] after

namespace FigureStored

variable {before middle after : State} {value constructs : Nat} {words : List Word} {id : NodeId}

theorem later (figure : FigureStored before value words constructs id middle)
    (ahead : after.Ahead words constructs) (passed : middle.Adds 0 0 [] after) :
    FigureStored before value words constructs id after :=
  ⟨passed.shaped figure.stored, ahead, figure.adds.later passed⟩

theorem since (figure : FigureStored middle value words constructs id after)
    (passed : before.Adds 0 0 [] middle) : FigureStored before value words constructs id after :=
  ⟨figure.stored, figure.ahead, figure.adds.since passed⟩

theorem shallower
    (figure : FigureStored { before with depth := before.depth + 1 } value words constructs id
      after) :
    FigureStored before value words constructs id { after with depth := after.depth - 1 } :=
  ⟨figure.stored, figure.ahead.alike rfl rfl rfl rfl rfl figure.ahead.free rfl,
    figure.adds.shallower⟩

end FigureStored

namespace Parse

variable {table : RuleTable} {depth value constructs : Nat} {state : State} {words : List Word}
  {rule : CommandRule} {excused : Fatal → State → Prop}

theorem peekToken_stop (ahead : state.Ahead words constructs)
    (ends : Word.EndOperand constructs words) :
    Yields table peekToken state (fun token after => after.lookahead = some token ∧
      token.kind.endsOperand = true ∧ after.Ahead words constructs ∧ state.Adds 0 0 [] after)
      excused := by
  cases words with
  | nil =>
      subst ends
      refine (peekToken_last ahead).mono ?_
      rintro token after ⟨seen, kind, ahead, looked⟩
      exact ⟨seen, kind ▸ rfl, ahead, looked⟩
  | cons word words =>
      refine (peekToken_word ahead).mono ?_
      rintro token after ⟨seen, announced, ahead, looked⟩
      refine ⟨seen, ?_, ahead, looked⟩
      rcases ends with rfl | rfl | rfl <;> rw [show token.kind = _ from announced] <;> rfl

theorem primary_figure (ahead : state.Ahead (.number value :: words) constructs)
    (room : state.Room 1) :
    Succeeds table primary state fun operand after => ∃ id, operand = .node id ∧
      FigureStored state value words constructs id after := by
  refine (peekToken_word ahead).bind ?_
  rintro ⟨_, span⟩ peeked ⟨seen, rfl, ahead, looked⟩
  refine Yields.skip_word ahead seen fun taken _ ahead passed => ?_
  have before := passed.since looked
  refine (alloc_ahead ahead (before.room room) _ span).bind ?_
  rintro id after ⟨stored, ahead, adds⟩
  exact yields_pure ⟨id, rfl, stored, ahead, adds.since before⟩

theorem argumentOperand_figure (ahead : state.Ahead (.number value :: words) constructs)
    (ends : Word.EndOperand constructs words) (room : state.Room 1)
    (shallow : state.depth < state.limits.maxDepth) :
    Succeeds (Parse.table depth) (argumentOperand rule) state (Stopped fun operand after =>
      ∃ id, operand = .node id ∧ FigureStored state value words constructs id after) := by
  have peeks : Succeeds (Parse.table depth) peekToken state fun token after =>
      after.lookahead = some token ∧ token.kind.opensOperand = true ∧
        after.Ahead (.number value :: words) constructs ∧ state.Adds 0 0 [] after := by
    refine (peekToken_word ahead).mono ?_
    rintro token after ⟨seen, announced, ahead, looked⟩
    exact ⟨seen, by rw [show token.kind = _ from announced]; rfl, ahead, looked⟩
  refine Yields.ahead_bind peeks ?_
  rintro token peeked seen ⟨opens, ahead, looked⟩
  let deeper : State := { peeked with depth := peeked.depth + 1 }
  have inner : deeper.Ahead (.number value :: words) constructs :=
    ahead.alike rfl rfl rfl rfl rfl ahead.free rfl
  have roomy : peeked.Room 1 := looked.room room
  have shallow := looked.shallow shallow
  have operands : Succeeds (Parse.table depth) (operand rule) deeper (Stopped fun operand after =>
      ∃ id, operand = .node id ∧ FigureStored deeper value words constructs id after) := by
    refine operand_stops ?_ fun depth => chain_stops (primary_figure inner roomy) ?_
    · rintro _ after ⟨id, rfl, -⟩
      rfl
    rintro _ current ⟨id, rfl, figure⟩
    refine Yields.bind (peekToken_stop figure.ahead ends) ?_
    rintro token after ⟨seen, stops, ahead, looked⟩
    exact yields_pure ⟨token, rfl, seen, stops, id, rfl, figure.later ahead looked⟩
  refine argumentOperand_stops seen opens shallow (operands.mono ?_)
  rintro _ after ⟨⟨id, rfl, figure⟩, next⟩
  exact ⟨⟨id, rfl, figure.shallower.since looked⟩, next⟩

theorem argumentValue_figure (ahead : state.Ahead (.number value :: words) constructs)
    (ends : Word.EndOperand constructs words) (room : state.Room 1)
    (shallow : state.depth < state.limits.maxDepth) :
    Succeeds (Parse.table depth) argumentValue state (FigureStored state value words constructs) := by
  have given : Succeeds (Parse.table depth) (argument .accepted) state
      (FigureStored state value words constructs) := by
    refine (descend_yields (.argument .accepted)
      (fun _ => argumentOperand_figure ahead ends room shallow) depth).bind ?_
    rintro _ after ⟨⟨id, rfl, figure⟩, -⟩
    exact yields_lift (Scan.yields_pure figure)
  refine given.bind fun id after figure => ?_
  refine Yields.lift_bind (Scan.requireValue_of_shaped figure.stored rfl) ?_
  rintro _ _ rfl
  exact yields_pure figure

end Parse

/-! ### Programs -/

theorem parse_of_row {source : Bytes} {options : ParseOptions} {symbols : SymbolTable}
    {read : List NodeId → State → Prop}
    (yields : ∀ depth, Parse.Succeeds (Parse.table depth) Parse.statements
      (State.start source options symbols) fun body after =>
        (∃ items, after.arena.Sequence items body ∧ read items after) ∧ after.Finished)
    (single : ∀ item after, read [item] after → ∃ shape, after.arena.Shaped item shape ∧
      ∀ others, shape ≠ .list .statements others) :
    let parsed := parse source options symbols
    parsed.fatal = none ∧ ∃ items state after, read items state ∧ state.Builds 1 after ∧
      parsed.report = state.report ∧ parsed.locals = state.scopes.locals ∧
      parsed.statements? = some items ∧ parsed.arena = after.arena ∧
      parsed.symbols = after.symbols := by
  obtain ⟨root, after, ⟨locals, body, middle, ⟨items, sequence, whole⟩, stores⟩, given⟩ :=
    parse_succeeds fun depth => Parse.program_of_statements (yields depth)
  have scopes : after.scopes = middle.scopes := by
    obtain ⟨arena, rfl⟩ := stores.others
    rfl
  rw [given]
  refine ⟨rfl, items, middle, after, whole, stores.builds, stores.builds.quiet,
    congrArg ScopeStack.locals scopes, ?_, rfl, rfl⟩
  refine Parsed.statements_of_scope rfl stores.stored (sequence.kept stores.builds.toGains) ?_
  rintro item rfl
  obtain ⟨shape, shaped, noList⟩ := single item middle whole
  exact ⟨shape, stores.builds.shaped shaped, noList⟩

end RubySyntax
