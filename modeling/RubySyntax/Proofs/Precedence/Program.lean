/-
A program that is one expression of numbers and operators.

Its tree spells what is written, in order, and respects the table of
precedence. Comparisons for equality in a row are read all the same, and each
one after the first is reported.
-/

import RubySyntax.Proofs.Precedence.Rule
import RubySyntax.Proofs.Program

namespace RubySyntax

def Parsed.Builds (parsed : Parsed) (tree : OperatorTree) : Prop :=
  parsed.fatal = none ∧ ∃ root node locals body,
    parsed.tree = some root ∧ parsed.arena.get? root = some node ∧
      node.shape = .scope locals (some body) ∧ parsed.arena.Holds parsed.symbols tree body

def WholeRead (before : State) (value : Nat) (rest : List (Operator × Nat)) (id : NodeId)
    (after : State) : Prop :=
  ∃ tree, TreeStored before value rest tree id [] after

namespace Parse

variable {table : RuleTable} {state : State} {value : Nat} {rest : List (Operator × Nat)}

theorem expressionStatement_yields (serves : ReadsTrees table)
    (ready : state.Ready (.operand value rest)) :
    Yields table expressionStatement state (WholeRead state value rest) := by
  refine (peekToken_yields ready).bind ?_
  rintro token peeked ⟨-, -, ready, begun⟩
  refine (expression_yields serves .accepted ready).bind ?_
  rintro id read ⟨tree, remaining, stored, rfl⟩
  refine (peekKind_yields stored.ready).bind ?_
  rintro _ looked ⟨rfl, -, ready, seen⟩
  refine Yields.lift_bind (Scan.shapeOf_yields id) ?_
  rintro shape settled ⟨rfl, -⟩
  have done : WholeRead state value rest id settled :=
    ⟨tree, (stored.earlier begun).later ready seen⟩
  split
  · exact yields_pure done
  · exact yields_pure done
  · exact yields_pure done

theorem statement_yields (serves : ReadsTrees table)
    (ready : state.Ready (.operand value rest)) :
    Yields table statement state (WholeRead state value rest) := by
  refine (peekToken_yields ready).bind ?_
  rintro ⟨_, span⟩ peeked ⟨rfl, -, ready, begun⟩
  refine (expressionStatement_yields serves ready).bind ?_
  rintro id read ⟨tree, stored⟩
  have noKey : Scan.Yields Scan.takeQuotedKey? read fun key after =>
      key = none ∧ after.Ready (.operator []) ∧ read.Grows 0 after :=
    ⟨stored.ready.unlabelled, ⟨stored.ready.faces, stored.ready.free, rfl⟩,
      fun _ _ found => found, fun _ known => ⟨known, rfl⟩, rfl⟩
  refine Yields.lift_bind noKey ?_
  rintro _ cleared ⟨rfl, ready, kept⟩
  refine repeatUntil_yields (WholeRead state value rest) _
    ⟨tree, (stored.earlier begun).later ready kept⟩ ?_
  rintro id current ⟨tree, stored⟩
  refine (peekToken_yields stored.ready).bind ?_
  rintro token looked ⟨-, -, ready, seen⟩
  have none : Yields table (modifier? ⟨.integer value, span⟩ id) looked fun shape? after =>
      shape? = none ∧ WholeRead state value rest id after := by
    refine (peekKind_yields ready).bind ?_
    rintro _ after ⟨rfl, -, ready, further⟩
    exact yields_pure ⟨rfl, tree, stored.later ready (seen.trans further)⟩
  refine none.bind ?_
  rintro _ after ⟨rfl, done⟩
  exact yields_pure done

theorem skipTerminators_yields {left : Remainder} (ready : state.Ready left)
    (other : left.kind.isTerminator = false) :
    Yields table skipTerminators state fun _ after =>
      after.Ready left ∧ state.Grows 0 after := by
  refine repeatUntil_yields (fun _ current => current.Ready left ∧ state.Grows 0 current) _
    ⟨ready, State.Grows.refl state⟩ ?_
  rintro _ current ⟨ready, grown⟩
  refine (peekKind_yields ready).bind ?_
  rintro _ after ⟨rfl, -, ready, seen⟩
  rw [other]
  exact yields_pure ⟨ready, grown.trans seen⟩

theorem statementList_yields (serves : ReadsTrees table)
    (ready : state.Ready (.operand value rest)) :
    Yields table statementList state fun items after =>
      ∃ id, items = [id] ∧ WholeRead state value rest id after := by
  refine Yields.bind (repeatUntil_yields
    (fun items current =>
      (items = #[] ∧ current.Ready (.operand value rest) ∧ state.Grows 0 current) ∨
        ∃ id, items = #[id] ∧ WholeRead state value rest id current)
    (fun items after => ∃ id, items = #[id] ∧ WholeRead state value rest id after)
    (.inl ⟨rfl, ready, State.Grows.refl state⟩) ?_) ?_
  · rintro _ current (⟨rfl, ready, grown⟩ | ⟨id, rfl, tree, stored⟩)
    · refine (skipTerminators_yields ready rfl).bind ?_
      rintro _ skipped ⟨ready, passed⟩
      refine (peekKind_yields ready).bind ?_
      rintro _ peeked ⟨rfl, -, ready, seen⟩
      refine (statement_yields serves ready).bind ?_
      rintro id read ⟨tree, stored⟩
      refine (peekToken_yields stored.ready).bind ?_
      rintro ⟨_, span⟩ looked ⟨rfl, -, ready, further⟩
      have before := (grown.trans passed).trans seen
      exact yields_pure (.inr ⟨id, rfl, tree, (stored.earlier before).later ready further⟩)
    · refine (skipTerminators_yields stored.ready rfl).bind ?_
      rintro _ skipped ⟨ready, passed⟩
      refine (peekKind_yields ready).bind ?_
      rintro _ peeked ⟨rfl, -, ready, seen⟩
      exact yields_pure ⟨id, rfl, tree, stored.later ready (passed.trans seen)⟩
  · rintro _ after ⟨id, rfl, read⟩
    exact yields_pure ⟨id, rfl, read⟩

theorem statements_yields (serves : ReadsTrees table)
    (ready : state.Ready (.operand value rest)) :
    Yields table statements state fun result after =>
      ∃ id, result = some id ∧ WholeRead state value rest id after := by
  refine (statementList_yields serves ready).bind ?_
  rintro _ read ⟨id, rfl, whole⟩
  refine (spanOfEnds_yields [id]).bind ?_
  rintro span settled rfl
  exact yields_pure ⟨id, rfl, whole⟩

theorem programItems_yields (serves : ReadsTrees table)
    (ready : state.Ready (.operand value rest)) :
    Yields table programItems state fun items after =>
      ∃ id, items = [id] ∧ WholeRead state value rest id after := by
  refine Yields.bind (repeatUntil_yields
    (fun items current =>
      items = #[] ∧ current.Ready (.operand value rest) ∧ state.Grows 0 current)
    (fun items after => ∃ id, items = #[id] ∧ WholeRead state value rest id after)
    ⟨rfl, ready, State.Grows.refl state⟩ ?_) ?_
  · rintro _ current ⟨rfl, ready, grown⟩
    refine (statements_yields serves ready).bind ?_
    rintro _ read ⟨id, rfl, tree, stored⟩
    refine (peekToken_yields stored.ready).bind ?_
    rintro ⟨_, span⟩ looked ⟨rfl, -, ready, seen⟩
    exact yields_pure ⟨id, rfl, tree, (stored.earlier grown).later ready seen⟩
  · rintro _ after ⟨id, rfl, read⟩
    exact yields_pure ⟨id, rfl, read⟩

theorem program_yields (serves : ReadsTrees table)
    (ready : state.Ready (.operand value rest)) :
    Yields table program state fun root after =>
      ∃ node locals id tree, after.arena.get? root = some node ∧
        node.shape = .scope locals (some id) ∧ TreeStored state value rest tree id [] after := by
  refine (programItems_yields serves ready).bind ?_
  rintro _ read ⟨id, rfl, tree, stored⟩
  refine (spanOfEnds_yields [id]).bind ?_
  rintro span settled rfl
  have single : Yields table (sequence [id] span) settled fun inner after =>
      inner = some id ∧ after = settled := yields_pure ⟨rfl, rfl⟩
  refine single.bind ?_
  rintro _ settled ⟨rfl, rfl⟩
  refine Yields.get_bind (yields_lift ((Scan.alloc_yields stored.ready.free _ _).mono ?_))
  rintro root _ ⟨arena, rfl, free, grown, node, found, shape⟩
  exact ⟨node, _, id, tree, found, shape,
    stored.later ⟨stored.ready.faces, free, stored.ready.unlabelled⟩ grown⟩

/-- A run that gives a value has read the whole expression. -/
theorem program_value (serves : ReadsTrees table) (ready : state.Ready (.operand value rest))
    {root : NodeId} {after : State} (run : program table state = .ok root after) :
    ∃ node locals id tree, after.arena.get? root = some node ∧
      node.shape = .scope locals (some id) ∧ TreeStored state value rest tree id [] after :=
  Scan.Yields.value (program_yields serves ready) run

theorem program_limit (serves : ReadsTrees table) (ready : state.Ready (.operand value rest))
    {error : Fatal} {after : State} (run : program table state = .error (.fatal error) after) :
    error.IsLimit :=
  Scan.Yields.limit (program_yields serves ready) run

end Parse

section

variable (first : Nat) (rest : List (Operator × Nat)) (options : ParseOptions)
  (symbols : SymbolTable)

theorem State.start_ready :
    (State.start (expressionText first rest) options symbols).Ready (.operand first rest) where
  faces := ⟨⟨rfl, rfl, rfl, rfl, rfl, rfl, rfl, rfl⟩, .inl rfl⟩
  free := (Arena.sound_withLimit True options.maxNodes).free
  unlabelled := rfl

/-- A parse respects the table of precedence. Numbers joined by operators give
a tree that spells what is written, in order. The operator of a left operand
binds at least as tightly as the one that it is an operand of, that of a right
operand more tightly, and for powers it is the other way round. Each comparison
for equality whose left operand is another one is an error, and there are no
others. Only a limit on depth or on nodes can keep a tree from being built. -/
theorem parse_respects_precedence :
    (∃ error, (parse (expressionText first rest) options symbols).fatal = some error ∧
      error.IsLimit) ∨
    ∃ tree, (parse (expressionText first rest) options symbols).Builds tree ∧
      tree.first = first ∧ tree.rest = rest ∧ tree.Ordered ∧
      (parse (expressionText first rest) options symbols).report.errors = tree.chained := by
  have ready := State.start_ready first rest options symbols
  have ended := tree_or_fatal (expressionText first rest) options symbols
  unfold parse at ended ⊢
  cases run : runProgram (expressionText first rest) options symbols with
  | ok root after =>
      obtain ⟨node, locals, body, tree, found, shape, stored⟩ :=
        Parse.program_value (readsTrees _) ready run
      have spelled : tree.rest = rest := by
        rw [← List.append_nil tree.rest]
        exact stored.rest
      have counted : after.report.errors = tree.chained :=
        stored.grows.errors.trans (Nat.zero_add _)
      exact .inr ⟨tree, ⟨rfl, root, node, locals, body, rfl, found, shape, stored.holds⟩,
        stored.first, spelled, stored.ordered, counted⟩
  | error halt after =>
      rw [run] at ended
      cases halt with
      | fatal error => exact .inl ⟨error, rfl, Parse.program_limit (readsTrees _) ready run⟩
      | starved => exact ended.elim nofun nofun
      | fault fault => exact ended.elim nofun nofun

end

example :
    let parsed := parse (ascii "1 == 2 + 3 == 4") {} {}
    parsed.tree.isSome = true ∧ parsed.report.errors = 1 := by
  decide +kernel

end RubySyntax
