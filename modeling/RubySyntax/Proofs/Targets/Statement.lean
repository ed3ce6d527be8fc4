/-
Assignments to several targets, each on a line of its own.

The statement starts either with a star or with a name that a comma comes after. Both ways the
targets are read to the sign, and the value after it is joined with them.
-/

import RubySyntax.Proofs.Targets.List

namespace RubySyntax

def EndsLine (words : List Word) : Prop :=
  words = [] ∨ ∃ more, words = .lineFeed :: more

namespace EndsLine

variable {words : List Word} {state : State} {token : Token}

theorem endOperand (ends : EndsLine words) : Word.EndOperand 0 words := by
  rcases ends with rfl | ⟨more, rfl⟩
  · exact rfl
  · exact .inr (.inr rfl)

theorem kind_eq (ends : EndsLine words) (ahead : state.Ahead words)
    (seen : state.lookahead = some token) : token.kind = .newline ∨ token.kind = .endOfInput := by
  rcases ends with rfl | ⟨more, rfl⟩
  · exact .inr (ahead.ended seen)
  · exact .inl (ahead.announced seen)

theorem closes (ends : EndsLine words) (ahead : state.Ahead words)
    (seen : state.lookahead = some token) : token.kind.closes = true := by
  rcases ends.kind_eq ahead seen with kind | kind <;> exact kind ▸ rfl

end EndsLine

structure TargetLine extends Targets where
  several : gathered.isSome = true ∨ 2 ≤ before.length
deriving DecidableEq

namespace TargetLine

def text (line : TargetLine) : Bytes :=
  (ascii ", ").intercalate (line.items.map (·.text)) ++ ascii " = 0"

def words (line : TargetLine) : List Word :=
  Word.commaList TargetItem.words false line.items ++ [.assign, .number 0]

def nodes (line : TargetLine) : Nat :=
  itemsNodes line.items + 3

theorem items_cases (line : TargetLine) :
    (∃ rest more, line.items = ⟨true, rest⟩ :: more) ∨
      ∃ first other more, line.items = .plain first :: other :: more := by
  obtain ⟨⟨before, gathered⟩, several⟩ := line
  cases before with
  | nil =>
      cases gathered with
      | none => rcases several with splat | long <;> contradiction
      | some gathered => exact .inl ⟨gathered.1, _, rfl⟩
  | cons first before =>
      cases before with
      | cons other more => exact .inr ⟨first, .plain other, _, rfl⟩
      | nil =>
          cases gathered with
          | none => rcases several with splat | long <;> contradiction
          | some gathered => exact .inr ⟨first, ⟨true, gathered.1⟩, _, rfl⟩

end TargetLine

/-- The node of an assignment of `0` to some targets: those before the splat, the splat and those
after it are apart, each of them a variable. -/
def Targets.Assigned (targets : Targets) (arena : Arena) (symbols : SymbolTable) (id : NodeId) :
    Prop :=
  ∃ target value list, arena.Shaped id (.binary .multipleAssign target value) ∧
    arena.Shaped value (.integer 0) ∧
    arena.Shaped target (.targets list.before list.rest list.after) ∧
    targets.Stored arena symbols list

theorem Targets.Assigned.kept {targets : Targets} {before after : State} {nodes errors : Nat}
    {id : NodeId} (gains : before.Gains nodes errors after)
    (assigned : targets.Assigned before.arena before.symbols id) :
    targets.Assigned after.arena after.symbols id := by
  obtain ⟨target, value, list, joined, given, listed, stored⟩ := assigned
  exact ⟨target, value, list, gains.shaped joined, gains.shaped given, gains.shaped listed,
    stored.kept gains⟩

structure AssignmentRead (before : State) (targets : Targets) (words : List Word) (id : NodeId)
    (after : State) : Prop where
  assigned : targets.Assigned after.arena after.symbols id
  ahead : after.Ahead words
  adds : ∃ symbols, after.symbols.Issued targets.names symbols ∧
    before.Adds (itemsNodes targets.items + 3) 0 symbols after

namespace Parse

variable {depth value : Nat} {state : State} {words : List Word} {first : Token}

theorem values_figure (ahead : state.Ahead (.number value :: words)) (ends : EndsLine words)
    (room : state.Room 1) (shallow : state.depth < state.limits.maxDepth) :
    Succeeds (Parse.table depth) values state fun id after =>
      FigureStored state value words 0 id after ∧
        ∃ token, after.lookahead = some token ∧ token.kind.closes = true := by
  have given : Succeeds (Parse.table depth) firstValue state fun id after =>
      FigureStored state value words 0 id after ∧
        ∃ token, after.lookahead = some token ∧ token.kind.closes = true := by
    refine (peekKind_word ahead).bind ?_
    rintro _ peeked ⟨token, rfl, -, kind, ahead, looked⟩
    rw [show token.kind = .integer value from kind, if_neg nofun]
    refine (descend_yields (.argument .accepted) (fun _ => argumentOperand_figure ahead
      ends.endOperand (looked.room room) (looked.shallow shallow)) depth).bind ?_
    rintro _ current ⟨⟨id, rfl, figure⟩, next, seen, -⟩
    have finished : Succeeds (Parse.table depth) (finishCommand (.node id) .accepted true) current
        fun node after => node = id ∧ after = current :=
      finishCommand_of_alone rfl seen (Scan.yields_pure ⟨rfl, rfl⟩)
    refine finished.bind ?_
    rintro _ _ ⟨rfl, rfl⟩
    refine Yields.lift_bind (Scan.requireValue_of_shaped figure.stored rfl) ?_
    rintro _ _ rfl
    exact yields_pure ⟨figure.since looked, next, seen, ends.closes figure.ahead seen⟩
  refine given.bind ?_
  rintro id current ⟨figure, next, seen, closes⟩
  obtain ⟨node, found, shaped⟩ := figure.stored
  refine Yields.lift_bind (Scan.shapeOf_of_get found) ?_
  rintro _ _ ⟨rfl, rfl⟩
  rw [shaped]
  refine Yields.peekKind_bind seen ?_
  have alone : (next.kind != .punct .comma) = true := by
    rw [bne_iff_ne]
    intro same
    rw [same] at closes
    cases closes
  rw [pure_bind, alone]
  exact yields_pure ⟨figure, next, seen, closes⟩

theorem multipleAssign_targets {origin : State} {targets : Targets} {target : NodeId}
    (read : TargetsRead origin targets (.number 0 :: words) target state) (ends : EndsLine words)
    (room : origin.Room (itemsNodes targets.items + 3))
    (shallow : origin.depth < origin.limits.maxDepth) :
    Succeeds (Parse.table depth) (multipleAssign target) state
      (Closed (AssignmentRead origin targets words)) := by
  obtain ⟨⟨list, stored, listed⟩, ahead, symbols, issued, adds⟩ := read
  refine (expect_word ahead fun _ _ kind => kind).bind ?_
  rintro _ signed ⟨-, ahead, passed⟩
  have before := adds.later passed
  have left : signed.Room (1 + 1) := State.Room.after room before.toGains
  refine (values_figure ahead ends (left.of_le (by decide)) (before.shallow shallow)).bind ?_
  rintro value current ⟨figure, next, seen, closes⟩
  refine Yields.lift_bind (Scan.spanOfBoth_yields target value) ?_
  rintro both _ rfl
  refine yields_lift ((Scan.alloc_succeeds figure.ahead.free (State.Room.after left
    figure.adds.toGains) _ both).mono ?_)
  intro id after stores
  have joined := State.Adds.of_stores stores
  have later := (passed.trans figure.adds).trans joined
  have whole := before.trans (figure.adds.trans joined)
  rw [List.append_nil, List.append_nil] at whole
  have ahead := figure.ahead.stored stores
  refine ⟨⟨⟨target, value, list, stores.stored, joined.shaped figure.stored, later.shaped listed,
    stored.kept later.toGains⟩, ahead, symbols, issued.later later.names, whole⟩,
    ahead.unlabelled, next, ?_, closes⟩
  obtain ⟨arena, rfl⟩ := stores.others
  exact seen

theorem plainStatement_splat {targets : Targets} {rest : VariableName} {more : List TargetItem}
    (items : targets.items = ⟨true, rest⟩ :: more)
    (ahead : state.Ahead (Word.commaList TargetItem.words false targets.items ++
      .assign :: .number 0 :: words)) (ends : EndsLine words) (seen : state.lookahead = some first)
    (room : state.Room (itemsNodes targets.items + 3))
    (shallow : state.depth < state.limits.maxDepth) :
    Succeeds (Parse.table depth) (plainStatement first) state
      (Closed (AssignmentRead state targets words)) := by
  have star : first.kind = .punct .splatStar := by
    rw [items] at ahead
    exact ahead.announced seen
  unfold plainStatement
  rw [star]
  have some : targets.items ≠ [] := by
    rw [items]
    nofun
  have start : ItemsRead state targets targets.items { before := [] } state := .start state targets
  refine (targetsRest_items start ahead (fun _ => some)
    (room.of_le (Nat.add_le_add_left (by decide) _)) first.span).bind ?_
  intro target read listed
  exact multipleAssign_targets listed ends room shallow

/-- The first name of a list is read as an expression, and the others after it. -/
theorem plainStatement_name {targets : Targets} {name : VariableName} {other : TargetItem}
    {more : List TargetItem} (closed : state.Opaque)
    (items : targets.items = .plain name :: other :: more)
    (ahead : state.Ahead (Word.commaList TargetItem.words false targets.items ++
      .assign :: .number 0 :: words)) (ends : EndsLine words) (seen : state.lookahead = some first)
    (room : state.Room (itemsNodes targets.items + 3))
    (shallow : state.depth < state.limits.maxDepth) :
    Succeeds (Parse.table depth) (plainStatement first) state
      (Closed (AssignmentRead state targets words)) := by
  have named : state.Ahead (.name false name :: .comma :: (other.words true ++
      TargetItem.laterWords more ++ .assign :: .number 0 :: words)) := by
    rw [items] at ahead
    exact ahead
  have one : state.Room 1 := room.of_le (Nat.le_add_left ..)
  have start := ItemsRead.start state targets
  rw [items] at start
  have whole : Succeeds (Parse.table depth) expressionStatement state
      (Closed (AssignmentRead state targets words)) := by
    refine Yields.peek_bind seen ((expression_word seen named one shallow).bind ?_)
    rintro id current ⟨symbol, stored⟩
    obtain ⟨token, next, comma⟩ := stored.next
    obtain ⟨node, held, -, shaped⟩ := stored.node
    have follow : Succeeds (Parse.table depth) (targetsAfter id first.span) current
        (Closed (AssignmentRead state targets words)) := by
      refine Yields.lift_bind (targetOfNode_word closed one stored) ?_
      rintro target read ⟨found, stored, ahead, adds⟩
      have reads : ItemsRead state targets (other :: more) { before := [target] } read :=
        start.push ⟨⟨target, ⟨symbol, found, stored⟩, rfl⟩, ahead, symbol, found, adds⟩
      refine (targetsRest_items reads ahead nofun
        (room.of_le (Nat.add_le_add_left (by decide) _)) _).bind ?_
      intro list after listed
      refine (peekKind_word listed.ahead).bind ?_
      rintro _ peeked ⟨token, rfl, -, kind, ahead, looked⟩
      rw [show token.kind = .punct .assign from kind, if_neg nofun]
      exact multipleAssign_targets (listed.later ahead looked) ends room shallow
    refine Yields.peekKind_bind next (Yields.lift_bind (Scan.shapeOf_of_get held) ?_)
    rintro _ _ ⟨rfl, rfl⟩
    rw [shaped]
    cases state.scopes.isLocal symbol with
    | true =>
        rw [if_pos rfl, comma]
        exact follow
    | false =>
        rw [if_neg Bool.false_ne_true, comma]
        exact follow
  obtain ⟨_, kind, -⟩ := named.announced seen
  unfold plainStatement
  rw [kind]
  exact whole

theorem statement_targets (line : TargetLine) (closed : state.Opaque)
    (ahead : state.Ahead (line.words ++ words)) (ends : EndsLine words)
    (seen : state.lookahead = some first) (room : state.Room line.nodes)
    (shallow : state.depth < state.limits.maxDepth) :
    Succeeds (Parse.table depth) statement state
      (Closed (AssignmentRead state line.toTargets words)) := by
  rw [TargetLine.words, List.append_assoc] at ahead
  apply statement_of_plain seen
  rcases line.items_cases with ⟨rest, more, items⟩ | ⟨name, other, more, items⟩
  · exact plainStatement_splat items ahead ends seen room shallow
  · exact plainStatement_name closed items ahead ends seen room shallow

end Parse

end RubySyntax
