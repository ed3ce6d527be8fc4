/-
Expressions at the levels that other rules ask for, and the arguments of
calls.
-/

import RubySyntax.Proofs.Grammar.Condition
import RubySyntax.Grammar.Argument

namespace RubySyntax

instance : HasHandles (HashEntry NodeId) := ⟨fun entry => entry.children.map .node⟩

instance : HasHandles Parse.ArgumentList :=
  ⟨fun list => handlesOf list.items ++ (handlesOf list.block ++ handlesOf list.pairs)⟩

@[simp] theorem handlesOf_entry_pair (key value : NodeId) :
    handlesOf (HashEntry.pair key value) = [.node key, .node value] := rfl
@[simp] theorem handlesOf_doubleSplat (value : NodeId) :
    handlesOf (HashEntry.doubleSplat value) = [.node value] := rfl
theorem handlesOf_argumentList (list : Parse.ArgumentList) :
    handlesOf list =
      handlesOf list.items ++ (handlesOf list.block ++ handlesOf list.pairs) := rfl

@[simp] theorem forall_handlesOf_entries {entries : List (HashEntry NodeId)}
    {holds : Handle → Prop} :
    (∀ handle ∈ handlesOf entries, holds handle) ↔
      ∀ id ∈ entries.flatMap HashEntry.children, holds (.node id) := by
  simp only [handlesOf, List.mem_flatMap, List.mem_map]
  constructor
  · rintro all id ⟨entry, member, child⟩
    exact all _ ⟨entry, member, id, child, rfl⟩
  · rintro all _ ⟨entry, member, id, child, rfl⟩
    exact all id ⟨entry, member, child⟩

namespace Parse

variable {tables : Tables} {limit : Nat} {base state : State} {handles : List Handle}

/-! ### Expressions -/

theorem argument_ends (calls : Meets tables limit) (sound : state.Sound tables.stoppable)
    (enough : 8 * state.measure + 5 < limit) (rule : CommandRule) :
    Makes tables (argument rule) state fun id after => after.arena.Rooted id := by
  refine Ends.bind (calls.argument rule state sound enough) ?_
  rintro operand reached ⟨held, read⟩
  exact (extends_lift (Scan.nodeOf_builds held (fun _ => id) read.rooted)).makes
    fun _ _ _ rooted => rooted

theorem argumentValue_ends (calls : Meets tables limit) (sound : state.Sound tables.stoppable)
    (enough : 8 * state.measure + 5 < limit) :
    Makes tables argumentValue state fun _ _ => True := by
  refine Ends.bind (argument_ends calls sound enough .accepted) ?_
  rintro id reached ⟨held, -⟩
  refine Ends.lift_bind (Scan.requireValue_builds held (held.live (by simp))) ?_
  rintro _ after ⟨held, -⟩
  exact makes_pure held trivial

theorem expressionTurn_ends (calls : Meets tables limit) {left : NodeId}
    (held : Held tables.stoppable base (handlesOf left) state)
    (rooted : state.arena.Rooted left) (enough : 8 * state.measure + 6 < limit)
    (rule : CommandRule) :
    Ends tables (expressionTurn rule left) state (Turned
      (fun left after => Held tables.stoppable base (handlesOf left) after ∧
        after.arena.Rooted left)
      (fun left after => Held tables.stoppable base (handlesOf left) after ∧
        after.arena.Rooted left) state) := by
  refine (peekKind_ends calls held.sound (by omega)).bind held ?_
  rintro _ peeked held made ⟨token, seen, rfl⟩
  have before := made.keeps.onward
  split <;> dsimp only
  case h_3 => exact ends_pure ⟨held.weaken (by simp), made.rooted rooted⟩
  all_goals
    rename_i kind
    refine (skip_ends held.sound ⟨token, seen, by simp [kind]⟩).bind held ?_
    rintro _ skipped held - ⟨less, -⟩
    refine (calls.negation rule skipped held.sound (by omega)).bind held ?_
    rintro right joined held made -
    have after := made.keeps.onward
    refine Ends.look_bind (Scan.spanOfBoth_looks (held.live (by simp)) (held.live (by simp))) ?_
    intro span _
    refine Ends.lift_bind (Scan.alloc_ends held (by simp) span) ?_
    rintro id last ⟨held, still, rooted⟩
    have calm := still.calm
    exact ends_pure ⟨⟨held.weaken (by simp), rooted⟩, by omega⟩

theorem expression_ends (calls : Meets tables limit) (sound : state.Sound tables.stoppable)
    (enough : 8 * state.measure + 6 < limit) (rule : CommandRule) :
    Makes tables (expression rule) state fun id after => after.arena.Rooted id := by
  refine Ends.bind (calls.negation rule state sound enough) ?_
  rintro first reached ⟨held, rooted⟩
  refine loop_ends (fun left current => Held tables.stoppable state (handlesOf left) current ∧
    current.arena.Rooted left) held.sound ⟨held, rooted⟩ fun left current made onward => ?_
  have shorter := held.keeps.onward
  exact expressionTurn_ends calls made.1 made.2 (by omega) rule

theorem expressionValue_ends (calls : Meets tables limit)
    (sound : state.Sound tables.stoppable) (enough : 8 * state.measure + 6 < limit) :
    Makes tables expressionValue state fun id after => after.arena.Rooted id := by
  refine Ends.bind (expression_ends calls sound enough .accepted) ?_
  rintro id reached ⟨held, rooted⟩
  refine Ends.lift_bind (Scan.requireValue_builds held (held.live (by simp))) ?_
  rintro _ after ⟨held, -, same⟩
  exact makes_pure held (same ▸ rooted)

theorem conditionValue_ends (calls : Meets tables limit)
    (sound : state.Sound tables.stoppable) (enough : 8 * state.measure + 6 < limit) :
    Makes tables conditionValue state fun _ _ => True := by
  refine Ends.bind (expressionValue_ends calls sound enough) ?_
  rintro id reached ⟨held, -⟩
  exact (extends_lift (Scan.condition_builds held (by simp))).makes fun _ _ _ _ => trivial

/-- A command call, if arguments follow an operand that takes them. That took
a token, so there is room for the call. -/
theorem finishCommand_ends (calls : Meets tables limit)
    (held : Held tables.stoppable base handles state) {operand : Operand}
    (mine : ∀ handle ∈ handlesOf operand, handle ∈ handles)
    (rooted : operand.Rooted state.arena) (enough : 8 * state.measure < limit)
    (room : operand.takesArguments = true → 8 * state.measure + 6 < limit)
    (rule : CommandRule) (allowBlock : Bool) :
    Extends tables base handles (finishCommand operand rule allowBlock) state
      fun id after => after.arena.Rooted id := by
  refine (peekToken_ends calls held.sound enough).bind held ?_
  rintro token peeked held made ⟨seen, -⟩
  have shorter := made.keeps.onward
  have own : ∀ handle ∈ handlesOf operand, handle ∈ handlesOf token ++ handles :=
    fun handle member => List.mem_append_right _ (mine handle member)
  refine Ends.ite (fun takes => ?_) fun _ => ?_
  · have room := room (Bool.and_eq_true_iff.mp takes).1
    refine Ends.when (fun reached => Held tables.stoppable base (handlesOf token ++ handles)
      reached ∧ Still peeked reached) (fun _ => ?_) (fun _ => ⟨held, Still.refl peeked⟩) ?_
    · exact (ends_lift (Scan.report_builds held _ _)).mono fun _ _ built =>
        ⟨built.1, built.2.1⟩
    · rintro reached ⟨held, still⟩
      have same := still.calm
      exact (calls.command operand allowBlock base _ reached held own (by omega)).since
        (by omega) (by simp +contextual) fun _ _ _ rooted => rooted
  · have rooted : operand.Rooted peeked.arena := fun id same => made.rooted (rooted id same)
    exact (extends_lift (Scan.nodeOf_builds held own rooted)).since shorter
      (by simp +contextual) fun _ _ _ rooted => rooted

/-! ### Items -/

theorem splatItem_ends (calls : Meets tables limit) (sound : state.Sound tables.stoppable)
    (ahead : state.AtToken) (enough : 8 * state.measure ≤ limit) :
    Makes tables splatItem state fun _ _ => True := by
  obtain ⟨token, seen, more⟩ := ahead
  refine Ends.bind (take_ends sound seen more) ?_
  rintro star taken ⟨held, -, less, -⟩
  refine (argumentValue_ends calls held.sound (by omega)).bind held ?_
  rintro value reached held - -
  refine Ends.look_bind (Scan.spanOf_looks (held.live (by simp))) fun span _ => ?_
  exact (extends_lift (Scan.alloc_ends held (by simp) _)).makes fun _ _ _ _ => trivial

theorem listItem_ends (calls : Meets tables limit) (sound : state.Sound tables.stoppable)
    (enough : 8 * state.measure + 5 < limit) :
    Makes tables listItem state fun _ _ => True := by
  refine Ends.bind (peekKind_ends calls sound (by omega)) ?_
  rintro kind peeked ⟨held, token, seen, rfl⟩
  have shorter := held.keeps.onward
  refine Ends.ite (fun star => ?_) fun _ => ?_
  · have ahead : peeked.AtToken := ⟨token, seen, by simp [star]⟩
    exact ((splatItem_ends calls held.sound ahead (by omega)).extends held).makes
      fun _ _ _ _ => trivial
  · exact ((argumentValue_ends calls held.sound (by omega)).extends held).makes
      fun _ _ _ _ => trivial

theorem labelKey_ends (held : Held tables.stoppable base handles state) (name : Symbol)
    (span : Span) : Extends tables base handles (labelKey name span) state fun _ _ => True :=
  (extends_lift (Scan.alloc_ends held (by simp) _)).since (.refl _) (fun _ => id)
    fun _ _ _ _ => trivial

/-! ### Argument lists -/

theorem mem_handlesOf_push {list : ArgumentList} {item : NodeId} {span : Span}
    {handle : Handle} (member : handle ∈ handlesOf (list.push item span)) :
    handle ∈ handlesOf list ∨ handle = .node item := by
  simp only [ArgumentList.push, handlesOf_argumentList, handlesOf_array, Array.toList_push,
    handlesOf_append, handlesOf_cons, handlesOf_node, handlesOf_nil, List.mem_append,
    List.mem_singleton, List.not_mem_nil, or_false] at member ⊢
  tauto

theorem mem_handlesOf_pushPair {list : ArgumentList} {entry : HashEntry NodeId} {span : Span}
    {handle : Handle} (member : handle ∈ handlesOf (list.pushPair entry span)) :
    handle ∈ handlesOf list ∨ handle ∈ handlesOf entry := by
  simp only [ArgumentList.pushPair, handlesOf_argumentList, handlesOf_array, Array.toList_push,
    handlesOf_append, handlesOf_cons, handlesOf_nil, List.mem_append,
    List.not_mem_nil, or_false] at member ⊢
  tauto

section

variable {more : List Handle} {list : ArgumentList}

theorem push_held (held : Held tables.stoppable base more state)
    (mine : ∀ handle ∈ handlesOf list, handle ∈ handles)
    (fewer : ∀ handle ∈ handles, handle ∈ more) (item : NodeId) (given : .node item ∈ more)
    (span : Span) :
    Held tables.stoppable base (handlesOf (list.push item span) ++ handles) state := by
  refine held.weaken fun handle member => ?_
  rcases List.mem_append.mp member with new | old
  · rcases mem_handlesOf_push new with before | rfl
    · exact fewer handle (mine handle before)
    · exact given
  · exact fewer handle old

theorem pushPair_held (held : Held tables.stoppable base more state)
    (mine : ∀ handle ∈ handlesOf list, handle ∈ handles)
    (fewer : ∀ handle ∈ handles, handle ∈ more) {entry : HashEntry NodeId}
    (given : ∀ handle ∈ handlesOf entry, handle ∈ more) (span : Span) :
    Held tables.stoppable base (handlesOf (list.pushPair entry span) ++ handles) state := by
  refine held.weaken fun handle member => ?_
  rcases List.mem_append.mp member with new | old
  · rcases mem_handlesOf_pushPair new with before | entry
    · exact fewer handle (mine handle before)
    · exact given handle entry
  · exact fewer handle old

end

theorem pushPositional_ends (held : Held tables.stoppable base handles state)
    {list : ArgumentList} {item : NodeId} (mine : ∀ handle ∈ handlesOf list, handle ∈ handles)
    (given : .node item ∈ handles) :
    Extends tables base handles (pushPositional list item) state fun _ _ => True := by
  refine Ends.look_bind (Scan.spanOf_looks (held.live given)) fun span _ => ?_
  refine Ends.when (fun reached => Held tables.stoppable base handles reached ∧
    Still state reached) (fun _ => ?_) (fun _ => ⟨held, Still.refl state⟩) ?_
  · exact (ends_lift (Scan.report_builds held _ _)).mono fun _ _ built => ⟨built.1, built.2.1⟩
  · rintro reached ⟨held, still⟩
    exact ends_pure ⟨push_held held mine (fun _ => id) item given span, still.onward, trivial⟩

theorem pushPairFrom_ends (calls : Meets tables limit)
    (held : Held tables.stoppable base handles state) (enough : 8 * state.measure + 5 < limit)
    {list : ArgumentList} {key : NodeId} (mine : ∀ handle ∈ handlesOf list, handle ∈ handles)
    (given : .node key ∈ handles) (keySpan : Span) :
    Extends tables base handles (pushPairFrom list key keySpan) state fun _ _ => True := by
  refine (argumentValue_ends calls held.sound enough).bind held ?_
  rintro value reached held made -
  refine Ends.look_bind (Scan.spanOf_looks (held.live (by simp))) fun span _ => ?_
  exact ends_pure ⟨pushPair_held held mine (by simp +contextual) (by simp [given]) _,
    made.keeps.onward, trivial⟩

theorem plainArgument_ends (calls : Meets tables limit)
    (held : Held tables.stoppable base handles state) (enough : 8 * state.measure + 5 < limit)
    {list : ArgumentList} (mine : ∀ handle ∈ handlesOf list, handle ∈ handles) :
    Extends tables base handles (plainArgument list) state fun _ _ => True := by
  refine (calls.argument .accepted state held.sound enough).bind held ?_
  rintro operand reached held made read
  have shorter := made.keeps.onward
  refine Ends.lift_bind (Scan.takeQuotedKey?_builds held) ?_
  rintro key? taken ⟨held, still, same, -⟩
  have calm := still.calm
  cases key? with
  | some key =>
      refine (argumentValue_ends calls held.sound (by omega)).bind held ?_
      rintro value valued held made -
      have later := made.keeps.onward
      refine Ends.look_bind (Scan.spanOfBoth_looks (held.live (by simp))
        (held.live (by simp))) fun span _ => ?_
      exact ends_pure ⟨pushPair_held held mine (by simp +contextual) (by simp) span,
        by omega, trivial⟩
  | none =>
      have rooted : operand.Rooted taken.arena := same ▸ read.rooted
      refine Ends.bind (finishCommand_ends calls held (by simp +contextual) rooted (by omega)
        (fun takes => ?_) .accepted false) ?_
      · have less := read.progress takes
        omega
      rintro node finished ⟨held, later, -⟩
      refine Ends.lift_bind (Scan.requireValue_builds held (held.live (by simp))) ?_
      rintro _ required ⟨held, quiet, -⟩
      have silent := quiet.calm
      refine (accept_ends calls held.sound (by omega) (by simp)).bind held ?_
      rintro found accepted held made -
      have less := made.keeps.onward
      refine Ends.ite (fun _ => ?_) fun _ => ?_
      · refine (argumentValue_ends calls held.sound (by omega)).bind held ?_
        rintro value valued held made -
        have last := made.keeps.onward
        refine Ends.look_bind (Scan.spanOfBoth_looks (held.live (by simp))
          (held.live (by simp))) fun span _ => ?_
        exact ends_pure ⟨pushPair_held held mine (by simp +contextual) (by simp) span,
          by omega, trivial⟩
      · refine (pushPositional_ends held (fun handle member => ?_) (by simp)).since (by omega)
          (by simp +contextual) fun _ _ _ _ => trivial
        simp [mine handle member]

theorem argumentItem_ends (calls : Meets tables limit)
    (held : Held tables.stoppable base handles state) (enough : 8 * state.measure + 5 < limit)
    {list : ArgumentList} (mine : ∀ handle ∈ handlesOf list, handle ∈ handles) :
    Extends tables base handles (argumentItem list) state fun _ _ => True := by
  refine (peekToken_ends calls held.sound (by omega)).bind held ?_
  rintro token peeked held made ⟨seen, -⟩
  have shorter := made.keeps.onward
  refine Ends.when (fun reached => Held tables.stoppable base (handlesOf token ++ handles)
    reached ∧ Still peeked reached) (fun _ => ?_) (fun _ => ⟨held, Still.refl peeked⟩) ?_
  · exact (ends_lift (Scan.unexpected_builds held _ _)).mono fun _ _ built =>
      ⟨built.1, built.2.1⟩
  rintro reached ⟨held, still⟩
  have calm := still.calm
  have own : ∀ handle ∈ handlesOf list, handle ∈ handlesOf token ++ handles :=
    fun handle member => List.mem_append_right _ (mine handle member)
  have ahead (more : token.kind ≠ .endOfInput) : reached.AtToken :=
    ⟨token, still.lookahead.trans seen, more⟩
  split
  · next kind =>
      refine (splatItem_ends calls held.sound (ahead (by simp [kind])) (by omega)).bind
        held ?_
      rintro splat read held made -
      have later := made.keeps.onward
      exact (pushPositional_ends held (fun handle member => List.mem_append_right _
        (own handle member)) (by simp)).since (by omega) (by simp +contextual)
        fun _ _ _ _ => trivial
  · next kind =>
      refine (skip_ends held.sound (ahead (by simp [kind]))).bind held ?_
      rintro _ skipped held - ⟨less, -⟩
      refine (argumentValue_ends calls held.sound (by omega)).bind held ?_
      rintro value valued held made -
      have later := made.keeps.onward
      refine Ends.look_bind (Scan.spanOf_looks (held.live (by simp))) fun span _ => ?_
      exact ends_pure ⟨pushPair_held held mine (by simp +contextual) (by simp) _,
        by omega, trivial⟩
  · next kind =>
      refine (skip_ends held.sound (ahead (by simp [kind]))).bind held ?_
      rintro _ skipped held - ⟨less, -⟩
      refine (argumentValue_ends calls held.sound (by omega)).bind held ?_
      rintro value valued held made -
      have later := made.keeps.onward
      refine Ends.look_bind (Scan.spanOf_looks (held.live (by simp))) fun span _ => ?_
      refine Ends.lift_bind (Scan.alloc_ends held (by simp) _) ?_
      rintro block last ⟨held, quiet, -⟩
      have silent := quiet.calm
      refine ends_pure ⟨held.weaken fun handle member => ?_, by omega, trivial⟩
      simp only [handlesOf_argumentList, List.mem_append] at mine member ⊢
      rcases member with (items | block | pairs) | old
      · exact .inr (.inr (.inr (.inr (mine handle (.inl items)))))
      · exact .inl block
      · exact .inr (.inr (.inr (.inr (mine handle (.inr (.inr pairs))))))
      · exact .inr (.inr (.inr (.inr old)))
  · next name kind =>
      refine (skip_ends held.sound (ahead (by simp [kind]))).bind held ?_
      rintro _ skipped held - ⟨less, -⟩
      refine Ends.bind (labelKey_ends held name token.span) ?_
      rintro key labelled ⟨held, le, -⟩
      exact (pushPairFrom_ends calls held (by omega) (fun handle member =>
        List.mem_append_right _ (List.mem_append_right _ (own handle member))) (by simp)
        token.span).since (by omega) (by simp +contextual) fun _ _ _ _ => trivial
  · exact (plainArgument_ends calls held (by omega) own).since (by omega)
      (by simp +contextual) fun _ _ _ _ => trivial

theorem finishArguments_ends (held : Held tables.stoppable base handles state)
    {list : ArgumentList} (mine : ∀ handle ∈ handlesOf list, handle ∈ handles) :
    Extends tables base handles (finishArguments list) state fun _ _ => True := by
  have gathered {list : ArgumentList} {handle : Handle}
      (member : handle ∈ handlesOf (Arguments.mk list.items.toList list.block list.span)) :
      handle ∈ handlesOf list := by
    simp only [handlesOf_argumentList, handlesOf_arguments, handlesOf_array,
      List.mem_append] at member ⊢
    tauto
  refine Ends.ite (fun _ => ?_) fun _ => ?_
  · refine ends_pure ⟨held.weaken fun handle member => ?_, .refl _, trivial⟩
    exact (List.mem_append.mp member).elim (fun own => mine handle (gathered own)) id
  · have pairs : ∀ handle ∈ handlesOf list.pairs.toList, handle ∈ handles :=
      fun handle member => mine handle
        (List.mem_append_right _ (List.mem_append_right _ member))
    refine Ends.lift_bind (Scan.alloc_ends held (by simpa using pairs) _) ?_
    rintro hash reached ⟨held, still, -⟩
    have pushed := push_held held mine (by simp +contextual) hash (by simp) list.pairsSpan
    refine ends_pure ⟨pushed.weaken fun handle member => ?_, still.onward, trivial⟩
    exact List.mem_append.mpr ((List.mem_append.mp member).imp_left gathered)

theorem atCloser_ends (calls : Meets tables limit) (sound : state.Sound tables.stoppable)
    (enough : 8 * state.measure < limit) (closer : Option Punct) :
    Makes tables (atCloser closer) state fun _ _ => True := by
  cases closer with
  | none => exact makes_pure (Held.refl sound) trivial
  | some mark =>
      refine Ends.bind (skipNewlines_ends calls sound enough) ?_
      rintro _ reached ⟨held, -⟩
      have shorter := held.keeps.onward
      refine (peekKind_ends calls held.sound (by omega)).bind held ?_
      rintro kind peeked held - -
      exact makes_pure held.forget trivial

theorem argumentTurn_ends (calls : Meets tables limit) {list : ArgumentList}
    (held : Held tables.stoppable base (handlesOf list) state)
    (enough : 8 * state.measure + 5 < limit) (closer : Option Punct) :
    Ends tables (argumentTurn closer list) state (TurnHeld tables.stoppable base state) := by
  refine Ends.bind (argumentItem_ends calls held enough fun _ => id) ?_
  rintro list read ⟨held, onward, -⟩
  refine (accept_ends calls held.sound (by omega) (by simp)).bind held ?_
  rintro found accepted held made past
  have later := made.keeps.onward
  refine Ends.ite (fun _ => ends_pure (held.weaken (by simp +contextual))) fun again => ?_
  have past := past (by simpa using again)
  refine (atCloser_ends calls held.sound (by omega) closer).bind held ?_
  rintro closed checked held made -
  have last := made.keeps.onward
  refine Ends.ite (fun _ => ends_pure (held.weaken (by simp +contextual))) fun _ => ?_
  exact ends_pure ⟨held.weaken (by simp +contextual), by omega⟩

theorem arguments_ends (calls : Meets tables limit) (sound : state.Sound tables.stoppable)
    (enough : 8 * state.measure + 5 < limit) (closer : Option Punct) :
    Makes tables (arguments closer) state fun _ _ => True := by
  refine Ends.bind (atCloser_ends calls sound (by omega) closer) ?_
  rintro closed started ⟨held, -⟩
  have shorter := held.keeps.onward
  refine Ends.ite (fun _ => makes_pure held.forget trivial) fun _ => ?_
  refine Makes.bind (loop_makes held.sound rfl fun _ _ held onward =>
    argumentTurn_ends calls held (by omega) closer) held.forget ?_
  rintro list read held made -
  have later := made.keeps.onward
  have listed : Held tables.stoppable state (handlesOf list) read := held.weaken (by simp)
  refine Ends.when (fun after => Held tables.stoppable state (handlesOf list) after)
    (fun _ => ?_) (fun _ => listed) fun after held => ?_
  · exact Ends.mono ((skipNewlines_ends calls held.sound (by omega)).extends listed)
      fun _ _ made => made.1
  · exact (finishArguments_ends held fun _ => id).makes fun _ _ _ _ => trivial

theorem parenthesized_ends (calls : Meets tables limit) (sound : state.Sound tables.stoppable)
    (ahead : state.AtToken) (enough : 8 * state.measure ≤ limit) :
    Makes tables parenthesized state fun _ after => state.Past after := by
  obtain ⟨token, seen, more⟩ := ahead
  refine Ends.bind (take_ends sound seen more) ?_
  rintro opening taken ⟨held, -, less, -⟩
  refine (arguments_ends calls held.sound (by omega) _).bind held ?_
  rintro list read held made -
  have shorter := made.keeps.onward
  refine (expect_ends calls held.sound (by omega) (by simp)).bind held ?_
  rintro close after held made -
  have last := made.keeps.onward
  refine makes_pure (held.weaken fun handle member => ?_) (by omega)
  exact List.mem_append_right _ (List.mem_append_left _ member)

end Parse

end RubySyntax
