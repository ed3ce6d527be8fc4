/-
The steps by which an expression becomes a tree.

While an expression is read, nodes are added and none is changed or given back,
names are added to those known before, and errors are counted.
-/

import RubySyntax.Proofs.Precedence.Tokens
import RubySyntax.Proofs.Store

namespace RubySyntax

/-! ### What is added -/

structure State.Grows (before : State) (errors : Nat) (after : State) : Prop where
  nodes : ∀ id node, before.arena.get? id = some node → after.arena.get? id = some node
  names : ∀ name : Symbol, name.index < before.symbols.size →
    name.index < after.symbols.size ∧ after.symbols.name name = before.symbols.name name
  errors : after.report.errors = before.report.errors + errors

namespace State.Grows

variable {before middle after : State} {first second : Nat}

theorem refl (state : State) : state.Grows 0 state :=
  ⟨fun _ _ found => found, fun _ known => ⟨known, rfl⟩, rfl⟩

theorem trans (left : before.Grows first middle) (right : middle.Grows second after) :
    before.Grows (first + second) after where
  nodes id node found := right.nodes id node (left.nodes id node found)
  names name known :=
    have kept := left.names name known
    have later := right.names name kept.1
    ⟨later.1, later.2.trans kept.2⟩
  errors := by rw [right.errors, left.errors, Nat.add_assoc]

end State.Grows

theorem Operator.Shapes.grows {operator : Operator} {before after : State} {errors : Nat}
    {left right : NodeId} {shape : Shape NodeId} (grows : before.Grows errors after)
    (shapes : operator.Shapes before.symbols left right shape) :
    operator.Shapes after.symbols left right shape := by
  unfold Shapes at shapes ⊢
  split at shapes
  · exact shapes
  · exact shapes
  · exact shapes
  · exact shapes
  · obtain ⟨name, same, known, written⟩ := shapes
    have kept := grows.names name known
    exact ⟨name, same, kept.1, kept.2.trans written⟩

theorem Arena.Holds.grows {before after : State} {errors : Nat}
    (grows : before.Grows errors after) {tree : OperatorTree} {id : NodeId}
    (holds : before.arena.Holds before.symbols tree id) :
    after.arena.Holds after.symbols tree id := by
  induction tree generalizing id with
  | number value =>
      obtain ⟨node, found, shape⟩ := holds
      exact ⟨node, grows.nodes id node found, shape⟩
  | apply operator left right leftKept rightKept =>
      obtain ⟨node, leftId, rightId, found, leftHolds, rightHolds, shapes⟩ := holds
      exact ⟨node, leftId, rightId, grows.nodes id node found, leftKept leftHolds,
        rightKept rightHolds, shapes.grows grows⟩

theorem Arena.Holds.not_void {arena : Arena} {symbols : SymbolTable} {tree : OperatorTree}
    {id : NodeId} (holds : arena.Holds symbols tree id) :
    ∃ node, arena.get? id = some node ∧ node.shape.isVoid = false := by
  cases tree with
  | number value =>
      obtain ⟨node, found, shape⟩ := holds
      exact ⟨node, found, by rw [shape]; rfl⟩
  | apply operator left right =>
      obtain ⟨node, leftId, rightId, found, -, -, shapes⟩ := holds
      refine ⟨node, found, ?_⟩
      unfold Operator.Shapes at shapes
      split at shapes
      · rw [shapes]; rfl
      · rw [shapes]; rfl
      · rw [shapes]; rfl
      · rw [shapes]; rfl
      · obtain ⟨name, same, -⟩ := shapes
        rw [same]; rfl

theorem SymbolTable.intern_spec (symbols : SymbolTable) (name : Bytes) :
    (symbols.intern name).1.index < (symbols.intern name).2.size ∧
      (symbols.intern name).2.name (symbols.intern name).1 = name ∧
      ∀ other : Symbol, other.index < symbols.size →
        other.index < (symbols.intern name).2.size ∧
          (symbols.intern name).2.name other = symbols.name other := by
  cases found : symbols.find? name with
  | some symbol =>
      have named := (symbols.inverse name symbol).mp found
      rw [intern_of_find?_eq_some found]
      refine ⟨(Array.getElem?_eq_some_iff.mp named).1, ?_, fun _ known => ⟨known, rfl⟩⟩
      rw [SymbolTable.name, named]
      rfl
  | none =>
      obtain ⟨issued, names⟩ := intern_of_find?_eq_none found
      refine ⟨by simp [size, issued, names], by simp [SymbolTable.name, size, issued, names],
        fun other known => ?_⟩
      unfold size at known ⊢
      unfold SymbolTable.name
      rw [names, Array.size_push, Array.getElem?_push_lt known, Array.getElem?_eq_getElem known]
      exact ⟨Nat.lt_succ_of_lt known, rfl⟩

/-! ### What is to be read -/

def State.Faces (state : State) (left : Remainder) : Prop :=
  match state.lookahead with
  | none => state.Unread left
  | some token => token.kind = left.kind ∧ ∀ later ∈ left.next?, state.Unread later

structure State.Ready (state : State) (left : Remainder) : Prop where
  faces : state.Faces left
  free : state.arena.FreeSound
  unlabelled : state.quotedKey = none

theorem Remainder.kind_ne_heredocBodies (left : Remainder) : left.kind ≠ .heredocBodies := by
  cases left with
  | operand value rest => nofun
  | operator rest =>
      cases rest with
      | nil => nofun
      | cons first rest =>
          obtain ⟨first, value⟩ := first
          cases first <;> nofun

namespace Scan

variable {state : State} {excused : Fatal → State → Prop}

theorem report_yields (span : Span) {problem : Problem} {severity : Severity}
    (severe : problem.severity = severity) :
    Yields (report span problem) state (fun _ after => ∃ report, after = { state with report } ∧
      report.errors = state.report.errors + if severity = .error then 1 else 0) excused := by
  refine Yields.get_bind (Yields.relyOn_bind (yields_modify ⟨_, rfl, ?_⟩))
  unfold Report.add Report.deliver
  rw [severe]
  cases severity with
  | error =>
      dsimp only
      split
      · split <;> rfl
      · rfl
  | warning =>
      dsimp only
      split
      · split <;> rfl
      · rfl

theorem intern_yields (name : Bytes) :
    Yields (intern name) state (fun symbol after =>
      symbol = (state.symbols.intern name).1 ∧ ∃ symbols, after = { state with symbols } ∧
        symbol.index < symbols.size ∧ symbols.name symbol = name ∧ state.Grows 0 after)
      excused := by
  obtain ⟨known, named, kept⟩ := state.symbols.intern_spec name
  exact ⟨rfl, _, rfl, known, named, fun _ _ found => found, kept, rfl⟩

theorem alloc_yields (free : state.arena.FreeSound) (shape : Shape NodeId) (span : Span) :
    Yields (alloc shape span) state fun id after =>
      ∃ arena, after = { state with arena } ∧ arena.FreeSound ∧ state.Grows 0 after ∧
        ∃ node, arena.get? id = some node ∧ node.shape = shape := by
  refine Yields.get_bind (Yields.relyOn_bind ?_)
  dsimp only
  split
  · next id arena stored =>
      obtain ⟨empty, sound, puts⟩ := Arena.alloc_spec free stored
      refine Yields.set_bind (yields_pure ⟨arena, rfl, sound, ?_, _, puts.at_slot, rfl⟩)
      refine ⟨fun other node found => ?_, fun _ known => ⟨known, rfl⟩, rfl⟩
      refine (puts.apart ?_).trans found
      rintro rfl
      rw [empty] at found
      cases found
  · trivial

theorem nodeAt_yields (id : NodeId) :
    Yields (nodeAt id) state (fun node after =>
      after = state ∧ state.arena.get? id = some node) excused := by
  refine Yields.get_bind ?_
  split
  · next node found => exact yields_pure ⟨rfl, found⟩
  · trivial

theorem nodeAt_of_get {id : NodeId} {node : Node} (found : state.arena.get? id = some node) :
    Yields (nodeAt id) state (fun given after => given = node ∧ after = state) excused := by
  refine (nodeAt_yields id).mono ?_
  rintro other _ ⟨rfl, same⟩
  cases found.symm.trans same
  exact ⟨rfl, rfl⟩

theorem spanOf_of_get {id : NodeId} {node : Node} (found : state.arena.get? id = some node) :
    Yields (spanOf id) state (fun span after => span = node.span ∧ after = state) excused := by
  refine (nodeAt_of_get found).bind ?_
  rintro _ _ ⟨rfl, rfl⟩
  exact yields_pure ⟨rfl, rfl⟩

theorem shapeOf_of_get {id : NodeId} {node : Node} (found : state.arena.get? id = some node) :
    Yields (shapeOf id) state (fun shape after => shape = node.shape ∧ after = state) excused := by
  refine (nodeAt_of_get found).bind ?_
  rintro _ _ ⟨rfl, rfl⟩
  exact yields_pure ⟨rfl, rfl⟩

theorem spanOf_yields (id : NodeId) :
    Yields (spanOf id) state (fun _ after => after = state) excused :=
  (nodeAt_yields id).bind fun _ _ found => yields_pure found.1

theorem shapeOf_yields (id : NodeId) :
    Yields (shapeOf id) state (fun shape after =>
      after = state ∧ ∀ node, state.arena.get? id = some node → shape = node.shape) excused := by
  refine (nodeAt_yields id).bind fun node after found => yields_pure ⟨found.1, ?_⟩
  intro other same
  rw [found.2] at same
  cases same
  rfl

theorem spanOfBoth_yields (left right : NodeId) :
    Yields (spanOfBoth left right) state (fun _ after => after = state) excused := by
  refine (spanOf_yields left).bind ?_
  rintro span _ rfl
  refine (spanOf_yields right).bind ?_
  rintro other _ rfl
  exact yields_pure rfl

theorem requireValue_yields {tree : OperatorTree} {id : NodeId}
    (holds : state.arena.Holds state.symbols tree id) :
    Yields (requireValue id) state fun _ after => after = state := by
  obtain ⟨node, found, notVoid⟩ := holds.not_void
  refine (shapeOf_yields id).bind ?_
  rintro shape _ ⟨rfl, same⟩
  rw [same node found, notVoid]
  exact yields_pure rfl

theorem readToken_yields {left : Remainder} (unread : state.Unread left) :
    Yields readToken state fun token after =>
      token.kind = left.kind ∧
        (∃ input lexer tokens, after = { state with input, lexer, tokens }) ∧
        ∀ later ∈ left.next?, after.Unread later := by
  apply (expressionToken_yields unread).bind
  rintro token _ ⟨kind, ⟨input, lexer, rfl⟩, unread⟩
  exact ⟨kind, ⟨input, lexer, token :: state.tokens, rfl⟩, unread⟩

end Scan

namespace Parse

variable {table : RuleTable} {state : State} {left : Remainder}

theorem Yields.nodeOf_bind {α : Type} {id : NodeId} {next : NodeId → Parse α}
    {post : α → State → Prop} {excused : Fatal → State → Prop}
    (yields : Yields table (next id) state post excused) :
    Yields table (liftM (Scan.nodeOf (.node id)) >>= next) state post excused :=
  yields

theorem spanOfEnds_yields (items : List NodeId) {excused : Fatal → State → Prop} :
    Yields table (spanOfEnds items) state (fun _ after => after = state) excused := by
  unfold spanOfEnds
  split
  · exact yields_lift (Scan.spanOfBoth_yields _ _)
  · exact yields_pure rfl

theorem peekToken_yields (ready : state.Ready left) :
    Yields table peekToken state fun token after =>
      token.kind = left.kind ∧ after.lookahead = some token ∧ after.Ready left ∧
        state.Grows 0 after := by
  refine Yields.get_bind ?_
  have faces := ready.faces
  unfold State.Faces at faces
  split
  · next token ahead =>
      rw [ahead] at faces
      exact yields_pure ⟨faces.1, ahead, ready, State.Grows.refl state⟩
  · next ahead =>
      rw [ahead] at faces
      refine Yields.bind (repeatUntil_yields (fun _ current => current = state)
        (fun token after => token.kind = left.kind ∧
          (∃ input lexer tokens, after = { state with input, lexer, tokens }) ∧
          ∀ later ∈ left.next?, after.Unread later) rfl ?_) ?_
      · rintro _ _ rfl
        refine Yields.lift_bind (Scan.readToken_yields faces) fun token after read => ?_
        rw [if_neg (read.1 ▸ left.kind_ne_heredocBodies)]
        exact yields_pure read
      rintro token _ ⟨kind, ⟨input, lexer, tokens, rfl⟩, unread⟩
      refine Yields.modify_bind (yields_pure ⟨kind, rfl, ⟨⟨kind, unread⟩, ready.free,
        ready.unlabelled⟩, ?_⟩)
      exact ⟨fun _ _ found => found, fun _ known => ⟨known, rfl⟩, rfl⟩

theorem peekKind_yields (ready : state.Ready left) :
    Yields table peekKind state fun kind after =>
      kind = left.kind ∧ after.lookahead.isSome = true ∧ after.Ready left ∧
        state.Grows 0 after := by
  refine (peekToken_yields ready).bind ?_
  rintro token after ⟨kind, ahead, seen⟩
  exact yields_pure ⟨kind, by rw [ahead]; rfl, seen⟩

theorem accept_yields {kind : TokenKind} (ready : state.Ready left) (other : left.kind ≠ kind) :
    Yields table (accept kind) state fun taken after =>
      taken = false ∧ after.Ready left ∧ state.Grows 0 after := by
  have none : Yields table (accept? kind) state fun taken after =>
      taken = none ∧ after.Ready left ∧ state.Grows 0 after := by
    refine (peekKind_yields ready).bind ?_
    rintro _ after ⟨rfl, -, seen⟩
    rw [if_neg other]
    exact yields_pure ⟨rfl, seen⟩
  refine none.bind ?_
  rintro _ after ⟨rfl, seen⟩
  exact yields_pure ⟨rfl, seen⟩

theorem skip_yields {later : Remainder} (ready : state.Ready left)
    (ahead : state.lookahead.isSome = true) (next : left.next? = some later) :
    Yields table skip state fun _ after => after.Ready later ∧ state.Grows 0 after := by
  obtain ⟨token, seen⟩ := Option.isSome_iff_exists.mp ahead
  have faces := ready.faces
  unfold State.Faces at faces
  rw [seen] at faces
  refine Yields.bind (Yields.get_bind ?_ : Yields table take state fun _ after =>
    after.Ready later ∧ state.Grows 0 after) fun _ _ taken => yields_pure taken
  rw [seen]
  refine Yields.modify_bind (yields_pure ⟨⟨?_, ready.free, ready.unlabelled⟩, ?_⟩)
  · exact faces.2 later (Option.mem_def.mpr next)
  · exact ⟨fun _ _ found => found, fun _ known => ⟨known, rfl⟩, rfl⟩

end Parse

end RubySyntax
