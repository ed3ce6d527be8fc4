/-
Single targets of assignments.

A name after the first one of a list is read as a target. The first one has been read as an
expression: where it is no variable that is known it is the call of a method, whose node is
emptied again before the variable is stored. Either way one node is added and the name declared,
so that it makes no difference which names are known.
-/

import RubySyntax.Proofs.Reading.Value

namespace RubySyntax

def VariableName.Stored (name : VariableName) (arena : Arena) (symbols : SymbolTable)
    (id : NodeId) : Prop :=
  ∃ symbol, symbols.find? name.text = some symbol ∧
    arena.Shaped id (.named .localVariable symbol)

theorem VariableName.Stored.kept {name : VariableName} {before after : State} {nodes errors : Nat}
    {id : NodeId} (gains : before.Gains nodes errors after)
    (stored : name.Stored before.arena before.symbols id) :
    name.Stored after.arena after.symbols id := by
  obtain ⟨symbol, found, shaped⟩ := stored
  exact ⟨symbol, SymbolTable.Extends.find? gains.names found, gains.shaped shaped⟩

theorem State.Adds.slice {before after : State} {nodes reported : Nat} {declared : List Symbol}
    (adds : before.Adds nodes reported declared after) (span : Span) :
    after.input.slice span = before.input.slice span := by
  unfold Input.slice Input.covers
  rw [adds.source]

/-- No scope around the innermost one is seen. -/
def State.Opaque (state : State) : Prop :=
  state.scopes.current.kind.isTransparent = false

namespace State.Opaque

variable {before after : State} {nodes reported : Nat} {declared : List Symbol} {symbol : Symbol}

theorem later (closed : before.Opaque) (adds : before.Adds nodes reported declared after) :
    after.Opaque := by
  unfold State.Opaque
  rw [adds.scopes, ScopeStack.current_kind_foldl_declare]
  exact closed

theorem declare (closed : before.Opaque) (known : before.scopes.isLocal symbol = true) :
    before.scopes.declare symbol = before.scopes := by
  have member : before.scopes.current.locals.contains symbol = true := by
    rw [ScopeStack.isLocal, ScopeStack.frames, ScopeStack.declaredIn, closed] at known
    simpa using known
  rw [ScopeStack.declare, if_pos member]

end State.Opaque

theorem State.Stores.recycled {before after : State} {shape : Shape NodeId} {id : NodeId}
    (stores : before.Stores shape id after) :
    (after.arena.recycle id).FreeSound ∧
      before.Adds 0 0 [] { after with arena := after.arena.recycle id } := by
  obtain ⟨free, puts⟩ := Arena.recycle_spec stores.free id
  have builds := stores.builds
  obtain ⟨node, held, -⟩ := stores.stored
  have live : (after.arena.recycle id).live = after.arena.live - 1 := by
    rw [Arena.recycle, held]
  have limit : (after.arena.recycle id).limit = after.arena.limit := by
    rw [Arena.recycle, held]
  refine ⟨free, ⟨⟨⟨fun other node found => ?_, builds.names, builds.errors⟩, ?_,
    limit.trans builds.limit, builds.limits, builds.depth⟩, fun _ => builds.quiet, ?_, ?_⟩⟩
  · have different : other ≠ id := by
      rintro rfl
      rw [stores.fresh] at found
      cases found
    exact (puts.apart different).trans (builds.nodes other node found)
  · exact live.trans (Nat.sub_eq_of_eq_add builds.live)
  · obtain ⟨arena, rfl⟩ := stores.others
    rfl
  · obtain ⟨arena, rfl⟩ := stores.others
    rfl

structure TargetRead (before : State) (name : VariableName) (words : List Word) (constructs : Nat)
    (symbol : Symbol) (id : NodeId) (after : State) : Prop where
  found : after.symbols.find? name.text = some symbol
  stored : after.arena.Shaped id (.named .localVariable symbol)
  ahead : after.Ahead words constructs
  adds : before.Adds 1 0 [symbol] after

theorem TargetRead.since {before middle after : State} {name : VariableName} {words : List Word}
    {constructs : Nat} {symbol : Symbol} {id : NodeId}
    (read : TargetRead middle name words constructs symbol id after)
    (passed : before.Adds 0 0 [] middle) : TargetRead before name words constructs symbol id after :=
  ⟨read.found, read.stored, read.ahead, read.adds.since passed⟩

structure NameRead (before : State) (name : VariableName) (next : Word) (words : List Word)
    (constructs : Nat) (symbol : Symbol) (span : Span) (after : State) : Prop where
  found : after.symbols.find? name.text = some symbol
  slice : after.input.slice span = name.text
  ahead : after.Ahead (next :: words) constructs
  adds : before.Adds 0 0 [] after

theorem NameRead.shallower {before after : State} {name : VariableName} {next : Word}
    {words : List Word} {constructs : Nat} {symbol : Symbol} {span : Span}
    (read : NameRead { before with depth := before.depth + 1 } name next words constructs symbol
      span after) :
    NameRead before name next words constructs symbol span { after with depth := after.depth - 1 } :=
  ⟨read.found, read.slice, read.ahead.alike rfl rfl rfl rfl rfl read.ahead.free rfl,
    read.adds.shallower⟩

/-- A name that has been read as an operand is stored as it is: as a variable if it is known, and
otherwise as the call of a method. It may still be emptied again. -/
structure NameStored (before : State) (name : VariableName) (words : List Word) (constructs : Nat)
    (symbol : Symbol) (id : NodeId) (after : State) : Prop where
  found : after.symbols.find? name.text = some symbol
  node : ∃ node, after.arena.get? id = some node ∧ after.input.slice node.span = name.text ∧
    node.shape = if before.scopes.isLocal symbol then .named .localVariable symbol
      else .functionCall symbol [] none
  next : ∃ token, after.lookahead = some token ∧ token.kind = .punct .comma
  ahead : after.Ahead (.comma :: words) constructs
  adds : before.Adds 1 0 [] after
  recycled : (after.arena.recycle id).FreeSound ∧
    before.Adds 0 0 [] { after with arena := after.arena.recycle id }

namespace Scan

variable {state : State} {id : NodeId} {node : Node} {symbol : Symbol}
  {excused : Fatal → State → Prop}

theorem nameOf_yields (symbol : Symbol) :
    Yields (nameOf symbol) state (fun name after => name = state.symbols.name symbol ∧
      after = state) excused :=
  Yields.get_bind (Yields.relyOn_bind (yields_pure ⟨rfl, rfl⟩))

/-- The call of a method that has been read as a name alone is recognised by its text. -/
theorem bareName?_call (found : state.arena.get? id = some node)
    (call : node.shape = .functionCall symbol [] none)
    (written : state.input.slice node.span = state.symbols.name symbol) :
    Yields (bareName? id) state (fun name? after => name? = some symbol ∧ after = state)
      excused := by
  refine (shapeOf_of_get found).bind ?_
  rintro _ _ ⟨rfl, rfl⟩
  rw [call]
  refine (spanOf_of_get found).bind ?_
  rintro _ _ ⟨rfl, rfl⟩
  refine Yields.get_bind ((nameOf_yields symbol).bind ?_)
  rintro _ _ ⟨rfl, rfl⟩
  rw [if_pos (beq_iff_eq.mpr written)]
  exact yields_pure ⟨rfl, rfl⟩

theorem bareName?_variable (found : state.arena.get? id = some node)
    (known : node.shape = .named .localVariable symbol) :
    Yields (bareName? id) state (fun name? after => name? = none ∧ after = state) excused := by
  refine (shapeOf_of_get found).bind ?_
  rintro _ _ ⟨rfl, rfl⟩
  rw [known]
  exact yields_pure ⟨rfl, rfl⟩

end Scan

namespace Parse

variable {table : RuleTable} {depth constructs : Nat} {state : State} {words : List Word}
  {next : Word} {name : VariableName} {blank : Bool} {token : Token}

theorem chain_word (ahead : state.Ahead (.name blank name :: next :: words) constructs)
    (seen : state.lookahead = some token) (ends : next = .comma ∨ next = .assign) :
    Succeeds table chain state fun operand after => ∃ symbol span,
      operand = .identifier span (state.scopes.isLocal symbol) symbol ∧
        (∃ token, after.lookahead = some token ∧ next.Announces after token) ∧
        NameRead state name next words constructs symbol span after := by
  obtain ⟨symbol, kind, spelled, slice, found⟩ := ahead.announced seen
  obtain ⟨_, span⟩ := token
  cases kind
  have passed := State.Adds.taken state span.stop
  have peeks : Succeeds table peekKind { state with lookahead := none, previousStop := span.stop }
      fun kind after => kind.links = false ∧
        (∃ token, after.lookahead = some token ∧ next.Announces after token) ∧
        after.Ahead (next :: words) constructs ∧ state.Adds 0 0 [] after := by
    refine (peekKind_word (ahead.taken seen span.stop)).mono ?_
    rintro _ after ⟨token, rfl, seen, announced, ahead, looked⟩
    refine ⟨?_, ⟨token, seen, announced⟩, ahead, looked.since passed⟩
    rcases ends with rfl | rfl <;> rw [show token.kind = _ from announced] <;> rfl
  refine (chain_name seen peeks).mono ?_
  rintro _ after ⟨rfl, seen, ahead, adds⟩
  exact ⟨symbol, span, rfl, seen, SymbolTable.Extends.find? adds.names found,
    (adds.slice span).trans slice, ahead, adds⟩

theorem declare_target {symbol : Symbol} (ahead : state.Ahead words constructs)
    (found : state.symbols.find? name.text = some symbol) (room : state.Room 1) (span : Span) :
    Scan.Succeeds (do Scan.declare symbol; Scan.alloc (.named .localVariable symbol) span) state
      fun id after => TargetRead state name words constructs symbol id after := by
  refine Scan.Yields.modify_bind ?_
  have declared : State.Ahead { state with scopes := state.scopes.declare symbol } words
      constructs := ahead.alike rfl rfl rfl rfl rfl ahead.free rfl
  refine (Scan.alloc_succeeds declared.free room _ span).mono ?_
  intro id after stores
  have adds := (State.Adds.declare state symbol).trans (.of_stores stores)
  exact ⟨SymbolTable.Extends.find? adds.names found, stores.stored, declared.stored stores, adds⟩

theorem target_word (ahead : state.Ahead (.name blank name :: next :: words) constructs)
    (ends : next = .comma ∨ next = .assign) (room : state.Room 1) :
    Succeeds (Parse.table depth) target state fun id after => ∃ symbol,
      TargetRead state name (next :: words) constructs symbol id after := by
  refine (peekToken_word ahead).bind ?_
  rintro ⟨_, place⟩ peeked ⟨seen, announced, ahead, looked⟩
  obtain ⟨_, rfl, -⟩ := id announced
  rw [show TokenKind.isLeftParen (.identifier _) = false from rfl, if_neg Bool.false_ne_true]
  refine (descend_yields .chain (fun _ => chain_word ahead seen ends) depth).bind ?_
  rintro _ current ⟨symbol, span, rfl, -, named⟩
  have passed := named.adds.since looked
  refine yields_lift ((declare_target named.ahead named.found (passed.room room) span).mono ?_)
  intro id after read
  exact ⟨symbol, read.since passed⟩

theorem expression_word {first : Token} (seen : state.lookahead = some first)
    (ahead : state.Ahead (.name blank name :: .comma :: words) constructs) (room : state.Room 1)
    (shallow : state.depth < state.limits.maxDepth) :
    Succeeds (Parse.table depth) (expression .accepted) state fun id after => ∃ symbol,
      NameStored state name words constructs symbol id after := by
  obtain ⟨_, kind, -⟩ := ahead.announced seen
  have opens : first.kind.opensOperand = true := by rw [kind]; rfl
  have operands (depth : Nat) : Succeeds (Parse.table depth) (argumentOperand .accepted) state
      (Stopped fun operand after => ∃ symbol span,
        operand = .identifier span (state.scopes.isLocal symbol) symbol ∧
          (∃ token, after.lookahead = some token ∧ token.kind = .punct .comma) ∧
          NameRead state name .comma words constructs symbol span after) := by
    refine argumentOperand_stops seen opens shallow ?_
    have inner : State.Ahead { state with depth := state.depth + 1 }
        (.name blank name :: .comma :: words) constructs :=
      ahead.alike rfl rfl rfl rfl rfl ahead.free rfl
    refine operand_of_chain (fun _ => (chain_word inner seen (.inl rfl)).mono ?_) ?_
    · rintro _ after ⟨symbol, span, rfl, ⟨token, next, comma⟩, named⟩
      have comma : token.kind = .punct .comma := comma
      exact ⟨⟨symbol, span, rfl, ⟨token, next, comma⟩, named.shallower⟩, token, next, comma ▸ rfl⟩
    · rintro operand after ⟨-, token, next, ends⟩
      exact ⟨token, next, (TokenKind.passes_of_endsOperand ends).2, nofun⟩
  refine expression_of_negation (fun depth => negation_of_argument seen opens operands ?_) ?_
  · rintro _ current ⟨⟨symbol, span, rfl, ⟨token, next, comma⟩, named⟩, -⟩
    refine Yields.peek_bind next ?_
    have alone : token.kind.beginsArgument = false := comma ▸ rfl
    rw [alone, Bool.and_false]
    refine yields_lift ((Scan.alloc_places named.ahead.free (named.adds.room room) _ span).mono ?_)
    rintro id after ⟨stores, node, found, shaped, placed⟩
    obtain ⟨free, emptied⟩ := stores.recycled
    have adds := State.Adds.of_stores stores
    refine ⟨symbol, SymbolTable.Extends.find? adds.names named.found, ⟨node, found, ?_, shaped⟩, ?_,
      named.ahead.stored stores, adds.since named.adds, free, emptied.since named.adds⟩
    · rw [placed, adds.slice, named.slice]
    · obtain ⟨arena, rfl⟩ := stores.others
      exact ⟨token, next, comma⟩
  · rintro id after ⟨symbol, stored⟩
    obtain ⟨token, next, comma⟩ := stored.next
    exact ⟨token, next, comma ▸ rfl⟩

theorem targetOfNode_word {before : State} {symbol : Symbol} {id : NodeId} (closed : before.Opaque)
    (room : before.Room 1) (stored : NameStored before name words constructs symbol id state) :
    Scan.Succeeds (Scan.targetOfNode id) state fun target after =>
      TargetRead before name (.comma :: words) constructs symbol target after := by
  obtain ⟨found, ⟨node, held, slice, shaped⟩, -, ahead, adds, free, emptied⟩ := stored
  refine (Scan.spanOf_of_get held).bind ?_
  rintro _ state ⟨rfl, rfl⟩
  cases known : before.scopes.isLocal symbol with
  | true =>
      rw [known] at shaped
      refine (Scan.bareName?_variable held shaped).bind ?_
      rintro _ _ ⟨rfl, rfl⟩
      refine (Scan.shapeOf_of_get held).bind ?_
      rintro _ _ ⟨rfl, rfl⟩
      rw [shaped]
      refine Scan.yields_pure ⟨found, ⟨node, held, shaped⟩, ahead, adds.toGains, adds.quiet, ?_,
        adds.source⟩
      exact adds.scopes.trans (closed.declare known).symm
  | false =>
      rw [known] at shaped
      have spelled : state.symbols.name symbol = name.text :=
        (SymbolTable.find?_eq_some_iff.mp found).2
      refine (Scan.bareName?_call held shaped (slice.trans spelled.symm)).bind ?_
      rintro _ state ⟨rfl, rfl⟩
      refine Scan.Yields.modify_bind ?_
      have left : State.Ahead { state with arena := state.arena.recycle id } (.comma :: words)
          constructs := ahead.alike rfl rfl rfl rfl rfl free rfl
      refine (declare_target left found (emptied.room room) node.span).mono ?_
      intro target after read
      exact read.since emptied

end Parse

end RubySyntax
