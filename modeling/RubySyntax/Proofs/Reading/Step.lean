/-
The steps of the grammar where there is room for what they store.

What a state gains is counted: nodes and errors. The limits stay as they are, so
the room that is left is known at every point. A token that has been read already
is passed over by rules on what follows.
-/

import RubySyntax.Proofs.Reading.Token
import RubySyntax.Grammar.Rules

namespace RubySyntax

def Arena.Shaped (arena : Arena) (id : NodeId) (shape : Shape NodeId) : Prop :=
  ∃ node, arena.get? id = some node ∧ node.shape = shape

/-! ### What is gained -/

/-- Nodes are stored beside those before, names are kept, and errors are reported.
The limits and the depth are as they were. -/
structure State.Gains (before : State) (stored reported : Nat) (after : State) : Prop extends
    before.Grows reported after where
  live : after.arena.live = before.arena.live + stored
  limit : after.arena.limit = before.arena.limit
  limits : after.limits = before.limits
  depth : after.depth = before.depth

namespace State.Gains

variable {before middle after : State} {nodes more errors others : Nat}

theorem refl (state : State) : state.Gains 0 0 state :=
  ⟨State.Grows.refl state, rfl, rfl, rfl, rfl⟩

theorem trans (first : before.Gains nodes errors middle) (second : middle.Gains more others after) :
    before.Gains (nodes + more) (errors + others) after where
  toGrows := first.toGrows.trans second.toGrows
  live := by rw [second.live, first.live, Nat.add_assoc]
  limit := second.limit.trans first.limit
  limits := second.limits.trans first.limits
  depth := second.depth.trans first.depth

theorem shaped (gains : before.Gains nodes errors after) {id : NodeId} {shape : Shape NodeId}
    (stored : before.arena.Shaped id shape) : after.arena.Shaped id shape := by
  obtain ⟨node, found, same⟩ := stored
  exact ⟨node, gains.nodes id node found, same⟩

theorem spells (gains : before.Gains nodes errors after) {symbol : Symbol} {name : Bytes}
    (spelled : before.symbols.Spells symbol name) : after.symbols.Spells symbol name := by
  obtain ⟨known, same⟩ := gains.names symbol spelled.known
  exact ⟨known, same.trans spelled.name⟩

theorem of_same (arena : after.arena = before.arena) (symbols : after.symbols = before.symbols)
    (report : after.report.errors = before.report.errors) (limits : after.limits = before.limits)
    (depth : after.depth = before.depth) : before.Gains 0 0 after where
  nodes _ _ found := by
    rw [arena]
    exact found
  names _ known := by
    rw [symbols]
    exact ⟨known, rfl⟩
  errors := report
  live := congrArg Arena.live arena
  limit := congrArg Arena.limit arena
  limits := limits
  depth := depth

theorem shallower
    (gains : ({ before with depth := before.depth + 1 } : State).Gains nodes errors after) :
    before.Gains nodes errors { after with depth := after.depth - 1 } where
  nodes := gains.nodes
  names := gains.names
  errors := gains.errors
  live := gains.live
  limit := gains.limit
  limits := gains.limits
  depth := by
    have deeper := gains.depth
    dsimp only at deeper ⊢
    rw [deeper, Nat.add_sub_cancel]

end State.Gains

/-- Nodes are stored beside those before and names are kept, and nothing is reported. -/
structure State.Builds (before : State) (stored : Nat) (after : State) : Prop extends
    before.Gains stored 0 after where
  quiet : after.report = before.report

namespace State.Builds

variable {before middle after : State} {nodes more : Nat}

theorem refl (state : State) : state.Builds 0 state :=
  ⟨.refl state, rfl⟩

theorem trans (first : before.Builds nodes middle) (second : middle.Builds more after) :
    before.Builds (nodes + more) after :=
  ⟨first.toGains.trans second.toGains, second.quiet.trans first.quiet⟩

theorem shallower
    (builds : ({ before with depth := before.depth + 1 } : State).Builds nodes after) :
    before.Builds nodes { after with depth := after.depth - 1 } :=
  ⟨builds.toGains.shallower, builds.quiet⟩

theorem of_same (arena : after.arena = before.arena) (symbols : after.symbols = before.symbols)
    (report : after.report = before.report) (limits : after.limits = before.limits)
    (depth : after.depth = before.depth) : before.Builds 0 after :=
  ⟨.of_same arena symbols (congrArg Report.errors report) limits depth, report⟩

/-- It is the same beside another report. -/
theorem reporting (builds : before.Builds nodes after) (report : Report) :
    State.Builds { before with report } nodes { after with report } :=
  ⟨⟨⟨builds.nodes, builds.names, rfl⟩, builds.live, builds.limit, builds.limits, builds.depth⟩,
    rfl⟩

theorem alike (builds : before.Builds nodes middle) (arena : after.arena = middle.arena)
    (symbols : after.symbols = middle.symbols) (report : after.report = middle.report)
    (limits : after.limits = middle.limits) (depth : after.depth = middle.depth) :
    before.Builds nodes after :=
  builds.trans (of_same arena symbols report limits depth)

end State.Builds

def State.Proceeds (before after : State) : Prop :=
  ∃ input lexer tokens lookahead previousStop,
    after = { before with input, lexer, tokens, lookahead, previousStop }

theorem State.Proceeds.refl (state : State) : state.Proceeds state :=
  ⟨_, _, _, _, _, rfl⟩

theorem State.Proceeds.trans {before middle after : State} (first : before.Proceeds middle)
    (second : middle.Proceeds after) : before.Proceeds after := by
  obtain ⟨_, _, _, _, _, rfl⟩ := first
  obtain ⟨_, _, _, _, _, rfl⟩ := second
  exact ⟨_, _, _, _, _, rfl⟩

theorem State.Proceeds.builds {before after : State} (proceeds : before.Proceeds after) :
    before.Builds 0 after := by
  obtain ⟨_, _, _, _, _, rfl⟩ := proceeds
  exact .of_same rfl rfl rfl rfl rfl

theorem State.Proceeds.keeps {before after : State} (proceeds : before.Proceeds after) :
    after.arena = before.arena ∧ after.quotedKey = before.quotedKey := by
  obtain ⟨_, _, _, _, _, rfl⟩ := proceeds
  exact ⟨rfl, rfl⟩

def State.Room (state : State) (nodes : Nat) : Prop :=
  state.arena.live + nodes ≤ state.arena.limit

theorem State.Room.of_le {state : State} {nodes fewer : Nat} (room : state.Room nodes)
    (le : fewer ≤ nodes) : state.Room fewer :=
  Nat.le_trans (Nat.add_le_add_left le _) room

theorem State.Room.after {before after : State} {nodes more errors : Nat}
    (room : before.Room (nodes + more)) (gains : before.Gains nodes errors after) :
    after.Room more := by
  unfold State.Room at room ⊢
  rw [gains.live, gains.limit]
  omega

theorem State.start_room {source : Bytes} {options : ParseOptions} {symbols : SymbolTable}
    {nodes : Nat} (room : nodes ≤ options.maxNodes) :
    (State.start source options symbols).Room nodes := by
  change 0 + nodes ≤ options.maxNodes
  rwa [Nat.zero_add]

theorem Arena.alloc_of_room {arena : Arena} (room : arena.live < arena.limit) (node : Node) :
    ∃ id after, arena.alloc node = some (id, after) ∧ after.live = arena.live + 1 ∧
      after.limit = arena.limit := by
  unfold alloc
  rw [if_neg (Nat.not_le.mpr room)]
  cases arena.free with
  | nil => exact ⟨_, _, rfl, rfl, rfl⟩
  | cons id free => exact ⟨_, _, rfl, rfl, rfl⟩

structure State.Stores (before : State) (shape : Shape NodeId) (id : NodeId) (after : State) :
    Prop where
  others : ∃ arena, after = { before with arena }
  fresh : before.arena.get? id = none
  stored : after.arena.Shaped id shape
  builds : before.Builds 1 after
  free : after.arena.FreeSound
  taken : ∃ node, node.shape = shape ∧ before.arena.alloc node = some (id, after.arena)

namespace Scan

variable {state : State} {excused : Fatal → State → Prop}

theorem alloc_places (free : state.arena.FreeSound) (room : state.Room 1)
    (shape : Shape NodeId) (span : Span) :
    Succeeds (alloc shape span) state fun id after => state.Stores shape id after ∧
      ∃ node, after.arena.get? id = some node ∧ node.shape = shape ∧ node.span = span := by
  refine Yields.get_bind (Yields.relyOn_bind ?_)
  dsimp only
  obtain ⟨id, arena, stored, live, limit⟩ := Arena.alloc_of_room room _
  rw [stored]
  obtain ⟨empty, sound, puts⟩ := Arena.alloc_spec free stored
  have kept : ∀ other node, state.arena.get? other = some node →
      arena.get? other = some node := by
    intro other node found
    refine (puts.apart ?_).trans found
    rintro rfl
    rw [empty] at found
    cases found
  have gains : state.Gains 1 0 { state with arena } :=
    ⟨⟨kept, fun _ known => ⟨known, rfl⟩, rfl⟩, live, limit, rfl, rfl⟩
  exact Yields.set_bind (yields_pure
    ⟨⟨⟨arena, rfl⟩, empty, ⟨_, puts.at_slot, rfl⟩, ⟨gains, rfl⟩, sound, _, rfl, stored⟩,
      _, puts.at_slot, rfl, rfl⟩)

theorem alloc_succeeds (free : state.arena.FreeSound) (room : state.Room 1)
    (shape : Shape NodeId) (span : Span) :
    Succeeds (alloc shape span) state (state.Stores shape) :=
  (alloc_places free room shape span).mono fun _ _ placed => placed.1

theorem requireValue_of_shaped {id : NodeId} {shape : Shape NodeId}
    (stored : state.arena.Shaped id shape) (valued : shape.isVoid = false) :
    Yields (requireValue id) state (fun _ after => after = state) excused := by
  obtain ⟨node, found, rfl⟩ := stored
  refine (shapeOf_yields id).bind ?_
  rintro shape _ ⟨rfl, same⟩
  rw [same node found, valued]
  exact yields_pure rfl

end Scan

namespace Parse

variable {α : Type} {table : RuleTable} {state : State} {token : Token}
  {post : α → State → Prop} {excused : Fatal → State → Prop}

/-! ### The next token -/

theorem peekToken_reads {post : Token → State → Prop} (unseen : state.lookahead = none)
    (yields : Scan.Yields Scan.nextToken state (fun token after =>
      token.kind ≠ .heredocBodies ∧ post token after) excused) :
    Yields table peekToken state (fun token after => ∃ middle, post token middle ∧
      after = { middle with
        tokens := token :: middle.tokens
        lookahead := some token }) excused := by
  have read : Scan.Yields Scan.readToken state (fun token after => ∃ middle,
      (token.kind ≠ .heredocBodies ∧ post token middle) ∧
        after = { middle with tokens := token :: middle.tokens }) excused :=
    Scan.Yields.bind yields fun token middle holds => ⟨middle, holds, rfl⟩
  refine Yields.get_bind ?_
  rw [unseen]
  refine Yields.bind (repeatUntil_yields (fun _ current => current = state)
    (fun token after => ∃ middle, post token middle ∧
      after = { middle with tokens := token :: middle.tokens }) rfl ?_) ?_
  · rintro _ _ rfl
    refine Yields.lift_bind read ?_
    rintro token _ ⟨middle, ⟨other, holds⟩, rfl⟩
    rw [if_neg other]
    exact yields_pure ⟨middle, holds, rfl⟩
  · rintro token _ ⟨middle, holds, rfl⟩
    exact Yields.modify_bind (yields_pure ⟨middle, holds, rfl⟩)

theorem peekToken_knows {middle : State} (unseen : state.lookahead = none)
    (other : token.kind ≠ .heredocBodies)
    (yields : Scan.Yields Scan.nextToken state (fun given after =>
      given = token ∧ after = middle) excused) :
    Yields table peekToken state (fun given after => given = token ∧
      after = { middle with
        tokens := token :: middle.tokens
        lookahead := some token }) excused := by
  have read : Scan.Yields Scan.nextToken state (fun given after =>
      given.kind ≠ .heredocBodies ∧ given = token ∧ after = middle) excused := by
    refine yields.mono ?_
    rintro _ after ⟨rfl, same⟩
    exact ⟨other, rfl, same⟩
  refine (peekToken_reads unseen read).mono ?_
  rintro _ _ ⟨_, ⟨rfl, rfl⟩, rfl⟩
  exact ⟨rfl, rfl⟩

/-! ### A token that has been read -/

theorem Yields.peek_bind {next : Token → Parse α} (ahead : state.lookahead = some token)
    (yields : Yields table (next token) state post excused) :
    Yields table (peekToken >>= next) state post excused := by
  have here : Yields table peekToken state (fun value after => value = token ∧ after = state)
      excused := by
    refine Yields.get_bind ?_
    rw [ahead]
    exact yields_pure ⟨rfl, rfl⟩
  refine here.bind ?_
  rintro _ _ ⟨rfl, rfl⟩
  exact yields

theorem peekToken_ahead (ahead : state.lookahead = some token) :
    peekToken table state = .ok token state := by
  obtain ⟨input, lexer, report, symbols, scopes, arena, tokens, lookahead, previousStop, depth,
    quotedKey, limits⟩ := state
  subst ahead
  rfl

/-- What starts by looking at the next token gives the same if the token has been read before. -/
theorem Yields.ahead_bind {next : Token → Parse α} {begun : Token → State → Prop}
    (peeks : Yields table peekToken state (fun token after =>
      after.lookahead = some token ∧ begun token after) excused)
    (yields : ∀ token after, after.lookahead = some token → begun token after →
      Yields table (peekToken >>= next) after post excused) :
    Yields table (peekToken >>= next) state post excused := by
  refine peeks.bind ?_
  rintro token after ⟨ahead, started⟩
  have whole := yields token after ahead started
  have here : (peekToken >>= next) table after = next token table after := by
    change EStateM.bind (peekToken table) (fun token => next token table) after = _
    rw [EStateM.bind, peekToken_ahead ahead]
  unfold Yields Scan.Yields at whole ⊢
  rw [here] at whole
  exact whole

theorem Yields.peekKind_bind {next : TokenKind → Parse α} (ahead : state.lookahead = some token)
    (yields : Yields table (next token.kind) state post excused) :
    Yields table (peekKind >>= next) state post excused := by
  have here : Yields table peekKind state (fun value after => value = token.kind ∧ after = state)
      excused :=
    Yields.peek_bind ahead (yields_pure ⟨rfl, rfl⟩)
  refine here.bind ?_
  rintro _ _ ⟨rfl, rfl⟩
  exact yields

theorem Yields.take_bind {next : Token → Parse α} (ahead : state.lookahead = some token)
    (yields : Yields table (next token)
      { state with lookahead := none, previousStop := token.span.stop } post excused) :
    Yields table (take >>= next) state post excused := by
  have here : Yields table take state (fun value after => value = token ∧
      after = { state with lookahead := none, previousStop := token.span.stop }) excused := by
    refine Yields.get_bind ?_
    rw [ahead]
    exact Yields.modify_bind (yields_pure ⟨rfl, rfl⟩)
  refine here.bind ?_
  rintro _ _ ⟨rfl, rfl⟩
  exact yields

theorem Yields.skip_bind {next : Unit → Parse α} (ahead : state.lookahead = some token)
    (yields : Yields table (next ())
      { state with lookahead := none, previousStop := token.span.stop } post excused) :
    Yields table (skip >>= next) state post excused := by
  have here : Yields table skip state (fun _ after =>
      after = { state with lookahead := none, previousStop := token.span.stop }) excused :=
    Yields.take_bind ahead (yields_pure rfl)
  refine here.bind ?_
  rintro _ _ rfl
  exact yields

theorem Yields.accept_bind {kind : TokenKind} {next : Bool → Parse α}
    (ahead : state.lookahead = some token) (other : token.kind ≠ kind)
    (yields : Yields table (next false) state post excused) :
    Yields table (accept kind >>= next) state post excused := by
  have none : Yields table (accept? kind) state (fun value after => value = none ∧ after = state)
      excused := by
    refine Yields.peekKind_bind ahead ?_
    rw [if_neg other]
    exact yields_pure ⟨rfl, rfl⟩
  have here : Yields table (accept kind) state (fun value after => value = false ∧ after = state)
      excused := by
    refine none.bind ?_
    rintro _ _ ⟨rfl, rfl⟩
    exact yields_pure ⟨rfl, rfl⟩
  refine here.bind ?_
  rintro _ _ ⟨rfl, rfl⟩
  exact yields

theorem Yields.accept_taken_bind {kind : TokenKind} {next : Bool → Parse α}
    (ahead : state.lookahead = some token) (same : token.kind = kind)
    (yields : Yields table (next true)
      { state with lookahead := none, previousStop := token.span.stop } post excused) :
    Yields table (accept kind >>= next) state post excused := by
  have here : Yields table (accept kind) state (fun value after => value = true ∧
      after = { state with lookahead := none, previousStop := token.span.stop }) excused := by
    refine Yields.bind (Yields.peekKind_bind ahead ?_ :
      Yields table (accept? kind) state (fun value after => value = some token ∧
        after = { state with lookahead := none, previousStop := token.span.stop }) excused) ?_
    · rw [if_pos same]
      exact Yields.take_bind ahead (yields_pure ⟨rfl, rfl⟩)
    · rintro _ _ ⟨rfl, rfl⟩
      exact yields_pure ⟨rfl, rfl⟩
  refine here.bind ?_
  rintro _ _ ⟨rfl, rfl⟩
  exact yields

theorem Yields.spanSince_bind {next : Span → Parse α} {start : Nat}
    (yields : Yields table (next ⟨start, state.previousStop⟩) state post excused) :
    Yields table (spanSince start >>= next) state post excused :=
  yields

theorem descend_yields (name : Nonterminal) {post : name.Result → State → Prop}
    (yields : ∀ depth, Yields (Parse.table depth) (rule name) state post excused) :
    ∀ depth, Yields (Parse.table depth) (descend name) state post excused
  | 0 => trivial
  | depth + 1 => yields depth

end Parse

end RubySyntax
