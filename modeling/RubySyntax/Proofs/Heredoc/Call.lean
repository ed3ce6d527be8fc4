/-
Calls with heredocs for arguments.

Each opener is an argument. Its node waits for a body while the rest of the line is read,
and the nodes stand among the arguments in the order in which the heredocs wait. So the
bodies, which come in that order too, reach the arguments that they belong to.
-/

import RubySyntax.Proofs.Heredoc.Program

namespace RubySyntax

/-! ### The line -/

def argumentsAfter : List RawHeredoc → List Lexeme
  | [] => [.closeParen]
  | next :: more => .comma :: .opener true next :: argumentsAfter more

def callLine (name : VariableName) (first : RawHeredoc) (more : List RawHeredoc) : List Lexeme :=
  .name name :: .callParen :: .opener false first :: argumentsAfter more

theorem argumentsAfter_fits {tokenMax : Nat} (tail : Bytes) (heredocs : List RawHeredoc)
    (mode : Mode) : Lexeme.Fits tokenMax tail (argumentsAfter heredocs) mode := by
  induction heredocs generalizing mode with
  | nil =>
      refine ⟨trivial, trivial, ?_⟩
      rintro _ rfl
      rfl
  | cons next more ih =>
      refine ⟨trivial, trivial, ?_⟩
      rintro _ rfl
      exact ⟨rfl, trivial, fun _ _ => ih _⟩

theorem callLine_fits (name : VariableName) (first : RawHeredoc) (more : List RawHeredoc)
    {tokenMax : Nat} (short : name.text.length ≤ tokenMax) (tail : Bytes) :
    Lexeme.Fits tokenMax tail (callLine name first more) .begin := by
  refine ⟨⟨rfl, _, _, rfl, rfl⟩, short, ?_⟩
  rintro operand ⟨started, -⟩
  refine ⟨started, trivial, ?_⟩
  rintro _ rfl
  exact ⟨rfl, trivial, fun _ _ => argumentsAfter_fits tail more _⟩

/-! ### One argument -/

def MarkAhead (left : List RawHeredoc) (following : Bytes) (waiting : List PendingHeredoc)
    (state : State) : Prop :=
  match left with
  | [] => (∃ span, state.lookahead = some ⟨.punct .rightParen, span⟩) ∧
      state.Meets [] following 0 waiting
  | next :: more => (∃ span, state.lookahead = some ⟨.punct .comma, span⟩) ∧
      state.Meets (.opener true next :: argumentsAfter more) following 1 waiting

theorem MarkAhead.shallower {left : List RawHeredoc} {following : Bytes}
    {waiting : List PendingHeredoc} {state : State} (ahead : MarkAhead left following waiting state)
    {depth : Nat} : MarkAhead left following waiting { state with depth } := by
  cases left with
  | nil => exact ⟨ahead.1, ahead.2.deeper⟩
  | cons next more => exact ⟨ahead.1, ahead.2.deeper⟩

theorem MarkAhead.unlabelled {left : List RawHeredoc} {following : Bytes}
    {waiting : List PendingHeredoc} {state : State}
    (ahead : MarkAhead left following waiting state) : state.quotedKey = none := by
  cases left with
  | nil => exact ahead.2.unlabelled
  | cons next more => exact ahead.2.unlabelled

structure ArgumentRead (before : State) (heredoc : RawHeredoc) (left : List RawHeredoc)
    (following : Bytes) (placeholders : List Placeholder) (id : NodeId) (after : State) : Prop where
  opened : ∃ start, MarkAhead left following
      ((placeholders ++ [Placeholder.mk heredoc start id]).map Placeholder.pending) after ∧
    after.arena.Awaits (placeholders ++ [Placeholder.mk heredoc start id])
  builds : before.Builds 1 after

theorem ArgumentRead.shallower {before after : State} {heredoc : RawHeredoc}
    {left : List RawHeredoc} {following : Bytes} {placeholders : List Placeholder} {id : NodeId}
    (read : ArgumentRead { before with depth := before.depth + 1 } heredoc left following
      placeholders id after) :
    ArgumentRead before heredoc left following placeholders id
      { after with depth := after.depth - 1 } := by
  obtain ⟨⟨start, mark, awaits⟩, builds⟩ := read
  exact ⟨⟨start, mark.shallower, awaits⟩, builds.shallower⟩

namespace Parse

variable {table : RuleTable} {depth : Nat} {state : State} {heredoc : RawHeredoc}
  {left : List RawHeredoc} {following : Bytes} {waiting : List PendingHeredoc}
  {placeholders : List Placeholder} {token : Token} {rule : CommandRule} {start : Nat}
  {excused : Fatal → State → Prop}

theorem peekKind_mark (meets : state.Meets (argumentsAfter left) following 1 waiting)
    (unseen : state.lookahead = none) :
    Yields table peekKind state (fun kind after => ∃ token, kind = token.kind ∧
      after.lookahead = some token ∧ token.kind.endsOperand = true ∧
      MarkAhead left following waiting after ∧ after.arena = state.arena ∧ state.Builds 0 after)
      excused := by
  have still : waiting ++ [] = waiting := List.append_nil waiting
  cases left with
  | nil =>
      refine (peekKind_lexeme meets unseen).mono ?_
      rintro _ after ⟨⟨_, span⟩, rfl, seen, rfl, ⟨start, meets⟩, same, looked⟩
      exact ⟨_, rfl, seen, rfl, ⟨⟨span, seen⟩, still ▸ meets⟩, same, looked⟩
  | cons next more =>
      refine (peekKind_lexeme meets unseen).mono ?_
      rintro _ after ⟨⟨_, span⟩, rfl, seen, rfl, ⟨start, meets⟩, same, looked⟩
      exact ⟨_, rfl, seen, rfl, ⟨⟨span, seen⟩, still ▸ meets⟩, same, looked⟩

theorem operand_opener (ahead : state.lookahead = some token)
    (kind : token.kind = .heredocBegin)
    (meets : state.Meets (argumentsAfter left) following 1
      (placeholders.map Placeholder.pending ++ [⟨heredoc.opened start, none⟩]))
    (awaits : state.arena.Awaits placeholders) (room : state.Room 1) :
    Succeeds (Parse.table depth) (operand rule) state (Stopped fun operand after =>
      ∃ id, operand = .node id ∧
        ArgumentRead state heredoc left following placeholders id after) := by
  apply operand_stops
  · rintro _ after ⟨id, rfl, -⟩
    rfl
  intro depth
  apply chain_stops (primary_heredoc ahead kind meets awaits room)
  rintro _ current ⟨id, rfl, ⟨start, meets, awaits⟩, unseen, builds⟩
  refine (peekKind_mark meets unseen).mono ?_
  rintro _ after ⟨token, rfl, seen, ends, mark, same, looked⟩
  exact ⟨token, rfl, seen, ends, id, rfl, ⟨start, mark, same ▸ awaits⟩, builds.trans looked⟩

theorem argument_opener (ahead : state.lookahead = some token)
    (kind : token.kind = .heredocBegin)
    (meets : state.Meets (argumentsAfter left) following 1
      (placeholders.map Placeholder.pending ++ [⟨heredoc.opened start, none⟩]))
    (awaits : state.arena.Awaits placeholders) (room : state.Room 1)
    (shallow : state.depth < state.limits.maxDepth) :
    Succeeds (Parse.table depth) (argumentOperand rule) state (Stopped fun operand after =>
      ∃ id, operand = .node id ∧
        ArgumentRead state heredoc left following placeholders id after) := by
  let deeper : State := { state with depth := state.depth + 1 }
  have read : Succeeds (Parse.table depth) (operand rule) deeper (Stopped fun operand after =>
      ∃ id, operand = .node id ∧
        ArgumentRead deeper heredoc left following placeholders id after) :=
    operand_opener ahead kind meets.deeper awaits room
  refine argumentOperand_stops ahead (kind ▸ rfl) shallow (read.mono ?_)
  rintro _ after ⟨⟨id, rfl, whole⟩, stopped⟩
  exact ⟨⟨id, rfl, whole.shallower⟩, stopped⟩

theorem argumentItem_opener {list : ArgumentList} (noBlock : list.block = none)
    (noPairs : list.pairs = #[]) (ahead : state.lookahead = some token)
    (kind : token.kind = .heredocBegin)
    (meets : state.Meets (argumentsAfter left) following 1
      (placeholders.map Placeholder.pending ++ [⟨heredoc.opened start, none⟩]))
    (awaits : state.arena.Awaits placeholders) (room : state.Room 1)
    (shallow : state.depth < state.limits.maxDepth) :
    Succeeds (Parse.table depth) (argumentItem list) state fun longer after =>
      ∃ id span, longer = list.push id span ∧
        ArgumentRead state heredoc left following placeholders id after := by
  have opens : token.kind.opensOperand = true := by
    rw [kind]
    rfl
  refine argumentItem_stops ahead opens noBlock noPairs ?_
    fun depth => argument_opener ahead kind meets awaits room shallow
  intro id after read
  obtain ⟨start, mark, awaits⟩ := read.opened
  have stored := awaits.empty _ (List.mem_append_right _ (List.mem_singleton_self _))
  exact ⟨mark.unlabelled, _, stored, rfl⟩

/-! ### All arguments -/

theorem skipNewlines_before {post : State → Prop}
    (peeks : Yields table peekKind state (fun kind after => kind ≠ .newline ∧ post after) excused) :
    Yields table skipNewlines state (fun _ after => post after) excused := by
  apply repeatUntil_yields (fun _ current => current = state)
  · rfl
  rintro _ _ rfl
  refine peeks.bind ?_
  rintro kind after ⟨other, holds⟩
  rw [if_neg fun same => other (of_decide_eq_true same)]
  exact yields_pure holds

theorem skipNewlines_ahead (ahead : state.lookahead = some token) (other : token.kind ≠ .newline) :
    Yields table skipNewlines state (fun _ after => after = state) excused :=
  skipNewlines_before (Yields.peek_bind ahead (yields_pure ⟨other, rfl⟩))

structure ArgumentAhead (heredoc : RawHeredoc) (left : List RawHeredoc) (following : Bytes)
    (placeholders : List Placeholder) (state : State) : Prop where
  seen : ∃ span, state.lookahead = some ⟨.heredocBegin, span⟩
  meets : ∃ start, state.Meets (argumentsAfter left) following 1
    (placeholders.map Placeholder.pending ++ [⟨heredoc.opened start, none⟩])
  awaits : state.arena.Awaits placeholders

/-- The arguments do not end before an opener. -/
theorem atCloser_opener {blank : Bool}
    (meets : state.Meets (.opener blank heredoc :: argumentsAfter left) following 1
      (placeholders.map Placeholder.pending))
    (awaits : state.arena.Awaits placeholders) (unseen : state.lookahead = none) :
    Succeeds table (atCloser (some .rightParen)) state fun closes after => closes = false ∧
      ArgumentAhead heredoc left following placeholders after ∧ state.Builds 0 after := by
  have looked : Succeeds table skipNewlines state fun _ after =>
      ArgumentAhead heredoc left following placeholders after ∧ state.Builds 0 after := by
    apply skipNewlines_before
    refine (peekKind_lexeme meets unseen).mono ?_
    rintro _ after ⟨⟨_, span⟩, rfl, seen, rfl, ⟨start, meets⟩, same, looked⟩
    exact ⟨nofun, ⟨⟨span, seen⟩, ⟨start, meets⟩, same ▸ awaits⟩, looked⟩
  refine looked.bind ?_
  rintro _ after ⟨opener, looked⟩
  obtain ⟨span, seen⟩ := opener.seen
  exact Yields.peekKind_bind seen (yields_pure ⟨rfl, opener, looked⟩)

structure Gathered (placeholders : List Placeholder) (list : ArgumentList) : Prop where
  items : list.items.toList = placeholders.map Placeholder.node
  block : list.block = none
  pairs : list.pairs = #[]

theorem Gathered.push {list : ArgumentList} (gathered : Gathered placeholders list)
    (placeholder : Placeholder) (span : Span) :
    Gathered (placeholders ++ [placeholder]) (list.push placeholder.node span) where
  items := by
    rw [List.map_append, ← gathered.items]
    exact Array.toList_push
  block := gathered.block
  pairs := gathered.pairs

structure ArgumentsRead (before : State) (heredocs : List RawHeredoc)
    (placeholders : List Placeholder) (after : State) : Prop where
  opened : placeholders.map Placeholder.heredoc = heredocs
  awaits : after.arena.Awaits placeholders
  builds : before.Builds placeholders.length after

/-- The arguments between the parentheses are the heredocs, in the order in which they wait. -/
theorem arguments_heredocs {first : RawHeredoc} {more : List RawHeredoc}
    (meets : state.Meets (.opener false first :: argumentsAfter more) following 1 [])
    (unseen : state.lookahead = none) (room : state.Room (more.length + 1))
    (shallow : state.depth < state.limits.maxDepth) :
    Succeeds (Parse.table depth) (arguments (some .rightParen)) state fun list after =>
      ∃ placeholders, ArgumentsRead state (first :: more) placeholders after ∧
        list.items = placeholders.map Placeholder.node ∧ list.block = none ∧
        MarkAhead [] following (placeholders.map Placeholder.pending) after := by
  have begins : Succeeds (Parse.table depth) (atCloser (some .rightParen)) state
      fun closes after => closes = false ∧ ArgumentAhead first more following [] after ∧
        state.Builds 0 after :=
    atCloser_opener meets (.nil _) unseen
  refine begins.bind ?_
  rintro _ begun ⟨rfl, opener, looked⟩
  refine Yields.bind (repeatUntil_yields (fun (list : ArgumentList) current =>
      ∃ placeholders heredoc left, placeholders.map Placeholder.heredoc ++ heredoc :: left =
          first :: more ∧ Gathered placeholders list ∧
        ArgumentAhead heredoc left following placeholders current ∧
        state.Builds placeholders.length current)
    (fun (list : ArgumentList) after => ∃ placeholders,
      ArgumentsRead state (first :: more) placeholders after ∧ Gathered placeholders list ∧
      MarkAhead [] following (placeholders.map Placeholder.pending) after) ?_ ?_) ?_
  · exact ⟨[], first, more, rfl, ⟨rfl, rfl, rfl⟩, opener, looked⟩
  · rintro list current ⟨placeholders, heredoc, left, parts, gathered, opener, builds⟩
    obtain ⟨⟨span, seen⟩, ⟨start, meets⟩, awaits⟩ := opener
    have lengths := congrArg List.length parts
    rw [List.length_append, List.length_map, List.length_cons, List.length_cons] at lengths
    have roomy : current.Room 1 := by
      have enough : state.Room (placeholders.length + 1) := room.of_le (by omega)
      exact enough.after builds.toGains
    have deep : current.depth < current.limits.maxDepth := by
      rw [builds.depth, builds.limits]
      exact shallow
    refine (argumentItem_opener gathered.block gathered.pairs seen rfl meets awaits roomy
      deep).bind ?_
    rintro _ after ⟨id, place, rfl, ⟨start, mark, awaits⟩, stored⟩
    let placeholder : Placeholder := ⟨heredoc, start, id⟩
    have gathered := gathered.push placeholder place
    have builds : state.Builds (placeholders ++ [placeholder]).length after := by
      rw [List.length_append, List.length_singleton]
      exact builds.trans stored
    cases left with
    | nil =>
        obtain ⟨⟨close, ahead⟩, meets⟩ := mark
        refine Yields.accept_bind ahead nofun (yields_pure ?_)
        refine ⟨placeholders ++ [placeholder], ⟨?_, awaits, builds⟩, gathered, ⟨close, ahead⟩, meets⟩
        rw [← parts, List.map_append]
        rfl
    | cons next rest =>
        obtain ⟨⟨comma, ahead⟩, meets⟩ := mark
        refine Yields.accept_taken_bind ahead rfl ?_
        refine (atCloser_opener meets.taken awaits rfl).bind ?_
        rintro _ reached ⟨rfl, opener, looked⟩
        refine yields_pure ⟨placeholders ++ [placeholder], next, rest, ?_, gathered, opener, ?_⟩
        · rw [← parts, List.map_append, List.append_assoc]
          rfl
        · have passed : after.Builds 0
              { after with lookahead := none, previousStop := comma.stop } :=
            .of_same rfl rfl rfl rfl rfl
          exact builds.trans (passed.trans looked)
  · rintro list after ⟨placeholders, read, gathered, mark⟩
    obtain ⟨close, ahead⟩ := mark.1
    refine (skipNewlines_ahead ahead nofun).bind ?_
    rintro _ settled rfl
    have finishes : Succeeds (Parse.table depth) (finishArguments list) settled
        fun given reached => given.items = list.items.toList ∧ given.block = list.block ∧
          reached = settled := by
      unfold finishArguments
      rw [gathered.pairs]
      exact yields_pure ⟨rfl, rfl, rfl⟩
    refine finishes.mono ?_
    rintro given _ ⟨items, block, rfl⟩
    exact ⟨placeholders, read, items.trans gathered.items, block.trans gathered.block, mark⟩

end Parse

/-! ### The call -/

def Operand.Calls (symbol : Symbol) (placeholders : List Placeholder) (operand : Operand) : Prop :=
  ∃ span list, operand = .fullCall span (.function symbol) list ∧
    list.items = placeholders.map Placeholder.node ∧ list.block = none

def CallStored (name : VariableName) (placeholders : List Placeholder) (id : NodeId)
    (after : State) : Prop :=
  ∃ symbol, after.arena.Shaped id
      (.functionCall symbol (placeholders.map Placeholder.node) none) ∧
    after.symbols.Spells symbol name.text

namespace Parse

variable {table : RuleTable} {depth : Nat} {state : State} {first : RawHeredoc}
  {more : List RawHeredoc} {following : Bytes} {span : Span} {symbol : Symbol} {token : Token}

theorem parenthesized_heredocs
    (ahead : state.lookahead = some ⟨.punct .callParen, span⟩)
    (meets : state.Meets (.opener false first :: argumentsAfter more) following 1 [])
    (room : state.Room (more.length + 1)) (shallow : state.depth < state.limits.maxDepth) :
    Succeeds (Parse.table depth) parenthesized state fun list after =>
      ∃ placeholders, ArgumentsRead state (first :: more) placeholders after ∧
        list.items = placeholders.map Placeholder.node ∧ list.block = none ∧
        after.lookahead = none ∧
        after.Meets [] following 0 (placeholders.map Placeholder.pending) := by
  refine Yields.take_bind ahead ?_
  let taken : State := { state with lookahead := none, previousStop := span.stop }
  have passed : state.Builds 0 taken := .of_same rfl rfl rfl rfl rfl
  have between : Succeeds (Parse.table depth) (arguments (some .rightParen)) taken
      fun list after => ∃ placeholders, ArgumentsRead taken (first :: more) placeholders after ∧
        list.items = placeholders.map Placeholder.node ∧ list.block = none ∧
        MarkAhead [] following (placeholders.map Placeholder.pending) after :=
    arguments_heredocs meets.taken rfl room shallow
  refine between.bind ?_
  rintro list reached ⟨placeholders, ⟨opened, awaits, builds⟩, items, block, ⟨close, seen⟩, meets⟩
  have closed : Succeeds (Parse.table depth) (expect (.punct .rightParen)) reached fun _ after =>
      after = { reached with lookahead := none, previousStop := close.stop } := by
    refine Yields.peek_bind seen ?_
    rw [if_pos (decide_eq_true rfl)]
    exact Yields.skip_bind seen (yields_pure rfl)
  refine closed.bind ?_
  rintro _ _ rfl
  refine yields_pure ⟨placeholders, ⟨opened, awaits, ?_⟩, items, block, rfl, meets.taken⟩
  have whole := passed.trans builds
  rw [Nat.zero_add] at whole
  exact whole.alike rfl rfl rfl rfl rfl

theorem link?_call {known : Bool}
    (meets : state.Meets (.callParen :: .opener false first :: argumentsAfter more) following 0 [])
    (unseen : state.lookahead = none) (room : state.Room (more.length + 1))
    (shallow : state.depth < state.limits.maxDepth) :
    Succeeds (Parse.table depth) (link? (.identifier span known symbol)) state fun link after =>
      ∃ operand placeholders, link = some operand ∧ operand.Calls symbol placeholders ∧
        ArgumentsRead state (first :: more) placeholders after ∧ after.lookahead = none ∧
        after.Meets [] following 0 (placeholders.map Placeholder.pending) := by
  refine (peekKind_lexeme meets unseen).bind ?_
  rintro _ peeked ⟨⟨_, mark⟩, rfl, seen, rfl, ⟨start, meets⟩, -, looked⟩
  have roomy : peeked.Room (more.length + 1) := by
    have enough : state.Room (0 + (more.length + 1)) := by rwa [Nat.zero_add]
    exact enough.after looked.toGains
  have deep : peeked.depth < peeked.limits.maxDepth := by
    rw [looked.depth, looked.limits]
    exact shallow
  have call : Succeeds (Parse.table depth) (callArguments (.identifier span known symbol)) peeked
      fun operand after => ∃ placeholders, Operand.Calls symbol placeholders operand ∧
        ArgumentsRead state (first :: more) placeholders after ∧ after.lookahead = none ∧
        after.Meets [] following 0 (placeholders.map Placeholder.pending) := by
    refine (parenthesized_heredocs seen meets roomy deep).bind ?_
    rintro list after ⟨placeholders, ⟨opened, awaits, builds⟩, items, block, unseen, meets⟩
    have whole := looked.trans builds
    rw [Nat.zero_add] at whole
    exact yields_pure ⟨placeholders, ⟨_, _, rfl, items, block⟩, ⟨opened, awaits, whole⟩, unseen,
      meets⟩
  refine Yields.bind call ?_
  rintro operand after ⟨placeholders, read⟩
  exact yields_pure ⟨operand, placeholders, rfl, read⟩

theorem chain_call
    (ahead : state.lookahead = some ⟨.identifier symbol, span⟩)
    (meets : state.Meets (.callParen :: .opener false first :: argumentsAfter more)
      ((first :: more).flatMap RawHeredoc.body) 0 [])
    (room : state.Room (more.length + 1)) (shallow : state.depth < state.limits.maxDepth) :
    Succeeds (Parse.table depth) chain state (Stopped fun operand after => ∃ placeholders,
      operand.Calls symbol placeholders ∧
        LineEnded state (first :: more) (more.length + 1) placeholders after) := by
  let taken : State := { state with lookahead := none, previousStop := span.stop }
  have passed : state.Builds 0 taken := .of_same rfl rfl rfl rfl rfl
  have name : Succeeds (Parse.table depth) primary state fun operand after =>
      ∃ known, operand = .identifier span known symbol ∧ after = taken :=
    Yields.peek_bind ahead (Yields.skip_bind ahead (Yields.get_bind (yields_pure ⟨_, rfl, rfl⟩)))
  refine name.bind ?_
  rintro _ _ ⟨known, rfl, rfl⟩
  apply repeatUntil_yields (fun (operand : Operand) current =>
    (operand = .identifier span known symbol ∧ current = taken) ∨ ∃ placeholders,
      operand.Calls symbol placeholders ∧
      ArgumentsRead taken (first :: more) placeholders current ∧ current.lookahead = none ∧
      current.Meets [] ((first :: more).flatMap RawHeredoc.body) 0
        (placeholders.map Placeholder.pending))
  · exact .inl ⟨rfl, rfl⟩
  rintro operand current
    (⟨rfl, rfl⟩ | ⟨placeholders, call, ⟨opened, awaits, builds⟩, unseen, meets⟩)
  · have called : Succeeds (Parse.table depth) (link? (.identifier span known symbol)) taken
        fun link after => ∃ operand placeholders, link = some operand ∧
          Operand.Calls symbol placeholders operand ∧
          ArgumentsRead taken (first :: more) placeholders after ∧ after.lookahead = none ∧
          after.Meets [] ((first :: more).flatMap RawHeredoc.body) 0
            (placeholders.map Placeholder.pending) :=
      link?_call meets.taken rfl room shallow
    refine called.bind ?_
    rintro _ after ⟨operand, placeholders, rfl, read⟩
    exact yields_pure (.inr ⟨placeholders, read⟩)
  · have count : placeholders.length = more.length + 1 := by
      rw [← List.length_map (f := Placeholder.heredoc), opened, List.length_cons]
    have nonempty : placeholders ≠ [] := by
      rintro rfl
      cases opened
    rw [← opened, List.flatMap_map] at meets
    have peeks : Succeeds (Parse.table depth) peekKind current fun kind after =>
        kind.links = false ∧ Stopped (fun operand after => ∃ placeholders,
          operand.Calls symbol placeholders ∧
            LineEnded state (first :: more) (more.length + 1) placeholders after)
          operand after := by
      refine (peekKind_lineEnd nonempty meets awaits unseen).mono ?_
      rintro _ after ⟨token, rfl, seen, kind, ended, -, looked⟩
      have whole := (passed.trans builds).trans looked
      rw [Nat.zero_add, Nat.add_zero, count] at whole
      exact ⟨kind ▸ rfl, ⟨placeholders, call, opened, ended, whole⟩, token, seen, kind ▸ rfl⟩
    refine (link?_none peeks).bind ?_
    rintro _ after ⟨rfl, stopped⟩
    exact yields_pure stopped

theorem argument_call {rule : CommandRule}
    (ahead : state.lookahead = some ⟨.identifier symbol, span⟩)
    (meets : state.Meets (.callParen :: .opener false first :: argumentsAfter more)
      ((first :: more).flatMap RawHeredoc.body) 0 [])
    (room : state.Room (more.length + 1)) (shallow : state.depth + 2 ≤ state.limits.maxDepth) :
    Succeeds (Parse.table depth) (argumentOperand rule) state (Stopped fun operand after =>
      ∃ placeholders, operand.Calls symbol placeholders ∧
        LineEnded state (first :: more) (more.length + 1) placeholders after) := by
  let deeper : State := { state with depth := state.depth + 1 }
  have read : Succeeds (Parse.table depth) (operand rule) deeper (Stopped fun operand after =>
      ∃ placeholders, operand.Calls symbol placeholders ∧
        LineEnded deeper (first :: more) (more.length + 1) placeholders after) := by
    apply operand_stops
    · rintro _ after ⟨placeholders, ⟨place, list, rfl, -⟩, -⟩
      rfl
    · exact fun _ => chain_call ahead meets.deeper room shallow
  refine argumentOperand_stops ahead rfl (Nat.lt_of_succ_lt shallow) (read.mono ?_)
  rintro operand after ⟨⟨placeholders, calls, line⟩, stopped⟩
  exact ⟨⟨placeholders, calls, line.shallower⟩, stopped⟩

theorem statement_call {name : VariableName} (ahead : state.lookahead = some token)
    (names : (Lexeme.name name).Names state token.kind)
    (meets : state.Meets (.callParen :: .opener false first :: argumentsAfter more)
      ((first :: more).flatMap RawHeredoc.body) 0 [])
    (short : name.text.length ≤ state.limits.tokenMax) (room : state.Room (more.length + 2))
    (shallow : state.depth + 2 ≤ state.limits.maxDepth) :
    Succeeds (Parse.table depth) statement state (Closed fun id after => ∃ placeholders,
      LineEnded state (first :: more) (more.length + 2) placeholders after ∧
        CallStored name placeholders id after) := by
  obtain ⟨_, span⟩ := token
  obtain ⟨symbol, rfl, spelled⟩ := names
  rw [List.take_of_length_le short] at spelled
  have call : ∀ depth, Succeeds (Parse.table depth) (argumentOperand .accepted) state
      (Stopped fun operand after => ∃ placeholders, operand.Calls symbol placeholders ∧
        LineEnded state (first :: more) (more.length + 1) placeholders after) :=
    fun _ => argument_call ahead meets (room.of_le (Nat.le_succ _)) shallow
  refine statement_closed ahead rfl fun _ => negation_of_argument ahead rfl call ?_
  rintro _ current ⟨⟨placeholders, ⟨place, list, rfl, items, block⟩, line⟩, -⟩
  obtain ⟨newline, next⟩ := line.ended.newline
  have left : current.Room 1 := by
    have enough : state.Room (more.length + 1 + 1) := room
    exact enough.after line.builds.toGains
  refine finishCommand_of_alone rfl next
    ((Scan.alloc_succeeds line.ended.free left _ place).mono ?_)
  intro id after stores
  have shape : after.arena.Shaped id (.functionCall symbol list.items list.block) := stores.stored
  rw [items, block] at shape
  have ended := line.ended.stored stores
  have builds := line.builds.trans stores.builds
  obtain ⟨newline, following⟩ := ended.newline
  exact ⟨⟨placeholders, ⟨line.opened, ended, builds⟩, symbol, shape, builds.spells spelled⟩,
    ended.unlabelled, _, following, rfl⟩

end Parse

/-- Heredocs that are opened in one call are its arguments, each with the text of its own
body. -/
theorem parse_call (name : VariableName) (first : RawHeredoc) (more : List RawHeredoc)
    (options : ParseOptions) (symbols : SymbolTable)
    (named : name.text.length ≤ options.tokenMax)
    (short : ∀ heredoc ∈ first :: more, heredoc.Short options.tokenMax)
    (shallow : 2 ≤ options.maxDepth) (room : more.length + 3 ≤ options.maxNodes) :
    let parsed := parse (Lexeme.textOf (callLine name first more) ++
      0x0A :: (first :: more).flatMap RawHeredoc.body) options symbols
    parsed.Clean ∧ ∃ id symbol arguments, parsed.statements? = some [id] ∧
      parsed.arena.Shaped id (.functionCall symbol arguments none) ∧
      parsed.symbols.Spells symbol name.text ∧
      (first :: more).Forall₂ (fun heredoc argument =>
        parsed.arena.Shaped argument (.text .string heredoc.value)) arguments := by
  intro parsed
  obtain ⟨clean, id, placeholders, line, opened, ⟨symbol, called, spelled⟩, statements,
    completes⟩ := parse_line (callLine_fits name first more named _) named shallow
      (fun depth token current ahead names meets short room shallow =>
        Parse.statement_call ahead names meets short room shallow)
      (fun placeholders id after ⟨symbol, called, _⟩ => ⟨_, called, nofun, nofun⟩) short room
  refine ⟨clean, id, symbol, _, statements, completes.kept _ _ called nofun,
    completes.symbols ▸ spelled, ?_⟩
  rw [← opened, List.forall₂_map_left_iff, List.forall₂_map_right_iff, List.forall₂_same]
  exact completes.filled

/-! ### Openers and bodies in the same order -/

theorem textOf_argumentsAfter (heredocs : List RawHeredoc) :
    Lexeme.textOf (argumentsAfter heredocs) =
      (heredocs.flatMap fun heredoc => ascii ", " ++ heredoc.opener) ++ ascii ")" := by
  induction heredocs with
  | nil => decide
  | cons next more ih =>
      have separator : ascii ", " = [0x2C, 0x20] := by decide
      rw [argumentsAfter, Lexeme.textOf, List.flatMap_cons, List.flatMap_cons, ← Lexeme.textOf, ih,
        List.flatMap_cons, separator]
      simp [Lexeme.text]

/-- Any number of heredocs can be opened on one line. The bodies follow in the order of the
openers, each up to its own delimiter, and each argument of the call is the text of its own
body, whether the delimiters differ or not. The limits need room for the name of one letter,
two levels of nesting and the nodes of the program, the call and its arguments. -/
theorem parse_heredocs_in_order (heredocs : List RawHeredoc) (options : ParseOptions)
    (symbols : SymbolTable) (nonempty : heredocs ≠ [])
    (short : ∀ heredoc ∈ heredocs, ∀ line ∈ heredoc.lines, line.length + 1 < options.tokenMax)
    (named : 0 < options.tokenMax) (shallow : 2 ≤ options.maxDepth)
    (room : heredocs.length + 2 ≤ options.maxNodes) :
    let parsed := parse
      (ascii "f(" ++ (ascii ", ").intercalate (heredocs.map RawHeredoc.opener) ++ ascii ")\n" ++
        heredocs.flatMap RawHeredoc.body) options symbols
    parsed.Clean ∧ ∃ id symbol arguments, parsed.statements? = some [id] ∧
      parsed.arena.Shaped id (.functionCall symbol arguments none) ∧
      parsed.symbols.Spells symbol (ascii "f") ∧
      heredocs.Forall₂ (fun heredoc argument =>
        parsed.arena.Shaped argument (.text .string heredoc.value)) arguments := by
  cases heredocs with
  | nil => exact absurd rfl nonempty
  | cons first more =>
      have source : ascii "f(" ++
          (ascii ", ").intercalate ((first :: more).map RawHeredoc.opener) ++ ascii ")\n" ++
            (first :: more).flatMap RawHeredoc.body =
          Lexeme.textOf (callLine ⟨ascii "f", rfl⟩ first more) ++
            0x0A :: (first :: more).flatMap RawHeredoc.body := by
        have opening : ascii "f(" = ascii "f" ++ [0x28] := by decide
        have closing : ascii ")\n" = ascii ")" ++ [0x0A] := by decide
        have line : Lexeme.textOf (callLine ⟨ascii "f", rfl⟩ first more) =
            ascii "f" ++ ([0x28] ++ (first.opener ++ Lexeme.textOf (argumentsAfter more))) := rfl
        rw [line, textOf_argumentsAfter, opening, closing, List.map_cons,
          intercalate_cons_eq_flatMap, List.flatMap_map]
        simp
      rw [source]
      exact parse_call _ first more options symbols named short shallow room

/-- Two heredocs with the same delimiter. -/
theorem parse_heredocs_in_order_twice :
    let first : RawHeredoc :=
      { delimiter := ascii "A"
        lines := [ascii "one"]
        quotable := by decide +kernel
        whole := by decide
        inner := by decide
        reached := by decide }
    let second : RawHeredoc :=
      { first with
        lines := [ascii "two", ascii " A"]
        whole := by decide
        inner := by decide }
    let options : ParseOptions := {}
    let source := ascii "f(<<'A', <<'A')\none\nA\ntwo\n A\nA\n"
    [first, second] ≠ [] ∧
      (∀ heredoc ∈ [first, second], ∀ line ∈ heredoc.lines,
        line.length + 1 < options.tokenMax) ∧
      0 < options.tokenMax ∧ 2 ≤ options.maxDepth ∧ 4 ≤ options.maxNodes ∧
      first.value = ascii "one\n" ∧ second.value = ascii "two\n A\n" ∧
      (parse source options {}).Clean ∧ ∃ id symbol arguments,
        (parse source options {}).statements? = some [id] ∧
        (parse source options {}).arena.Shaped id (.functionCall symbol arguments none) ∧
        (parse source options {}).symbols.Spells symbol (ascii "f") ∧
        [first, second].Forall₂ (fun heredoc argument =>
          (parse source options {}).arena.Shaped argument
            (.text .string heredoc.value)) arguments := by
  intro first second options source
  have written : source = ascii "f(" ++
      (ascii ", ").intercalate ([first, second].map RawHeredoc.opener) ++ ascii ")\n" ++
        [first, second].flatMap RawHeredoc.body := by decide
  have short : ∀ heredoc ∈ [first, second], ∀ line ∈ heredoc.lines,
      line.length + 1 < options.tokenMax := by decide
  rw [written]
  exact ⟨nofun, short, by decide, by decide, by decide, by decide, by decide,
    parse_heredocs_in_order [first, second] options {} nofun short (by decide) (by decide)
      (by decide)⟩

end RubySyntax
