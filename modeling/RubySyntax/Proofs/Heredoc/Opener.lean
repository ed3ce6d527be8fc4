/-
The grammar on a line that opens heredocs.

The node of a heredoc is stored at its opener, as an empty text, and waits with the
heredoc for the body. The queue and the nodes stay in step: the last heredoc of the queue
is given its node before another one is opened.
-/

import RubySyntax.Proofs.Heredoc.Line
import RubySyntax.Proofs.Reading.Level

namespace RubySyntax

structure Placeholder where
  heredoc : RawHeredoc
  start : Nat
  node : NodeId

def Placeholder.pending (placeholder : Placeholder) : PendingHeredoc where
  heredoc := placeholder.heredoc.opened placeholder.start
  node := some placeholder.node

structure Arena.Awaits (arena : Arena) (placeholders : List Placeholder) : Prop where
  distinct : (placeholders.map Placeholder.node).Nodup
  empty : ∀ placeholder ∈ placeholders, arena.Shaped placeholder.node (.text .string [])

theorem Arena.Awaits.nil (arena : Arena) : arena.Awaits [] :=
  ⟨List.nodup_nil, nofun⟩

theorem Arena.Awaits.kept {before after : State} {nodes errors : Nat}
    {placeholders : List Placeholder} (awaits : before.arena.Awaits placeholders)
    (gains : before.Gains nodes errors after) : after.arena.Awaits placeholders where
  distinct := awaits.distinct
  empty placeholder member := gains.shaped (awaits.empty placeholder member)

theorem Arena.Awaits.append {before after : State} {placeholders : List Placeholder}
    {placeholder : Placeholder} (awaits : before.arena.Awaits placeholders)
    (stores : before.Stores (.text .string []) placeholder.node after) :
    after.arena.Awaits (placeholders ++ [placeholder]) where
  distinct := by
    rw [List.map_append, List.map_singleton, List.nodup_append]
    refine ⟨awaits.distinct, List.nodup_singleton _, ?_⟩
    rintro other member _ last rfl
    obtain ⟨earlier, inside, rfl⟩ := List.mem_map.mp member
    obtain ⟨node, found, -⟩ := awaits.empty earlier inside
    rw [List.mem_singleton.mp last, stores.fresh] at found
    cases found
  empty other member := by
    rcases List.mem_append.mp member with inside | last
    · exact stores.builds.shaped (awaits.empty other inside)
    · rw [List.mem_singleton.mp last]
      exact stores.stored

theorem giveNode_last (placeholders : List Placeholder) (heredoc : Heredoc) (node : NodeId) :
    Scan.giveNode node (placeholders.map Placeholder.pending ++ [⟨heredoc, none⟩]) =
      placeholders.map Placeholder.pending ++ [⟨heredoc, some node⟩] := by
  induction placeholders with
  | nil => rfl
  | cons first more ih =>
      rw [List.map_cons, List.cons_append, Scan.giveNode, ih]
      rfl

/-! ### What comes next on a line -/

structure State.Meets (state : State) (lexemes : List Lexeme) (following : Bytes)
    (nesting : Nat) (waiting : List PendingHeredoc) : Prop where
  between : state.lexer.Between nesting waiting
  sound : state.input.Sound
  text : state.input.rest = Lexeme.textOf lexemes ++ 0x0A :: following
  fits : Lexeme.Fits state.limits.tokenMax (0x0A :: following) lexemes state.lexer.mode
  free : state.arena.FreeSound
  unlabelled : state.quotedKey = none

structure State.AtLineEnd (state : State) (placeholders : List Placeholder) : Prop where
  newline : ∃ span, state.lookahead = some ⟨.newline, span⟩
  due : state.lexer.Due (placeholders.map Placeholder.pending)
  sound : state.input.Sound
  text : state.input.rest = placeholders.flatMap fun placeholder => placeholder.heredoc.body
  free : state.arena.FreeSound
  unlabelled : state.quotedKey = none
  awaits : state.arena.Awaits placeholders

namespace State.Meets

variable {state : State} {lexemes : List Lexeme} {following : Bytes} {nesting : Nat}
  {waiting : List PendingHeredoc}

theorem taken (meets : state.Meets lexemes following nesting waiting) {stop : Nat} :
    State.Meets { state with lookahead := none, previousStop := stop } lexemes following nesting
      waiting :=
  ⟨meets.between, meets.sound, meets.text, meets.fits, meets.free, meets.unlabelled⟩

theorem deeper (meets : state.Meets lexemes following nesting waiting) {depth : Nat} :
    State.Meets { state with depth } lexemes following nesting waiting :=
  ⟨meets.between, meets.sound, meets.text, meets.fits, meets.free, meets.unlabelled⟩

end State.Meets

namespace State.AtLineEnd

variable {state after : State} {placeholders : List Placeholder}

theorem shallower (ended : state.AtLineEnd placeholders) {depth : Nat} :
    State.AtLineEnd { state with depth } placeholders :=
  ⟨ended.newline, ended.due, ended.sound, ended.text, ended.free, ended.unlabelled, ended.awaits⟩

theorem stored (ended : state.AtLineEnd placeholders) {shape : Shape NodeId} {id : NodeId}
    (stores : state.Stores shape id after) : after.AtLineEnd placeholders := by
  have awaits := ended.awaits.kept stores.builds.toGains
  obtain ⟨⟨arena, rfl⟩, -, -, -, free⟩ := stores
  exact ⟨ended.newline, ended.due, ended.sound, ended.text, free, ended.unlabelled, awaits⟩

end State.AtLineEnd

def Lexeme.Names (lexeme : Lexeme) (state : State) (kind : TokenKind) : Prop :=
  lexeme.Announces
    (fun symbol name => state.symbols.Spells symbol (name.take state.limits.tokenMax)) kind

structure LexemeAhead (before : State) (first : Lexeme) (more : List Lexeme) (following : Bytes)
    (nesting : Nat) (waiting : List PendingHeredoc) (token : Token) (after : State) : Prop where
  seen : after.lookahead = some token
  names : first.Names after token.kind
  meets : ∃ start, after.Meets more following (first.nests nesting)
    (waiting ++ first.queues start)
  arena : after.arena = before.arena
  builds : before.Builds 0 after

namespace Parse

variable {table : RuleTable} {state : State} {first : Lexeme} {more : List Lexeme}
  {following : Bytes} {nesting : Nat} {waiting : List PendingHeredoc} {excused : Fatal → State → Prop}

theorem peekToken_lexeme (meets : state.Meets (first :: more) following nesting waiting)
    (unseen : state.lookahead = none) :
    Yields table peekToken state (LexemeAhead state first more following nesting waiting)
      excused := by
  have text : state.input.rest = first.text ++ (Lexeme.textOf more ++ 0x0A :: following) := by
    rw [meets.text, Lexeme.textOf, List.flatMap_cons, List.append_assoc]
    rfl
  obtain ⟨suits, short, leaves⟩ := meets.fits
  have read : Scan.Yields Scan.nextToken state (LexemeRead first state nesting waiting) excused :=
    Scan.lexemeToken_yields meets.between meets.sound text suits short
  refine (peekToken_reads unseen (read.mono fun token after read =>
    ⟨Lexeme.ne_heredocBodies read.kind, read⟩)).mono ?_
  rintro token _ ⟨middle, read, rfl⟩
  obtain ⟨kind, ⟨input, lexer, symbols, rfl⟩, moved, ⟨start, between⟩, mode, grows⟩ := read
  dsimp only at moved
  refine ⟨rfl, kind, ⟨start, between, ?_, ?_, leaves _ mode, meets.free, meets.unlabelled⟩, rfl,
    ⟨⟨grows.nodes, grows.names, rfl⟩, rfl, rfl, rfl, rfl⟩, rfl⟩
  · subst moved
    refine meets.sound.advance ?_
    rw [text, List.length_append]
    exact Nat.le_add_right ..
  · subst moved
    change state.input.rest.drop first.text.length = _
    rw [text, List.drop_left]

theorem peekKind_lexeme (meets : state.Meets (first :: more) following nesting waiting)
    (unseen : state.lookahead = none) :
    Yields table peekKind state (fun kind after => ∃ token, kind = token.kind ∧
      LexemeAhead state first more following nesting waiting token after) excused := by
  refine (peekToken_lexeme meets unseen).bind ?_
  intro token after seen
  exact yields_pure ⟨token, rfl, seen⟩

theorem peekToken_lineEnd {placeholders : List Placeholder} (opened : placeholders ≠ [])
    (meets : state.Meets [] (placeholders.flatMap fun placeholder => placeholder.heredoc.body) 0
      (placeholders.map Placeholder.pending))
    (awaits : state.arena.Awaits placeholders) (unseen : state.lookahead = none) :
    Yields table peekToken state (fun token after => after.lookahead = some token ∧
      token.kind = .newline ∧ after.AtLineEnd placeholders ∧ after.arena = state.arena ∧
      state.Builds 0 after) excused := by
  have waits : placeholders.map Placeholder.pending ≠ [] :=
    fun none => opened (List.map_eq_nil_iff.mp none)
  have read : Scan.Yields Scan.nextToken state (fun token after =>
      token.kind ≠ .heredocBodies ∧ token.kind = .newline ∧
      ∃ lexer, after = { state with input := state.input.advance 1, lexer } ∧
        lexer.Due (placeholders.map Placeholder.pending)) excused := by
    refine (Scan.lineEndToken_yields meets.between waits meets.fits meets.text).mono ?_
    rintro token after ⟨kind, ended⟩
    exact ⟨kind ▸ nofun, kind, ended⟩
  refine (peekToken_reads unseen read).mono ?_
  rintro ⟨_, span⟩ _ ⟨_, ⟨rfl, lexer, rfl, due⟩, rfl⟩
  refine ⟨rfl, rfl, ?_, rfl, .of_same rfl rfl rfl rfl rfl⟩
  refine ⟨⟨span, rfl⟩, due, ?_, ?_, meets.free, meets.unlabelled, awaits⟩
  · refine meets.sound.advance ?_
    rw [meets.text]
    exact Nat.succ_le_succ (Nat.zero_le _)
  · change state.input.rest.drop 1 = _
    rw [meets.text]
    rfl

theorem peekKind_lineEnd {placeholders : List Placeholder} (opened : placeholders ≠ [])
    (meets : state.Meets [] (placeholders.flatMap fun placeholder => placeholder.heredoc.body) 0
      (placeholders.map Placeholder.pending))
    (awaits : state.arena.Awaits placeholders) (unseen : state.lookahead = none) :
    Yields table peekKind state (fun kind after => ∃ token, kind = token.kind ∧
      after.lookahead = some token ∧ token.kind = .newline ∧ after.AtLineEnd placeholders ∧
      after.arena = state.arena ∧ state.Builds 0 after) excused := by
  refine (peekToken_lineEnd opened meets awaits unseen).bind ?_
  intro token after seen
  exact yields_pure ⟨token, rfl, seen⟩

/-! ### The node of a heredoc -/

structure OpenerRead (before : State) (heredoc : RawHeredoc) (more : List Lexeme)
    (following : Bytes) (nesting : Nat) (placeholders : List Placeholder) (id : NodeId)
    (after : State) : Prop where
  opened : ∃ start, after.Meets more following nesting
      ((placeholders ++ [Placeholder.mk heredoc start id]).map Placeholder.pending) ∧
    after.arena.Awaits (placeholders ++ [Placeholder.mk heredoc start id])
  unseen : after.lookahead = none
  builds : before.Builds 1 after

/-- The node of a heredoc waits for its body. -/
theorem primary_heredoc {heredoc : RawHeredoc} {token : Token} {start : Nat}
    {placeholders : List Placeholder} (ahead : state.lookahead = some token)
    (kind : token.kind = .heredocBegin)
    (meets : state.Meets more following nesting
      (placeholders.map Placeholder.pending ++ [⟨heredoc.opened start, none⟩]))
    (awaits : state.arena.Awaits placeholders) (room : state.Room 1) :
    Succeeds table primary state fun operand after => ∃ id, operand = .node id ∧
      OpenerRead state heredoc more following nesting placeholders id after := by
  obtain ⟨_, span⟩ := token
  subst kind
  have stored : Succeeds table Parse.heredoc state
      (OpenerRead state heredoc more following nesting placeholders) := by
    refine Yields.take_bind ahead ?_
    let taken : State := { state with lookahead := none, previousStop := span.stop }
    have passed : state.Builds 0 taken := .of_same rfl rfl rfl rfl rfl
    have alloc : Scan.Succeeds (Scan.alloc (.text .string []) span) taken
        (taken.Stores (.text .string [])) :=
      Scan.alloc_succeeds (show taken.arena.FreeSound from meets.free) room _ span
    refine Yields.lift_bind alloc ?_
    intro id reached stores
    let placeholder : Placeholder := ⟨heredoc, start, id⟩
    have queue : (placeholders ++ [placeholder]).map Placeholder.pending =
        Scan.giveNode id state.lexer.heredocs := by
      rw [meets.between.heredocs, giveNode_last, List.map_append]
      rfl
    have stored : reached.arena.Awaits (placeholders ++ [placeholder]) :=
      (show taken.arena.Awaits placeholders from awaits).append stores
    have builds : state.Builds 1 reached := passed.trans stores.builds
    obtain ⟨⟨arena, rfl⟩, -, -, -, free⟩ := stores
    have awaited : Scan.Succeeds (Scan.awaitBody id) { taken with arena } fun _ after =>
        after = { taken with
          arena
          lexer := { taken.lexer with heredocs := Scan.giveNode id taken.lexer.heredocs } } := rfl
    refine Yields.lift_bind awaited ?_
    rintro _ _ rfl
    refine yields_pure ⟨⟨start, ?_, stored⟩, rfl, builds.alike rfl rfl rfl rfl rfl⟩
    have between := meets.between
    exact ⟨⟨between.literal, queue.symm, between.due, between.contexts, between.brackets,
      between.constructs, between.running, between.unmarked⟩, meets.sound, meets.text,
      meets.fits, free, meets.unlabelled⟩
  refine Yields.peek_bind ahead (stored.bind ?_)
  intro id after read
  exact yields_pure ⟨id, rfl, read⟩

end Parse

end RubySyntax
