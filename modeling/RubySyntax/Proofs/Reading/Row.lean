/-
Rows of words in front of the grammar.

A state has some words ahead of it, perhaps with the first of them read already. Looking at
the next word changes nothing of account, and taking it leaves the words after it. What a run
stores, reports and declares on its way is added up.
-/

import RubySyntax.Proofs.Reading.Statement
import RubySyntax.Proofs.Reading.Word

namespace RubySyntax

/-! ### What is added up -/

/-- Nodes are stored, errors are reported and variables are declared, in this order. Without an
error nothing is reported. The source stays. -/
structure State.Adds (before : State) (nodes reported : Nat) (declared : List Symbol)
    (after : State) : Prop extends before.Gains nodes reported after where
  quiet : reported = 0 → after.report = before.report
  scopes : after.scopes = declared.foldl ScopeStack.declare before.scopes
  source : after.input.bytes = before.input.bytes

namespace State.Adds

variable {before middle after : State} {nodes more reported others : Nat}
  {declared added : List Symbol}

theorem refl (state : State) : state.Adds 0 0 [] state :=
  ⟨.refl state, fun _ => rfl, rfl, rfl⟩

theorem trans (first : before.Adds nodes reported declared middle)
    (second : middle.Adds more others added after) :
    before.Adds (nodes + more) (reported + others) (declared ++ added) after where
  toGains := first.toGains.trans second.toGains
  quiet none := by
    obtain ⟨left, right⟩ := Nat.add_eq_zero_iff.mp none
    exact (second.quiet right).trans (first.quiet left)
  scopes := by rw [second.scopes, first.scopes, List.foldl_append]
  source := second.source.trans first.source

theorem since (adds : middle.Adds nodes reported declared after)
    (passed : before.Adds 0 0 [] middle) : before.Adds nodes reported declared after := by
  have whole := passed.trans adds
  rwa [Nat.zero_add, Nat.zero_add] at whole

theorem later (adds : before.Adds nodes reported declared middle)
    (passed : middle.Adds 0 0 [] after) : before.Adds nodes reported declared after := by
  have whole := adds.trans passed
  rwa [List.append_nil] at whole

theorem room (passed : before.Adds 0 reported declared after) (room : before.Room nodes) :
    after.Room nodes :=
  State.Room.after (by rwa [Nat.zero_add]) passed.toGains

theorem shallow (adds : before.Adds nodes reported declared after)
    (shallow : before.depth < before.limits.maxDepth) : after.depth < after.limits.maxDepth := by
  rwa [adds.depth, adds.limits]

theorem of_same (arena : after.arena = before.arena) (symbols : after.symbols = before.symbols)
    (report : after.report = before.report) (limits : after.limits = before.limits)
    (depth : after.depth = before.depth) (scopes : after.scopes = before.scopes)
    (source : after.input.bytes = before.input.bytes) : before.Adds 0 0 [] after :=
  ⟨.of_same arena symbols (congrArg Report.errors report) limits depth, fun _ => report, scopes,
    source⟩

theorem taken (state : State) (stop : Nat) :
    state.Adds 0 0 [] { state with lookahead := none, previousStop := stop } :=
  .of_same rfl rfl rfl rfl rfl rfl rfl

theorem shallower
    (adds : State.Adds { before with depth := before.depth + 1 } nodes reported declared
      after) :
    before.Adds nodes reported declared { after with depth := after.depth - 1 } :=
  ⟨adds.toGains.shallower, adds.quiet, adds.scopes, adds.source⟩

theorem of_stores {shape : Shape NodeId} {id : NodeId} (stores : before.Stores shape id after) :
    before.Adds 1 0 [] after := by
  have builds := stores.builds
  obtain ⟨⟨arena, rfl⟩, -⟩ := stores
  exact ⟨builds.toGains, fun _ => rfl, rfl, rfl⟩

theorem declare (state : State) (symbol : Symbol) :
    state.Adds 0 0 [symbol] { state with scopes := state.scopes.declare symbol } :=
  ⟨.of_same rfl rfl rfl rfl rfl, fun _ => rfl, rfl, rfl⟩

end State.Adds

/-! ### What is ahead -/

structure Word.Unread (words : List Word) (constructs : Nat) (state : State) : Prop where
  sound : state.input.Sound
  text : state.input.rest = Word.textOf words
  fits : ∃ place nesting, place.Holds state.lexer ∧
    state.lexer.Between nesting [] [] constructs ∧
    Word.Fits state.limits.tokenMax place nesting words

def Word.Faces (words : List Word) (constructs : Nat) (state : State) : Prop :=
  match state.lookahead with
  | none => Word.Unread words constructs state
  | some token =>
      match words with
      | [] => token.kind = .endOfInput
      | word :: later => word.Announces state token ∧ Word.Unread later constructs state

/-- Some words come next in every state in which they are read in the same way. -/
theorem Word.Faces.imp {words : List Word} {constructs inner : Nat} {before after : State}
    (faces : Word.Faces words constructs before) (seen : after.lookahead = before.lookahead)
    (announces : ∀ token (word : Word), word.Announces before token → word.Announces after token)
    (unread : ∀ words, Word.Unread words constructs before → Word.Unread words inner after) :
    Word.Faces words inner after := by
  unfold Word.Faces at faces ⊢
  rw [seen]
  cases same : before.lookahead with
  | none =>
      rw [same] at faces
      exact unread words faces
  | some token =>
      rw [same] at faces
      cases words with
      | nil => exact faces
      | cons word words => exact ⟨announces token word faces.1, unread words faces.2⟩

structure State.Ahead (state : State) (words : List Word) (constructs : Nat := 0) : Prop where
  faces : Word.Faces words constructs state
  free : state.arena.FreeSound
  unlabelled : state.quotedKey = none

namespace State.Ahead

variable {state after : State} {word : Word} {words : List Word} {constructs : Nat} {token : Token}

theorem announced (ahead : state.Ahead (word :: words) constructs)
    (seen : state.lookahead = some token) : word.Announces state token := by
  have faces := ahead.faces
  unfold Word.Faces at faces
  rw [seen] at faces
  exact faces.1

theorem ended (ahead : state.Ahead [] constructs) (seen : state.lookahead = some token) :
    token.kind = .endOfInput := by
  have faces := ahead.faces
  unfold Word.Faces at faces
  rw [seen] at faces
  exact faces

theorem taken (ahead : state.Ahead (word :: words) constructs)
    (seen : state.lookahead = some token) (stop : Nat) :
    State.Ahead { state with lookahead := none, previousStop := stop } words constructs := by
  have faces := ahead.faces
  unfold Word.Faces at faces
  rw [seen] at faces
  exact ⟨⟨faces.2.sound, faces.2.text, faces.2.fits⟩, ahead.free, ahead.unlabelled⟩

/-- What is ahead depends on the text and the lexer, on the names and on the limits alone. -/
theorem alike (ahead : state.Ahead words constructs) (lookahead : after.lookahead = state.lookahead)
    (lexer : after.lexer = state.lexer) (input : after.input = state.input)
    (symbols : after.symbols = state.symbols) (limits : after.limits = state.limits)
    (free : after.arena.FreeSound) (key : after.quotedKey = state.quotedKey) :
    after.Ahead words constructs := by
  refine ⟨ahead.faces.imp lookahead (fun token word announced => ?_) fun words unread => ?_, free,
    key.trans ahead.unlabelled⟩
  · cases word <;> simpa only [Word.Announces, symbols, input] using announced
  · exact ⟨input ▸ unread.sound, input ▸ unread.text, by rw [lexer, limits]; exact unread.fits⟩

theorem stored (ahead : state.Ahead words constructs) {shape : Shape NodeId} {id : NodeId}
    (stores : state.Stores shape id after) : after.Ahead words constructs := by
  obtain ⟨⟨arena, rfl⟩, -, -, -, free⟩ := stores
  exact ahead.alike rfl rfl rfl rfl rfl free rfl

/-- Between two tokens the lexer may note other things. -/
theorem noted {inner : Nat} (ahead : state.Ahead words constructs) {lexer : LexerState}
    (mode : lexer.mode = state.lexer.mode)
    (starts : lexer.statementStart = state.lexer.statementStart)
    (between : ∀ nesting, state.lexer.Between nesting [] [] constructs →
      lexer.Between nesting [] [] inner) :
    State.Ahead { state with lexer } words inner := by
  refine ⟨ahead.faces.imp rfl (fun token word announced => ?_) fun words unread => ?_, ahead.free,
    ahead.unlabelled⟩
  · cases word <;> exact announced
  · obtain ⟨place, nesting, holds, whole, fits⟩ := unread.fits
    refine ⟨unread.sound, unread.text, place, nesting, ?_, between nesting whole, fits⟩
    cases place <;> simpa only [Place.Holds, mode, starts] using holds

end State.Ahead

theorem State.start_ahead {words : List Word} {options : ParseOptions} (symbols : SymbolTable)
    (fits : Word.Fits options.tokenMax .statement 0 words) :
    (State.start (Word.textOf words) options symbols).Ahead words where
  faces := ⟨(State.start_sound _ options symbols True).reads.input, rfl, .statement, 0, ⟨rfl, rfl⟩,
    ⟨rfl, rfl, rfl, rfl, rfl, rfl, rfl, rfl⟩, fits⟩
  free := (Arena.sound_withLimit True options.maxNodes).free
  unlabelled := rfl

namespace Parse

variable {α : Type} {table : RuleTable} {state : State} {word : Word} {words : List Word}
  {constructs : Nat} {token : Token} {kind : TokenKind} {post : α → State → Prop}
  {excused : Fatal → State → Prop}

theorem peekToken_word (ahead : state.Ahead (word :: words) constructs) :
    Yields table peekToken state (fun token after => after.lookahead = some token ∧
      word.Announces after token ∧ after.Ahead (word :: words) constructs ∧
        state.Adds 0 0 [] after) excused := by
  cases seen : state.lookahead with
  | some token =>
      refine Yields.get_bind ?_
      rw [seen]
      exact yields_pure ⟨seen, ahead.announced seen, ahead, .refl state⟩
  | none =>
      have faces := ahead.faces
      unfold Word.Faces at faces
      rw [seen] at faces
      obtain ⟨sound, text, place, nesting, holds, between, suits, short, fits⟩ := faces
      rw [Word.textOf_cons] at text
      have read : Scan.Yields Scan.nextToken state (fun token after =>
          token.kind ≠ .heredocBodies ∧ WordRead word state nesting constructs token after)
          excused :=
        (Scan.rowToken_yields between sound holds text suits short).mono fun token after read =>
          ⟨Word.ne_heredocBodies read.kind, read⟩
      refine (peekToken_reads seen read).mono ?_
      rintro token _ ⟨after, ⟨kind, ⟨input, lexer, symbols, rfl⟩, moved, between, place, grows⟩, rfl⟩
      have left : Word.Unread words constructs { state with input, lexer, symbols } := by
        have moved : input = state.input.advance word.text.length := moved
        subst moved
        refine ⟨sound.advance ?_, ?_, _, _, place, between, fits⟩
        · rw [text, List.length_append]
          exact Nat.le_add_right ..
        · rw [Input.advance, text, List.drop_left]
      have announced : ∀ tokens lookahead, word.Announces
          { state with input, lexer, symbols, tokens, lookahead } token := by
        intro tokens lookahead
        cases word <;> exact kind
      refine ⟨rfl, announced _ _, ⟨⟨announced _ _, ⟨left.sound, left.text, left.fits⟩⟩,
        ahead.free, ahead.unlabelled⟩, ⟨⟨⟨grows.nodes, grows.names, grows.errors⟩, rfl, rfl, rfl,
          rfl⟩, fun _ => rfl, rfl, ?_⟩⟩
      have source : input = state.input.advance word.text.length := moved
      rw [source]
      rfl

theorem peekKind_word (ahead : state.Ahead (word :: words) constructs) :
    Yields table peekKind state (fun kind after => ∃ token, kind = token.kind ∧
      after.lookahead = some token ∧ word.Announces after token ∧
        after.Ahead (word :: words) constructs ∧ state.Adds 0 0 [] after) excused := by
  refine (peekToken_word ahead).bind ?_
  intro token after seen
  exact yields_pure ⟨token, rfl, seen⟩

theorem peekToken_last (ahead : state.Ahead []) :
    Yields table peekToken state (fun token after => after.lookahead = some token ∧
      token.kind = .endOfInput ∧ after.Ahead [] ∧ state.Adds 0 0 [] after) excused := by
  cases seen : state.lookahead with
  | some token =>
      refine Yields.get_bind ?_
      rw [seen]
      exact yields_pure ⟨seen, ahead.ended seen, ahead, .refl state⟩
  | none =>
      have faces := ahead.faces
      unfold Word.Faces at faces
      rw [seen] at faces
      obtain ⟨sound, text, place, nesting, holds, between, ends, rfl⟩ := faces
      have satisfied : state.lexer.mode.isBegin = false ∧ state.lexer.mode.namesMethod = false ∨
          state.lexer.statementStart = true := by
        rcases ends with rfl | rfl
        · exact .inr holds.2
        · exact .inl holds
      have read : Scan.Yields Scan.nextToken state (fun token after =>
          token.kind ≠ .heredocBodies ∧ token.kind = .endOfInput ∧
            ∃ lexer, after = { state with lexer }) excused := by
        refine (Scan.endToken_yields between satisfied text).mono ?_
        rintro token after ⟨kind, reading⟩
        exact ⟨kind ▸ nofun, kind, reading⟩
      refine (peekToken_reads seen read).mono ?_
      rintro token _ ⟨_, ⟨kind, lexer, rfl⟩, rfl⟩
      exact ⟨rfl, kind, ⟨kind, ahead.free, ahead.unlabelled⟩, .of_same rfl rfl rfl rfl rfl rfl rfl⟩

/-! ### Storing a node -/

theorem alloc_ahead (ahead : state.Ahead words constructs) (room : state.Room 1)
    (shape : Shape NodeId) (span : Span) :
    Succeeds table (liftM (Scan.alloc shape span)) state fun id after =>
      after.arena.Shaped id shape ∧ after.Ahead words constructs ∧ state.Adds 1 0 [] after :=
  yields_lift ((Scan.alloc_succeeds ahead.free room shape span).mono fun _ _ stores =>
    ⟨stores.stored, ahead.stored stores, .of_stores stores⟩)

/-! ### Taking the next word -/

theorem Yields.take_word {next : Token → Parse α} (ahead : state.Ahead (word :: words) constructs)
    (seen : state.lookahead = some token)
    (follow : ∀ after, after.lookahead = none → after.Ahead words constructs →
      state.Adds 0 0 [] after → Yields table (next token) after post excused) :
    Yields table (take >>= next) state post excused :=
  Yields.take_bind seen (follow _ rfl (ahead.taken seen _) (.taken state _))

theorem Yields.skip_word {next : Unit → Parse α} (ahead : state.Ahead (word :: words) constructs)
    (seen : state.lookahead = some token)
    (follow : ∀ after, after.lookahead = none → after.Ahead words constructs →
      state.Adds 0 0 [] after → Yields table (next ()) after post excused) :
    Yields table (skip >>= next) state post excused :=
  Yields.skip_bind seen (follow _ rfl (ahead.taken seen _) (.taken state _))

theorem accept_word (ahead : state.Ahead (word :: words) constructs)
    (same : ∀ after token, word.Announces after token → token.kind = kind) :
    Yields table (accept kind) state (fun taken after => taken = true ∧ after.lookahead = none ∧
      after.Ahead words constructs ∧ state.Adds 0 0 [] after) excused := by
  have given : Yields table (accept? kind) state (fun token? after => token?.isSome = true ∧
      after.lookahead = none ∧ after.Ahead words constructs ∧ state.Adds 0 0 [] after)
      excused := by
    refine (peekKind_word ahead).bind ?_
    rintro _ peeked ⟨token, rfl, seen, announced, ahead, looked⟩
    rw [if_pos (same peeked token announced)]
    refine Yields.take_word ahead seen fun after unseen ahead passed => ?_
    exact yields_pure ⟨rfl, unseen, ahead, passed.since looked⟩
  exact given.bind fun token? after given => yields_pure given

theorem accept?_other (ahead : state.Ahead (word :: words) constructs)
    (other : ∀ after token, word.Announces after token → token.kind ≠ kind) :
    Yields table (accept? kind) state (fun token? after => token? = none ∧
      (∃ token, after.lookahead = some token ∧ word.Announces after token) ∧
      after.Ahead (word :: words) constructs ∧ state.Adds 0 0 [] after) excused := by
  refine (peekKind_word ahead).bind ?_
  rintro _ peeked ⟨token, rfl, seen, announced, ahead, looked⟩
  rw [if_neg (other peeked token announced)]
  exact yields_pure ⟨rfl, ⟨token, seen, announced⟩, ahead, looked⟩

theorem accept_other (ahead : state.Ahead (word :: words) constructs)
    (other : ∀ after token, word.Announces after token → token.kind ≠ kind) :
    Yields table (accept kind) state (fun taken after => taken = false ∧
      (∃ token, after.lookahead = some token ∧ word.Announces after token) ∧
      after.Ahead (word :: words) constructs ∧ state.Adds 0 0 [] after) excused :=
  (accept?_other ahead other).bind fun _ _ given => yields_pure ⟨given.1 ▸ rfl, given.2⟩

theorem expect_word (ahead : state.Ahead (word :: words) constructs)
    (same : ∀ after token, word.Announces after token → token.kind = kind) :
    Yields table (expect kind) state (fun _ after => after.lookahead = none ∧
      after.Ahead words constructs ∧ state.Adds 0 0 [] after) excused := by
  refine (peekToken_word ahead).bind ?_
  rintro token peeked ⟨seen, announced, ahead, looked⟩
  rw [if_pos (decide_eq_true (same peeked token announced))]
  refine Yields.skip_word ahead seen fun after unseen ahead passed => ?_
  exact yields_pure ⟨unseen, ahead, passed.since looked⟩

theorem skipWhile_stays {skipped : TokenKind → Bool}
    (ahead : state.Ahead (word :: words) constructs)
    (stays : ∀ after token, word.Announces after token → skipped token.kind = false) :
    Yields table (skipWhile skipped) state (fun _ after =>
      (∃ token, after.lookahead = some token ∧ word.Announces after token) ∧
      after.Ahead (word :: words) constructs ∧ state.Adds 0 0 [] after) excused := by
  apply repeatUntil_yields (fun _ current => current = state) _ rfl
  rintro _ _ rfl
  refine (peekKind_word ahead).bind ?_
  rintro _ after ⟨token, rfl, seen, announced, ahead, looked⟩
  rw [stays after token announced]
  exact yields_pure ⟨⟨token, seen, announced⟩, ahead, looked⟩

theorem skipTerminators_lineFeed {begun : State → Prop}
    (ahead : state.Ahead (.lineFeed :: words) constructs)
    (peeks : ∀ current, current.Ahead words constructs → state.Adds 0 0 [] current →
      Yields table peekKind current (fun kind after => kind.isTerminator = false ∧ begun after)
        excused) :
    Yields table skipTerminators state (fun _ after => begun after) excused := by
  apply repeatUntil_yields (fun _ current => current = state ∨
    current.Ahead words constructs ∧ state.Adds 0 0 [] current) _ (.inl rfl)
  rintro _ current (rfl | ⟨ahead, passed⟩)
  · refine (peekKind_word ahead).bind ?_
    rintro _ peeked ⟨token, rfl, seen, kind, ahead, looked⟩
    rw [show token.kind = .newline from kind]
    refine Yields.skip_word ahead seen fun after _ ahead passed => ?_
    exact yields_pure (.inr ⟨ahead, passed.since looked⟩)
  · refine (peeks current ahead passed).bind ?_
    rintro kind after ⟨other, started⟩
    rw [other]
    exact yields_pure started

end Parse

end RubySyntax
