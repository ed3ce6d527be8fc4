/-
Lists of words.

The words of a list stand between white space. The lexer keeps whether a word has begun: white
space after a word is a token that ends it, and all other white space is passed over. So the
elements of the list are its words, whatever white space stands around them.
-/

import RubySyntax.Proofs.Literal.Statement

namespace RubySyntax

/-! ### Words as they are written -/

inductive WordForm where
  | strings
  | symbols

namespace WordForm

def letter : WordForm → Byte
  | .strings => 0x77
  | .symbols => 0x69

def kind : WordForm → LiteralKind
  | .strings => .words
  | .symbols => .symbols

def element : WordForm → LiteralKind
  | .strings => .string
  | .symbols => .symbol

def shape : WordForm → List NodeId → Shape NodeId
  | .strings => .list .words
  | .symbols => .list .symbols

def Stored (form : WordForm) (arena : Arena) (symbols : SymbolTable) (word : Bytes)
    (id : NodeId) : Prop :=
  match form with
  | .strings => arena.Shaped id (.text .string word)
  | .symbols => ∃ symbol, arena.Shaped id (.named .symbol symbol) ∧ symbols.Spells symbol word

theorem Stored.kept {form : WordForm} {before after : State} {nodes errors : Nat} {word : Bytes}
    {id : NodeId} (stored : form.Stored before.arena before.symbols word id)
    (gains : before.Gains nodes errors after) :
    form.Stored after.arena after.symbols word id := by
  cases form with
  | strings => exact gains.shaped stored
  | symbols =>
      obtain ⟨symbol, shaped, spelled⟩ := stored
      exact ⟨symbol, gains.shaped shaped, gains.spells spelled⟩

abbrev literal (form : WordForm) (start : Nat) (wordStarted : Bool) : Quotation :=
  { kind := form.kind
    interpolates := false
    opening := some 0x5B
    closing := 0x5D
    percent := true
    start
    wordStarted }

end WordForm

def Byte.inWord (byte : Byte) : Bool :=
  !byte.isSpace && byte != 0x5C && byte != 0x5B && byte != 0x5D

structure Bytes.IsWord (word : Bytes) : Prop where
  written : word ≠ []
  plain : ∀ byte ∈ word, byte.inWord = true

/-- Words up to the end of a list. White space stands between them; before the first it may be
missing if no word has begun, and after the last it may be missing as well. -/
inductive WordRow : Bool → List Bytes → Bytes → Prop
  | done {started : Bool} {gap : Bytes} (space : ∀ byte ∈ gap, byte.isSpace = true) :
      WordRow started [] gap
  | next {started : Bool} {gap word text : Bytes} {words : List Bytes}
      (space : ∀ byte ∈ gap, byte.isSpace = true) (apart : started = true → gap ≠ [])
      (isWord : word.IsWord) (more : WordRow true words text) :
      WordRow started (word :: words) (gap ++ (word ++ text))

namespace WordForm

theorem reads_word (form : WordForm) (start : Nat) (started : Bool) {text : Bytes}
    (plain : ∀ byte ∈ text, byte.inWord = true) (rest : Bytes) :
    (form.literal start started).Reads rest text text (form.literal start started) [] := by
  induction text with
  | nil => exact .done
  | cons byte more ih =>
      obtain ⟨inWord, plain⟩ := List.forall_mem_cons.mp plain
      simp only [Byte.inWord, Bool.and_eq_true, Bool.not_eq_true', bne_iff_ne] at inWord
      obtain ⟨⟨⟨solid, unescaped⟩, noOpening⟩, noClosing⟩ := inWord
      have opens : (byte == 0x5B) = false := beq_false_of_ne noOpening
      have closes : (byte == 0x5D) = false := beq_false_of_ne noClosing
      have flat : (form.literal start started).nest byte = form.literal start started := by
        simp only [Quotation.nest, opens, closes, Bool.false_and, Bool.false_eq_true, if_false]
      have goesOn : (form.literal start started).goesOnAt (byte :: (more ++ rest)) = true := by
        simp only [Quotation.goesOnAt, Quotation.closesAt, Quotation.gapAt, closes, solid,
          Bool.false_and, Bool.and_false, Bool.or_false, Bool.not_false, Bool.and_self]
      have reads := ih plain
      rw [← flat] at reads
      have whole := Quotation.Reads.plain goesOn unescaped reads
      rwa [flat] at whole

theorem stops_of_space (form : WordForm) (start : Nat) (started : Bool) {byte : Byte}
    (space : byte.isSpace = true) (rest : Bytes) :
    (form.literal start started).goesOnAt (byte :: rest) = false := by
  have gap : (form.literal start started).gapAt byte = true := by
    rw [Quotation.gapAt, space]
    cases form <;> rfl
  rw [Quotation.goesOnAt, gap, Bool.or_true]
  rfl

/-- After a word the list ends, or white space ends the word. -/
theorem stops_of_row (form : WordForm) (start : Nat) (started : Bool) {words : List Bytes}
    {text : Bytes} (row : WordRow true words text) (rest : Bytes) :
    (form.literal start started).goesOnAt (text ++ 0x5D :: rest) = false := by
  cases row with
  | done space =>
      cases text with
      | nil => exact Quotation.goesOnAt_closing rfl rest
      | cons byte more => exact stops_of_space form start started (space byte List.mem_cons_self) _
  | @next _ gap word others words space apart isWord more =>
      cases gap with
      | nil => exact absurd rfl (apart rfl)
      | cons byte more => exact stops_of_space form start started (space byte List.mem_cons_self) _

end WordForm

/-! ### Tokens of a list -/

structure State.AtWords (state : State) (form : WordForm) (start : Nat) (started : Bool)
    (words : List Bytes) (rest : Bytes) : Prop where
  within : state.lexer.Within (form.literal start started)
  row : ∃ text, WordRow started words text ∧ state.input.rest = text ++ 0x5D :: rest
  sound : state.input.Sound

structure State.AfterWords (state : State) (rest : Bytes) : Prop where
  idle : state.lexer.Between 0 []
  mode : state.lexer.mode = .operandEnd
  text : state.input.rest = rest
  sound : state.input.Sound

/-- A token of a list and what is left after it. White space is a token after a word alone. -/
inductive WordToken (form : WordForm) (start : Nat) (rest : Bytes) :
    Bool → List Bytes → TokenKind → State → Prop
  | gap {words : List Bytes} {after : State} (ahead : after.AtWords form start false words rest) :
      WordToken form start rest true words .wordSeparator after
  | word {word : Bytes} {words : List Bytes} {after : State} (isWord : word.IsWord)
      (ahead : after.AtWords form start true words rest) :
      WordToken form start rest false (word :: words) (.content word false) after
  | close {started : Bool} {after : State} (ended : after.AfterWords rest) :
      WordToken form start rest started [] (.literalEnd []) after

theorem State.AtWords.alike {before after : State} {form : WordForm} {start : Nat}
    {started : Bool} {words : List Bytes} {rest : Bytes}
    (ahead : before.AtWords form start started words rest) (input : after.input = before.input)
    (lexer : after.lexer = before.lexer) : after.AtWords form start started words rest :=
  ⟨lexer ▸ ahead.within, input ▸ ahead.row, input ▸ ahead.sound⟩

theorem WordToken.alike {before after : State} {form : WordForm} {start : Nat} {rest : Bytes}
    {started : Bool} {words : List Bytes} {kind : TokenKind}
    (token : WordToken form start rest started words kind before)
    (input : after.input = before.input) (lexer : after.lexer = before.lexer) :
    WordToken form start rest started words kind after := by
  cases token with
  | gap ahead => exact .gap (ahead.alike input lexer)
  | word isWord ahead => exact .word isWord (ahead.alike input lexer)
  | close ended =>
      exact .close ⟨lexer ▸ ended.idle, lexer ▸ ended.mode, input ▸ ended.text, input ▸ ended.sound⟩

namespace Scan

variable {state : State} {form : WordForm} {start : Nat} {started : Bool} {words : List Bytes}
  {rest gap more : Bytes} {byte : Byte} {post : Token → State → Prop}
  {excused : Fatal → State → Prop}

theorem skipGap_yields (space : ∀ each ∈ gap, each.isSpace = true) (solid : byte.isSpace = false)
    (here : state.input.rest = gap ++ byte :: more) :
    Yields skipGap state (fun skipped after => skipped = decide (0 < gap.length) ∧
      after = { state with input := state.input.advance gap.length }) excused := by
  refine Yields.position_bind (Yields.bind (repeatUntil_yields (fun _ current =>
      ∃ passed left, gap = passed ++ left ∧
        current = { state with input := state.input.advance passed.length })
    (fun _ after => after = { state with input := state.input.advance gap.length }) ?_ ?_) ?_)
  · exact ⟨[], gap, rfl, rfl⟩
  · rintro _ _ ⟨passed, left, texts, rfl⟩
    have ahead : (state.input.advance passed.length).rest = left ++ byte :: more := by
      rw [Input.advance, here, texts, List.append_assoc, List.drop_left]
    cases left with
    | nil =>
        have first : (state.input.advance passed.length).peekByte = byte := by
          rw [Input.peekByte, ahead]
          rfl
        refine Yields.hasMore_bind ahead (Yields.get_bind ?_)
        simp only [first, solid, Bool.false_eq_true, if_false]
        rw [texts, List.append_nil]
        exact yields_pure rfl
    | cons blank left =>
        have first : (state.input.advance passed.length).peekByte = blank := by
          rw [Input.peekByte, ahead]
          rfl
        have isSpace : blank.isSpace = true :=
          space blank (texts ▸ List.mem_append_right _ List.mem_cons_self)
        refine Yields.hasMore_bind ahead (Yields.get_bind ?_)
        simp only [first, isSpace, if_true]
        refine Yields.advance_bind (yields_pure ⟨passed ++ [blank], left, ?_, ?_⟩)
        · rw [texts, List.append_assoc]
          rfl
        · rw [Input.advance_advance, List.length_append]
          rfl
  · rintro _ _ rfl
    refine Yields.position_bind (yields_pure ⟨?_, rfl⟩)
    change decide (state.input.position < state.input.position + gap.length) = _
    simp

/-- In a list white space is a token after a word, and passed over otherwise. -/
theorem nextToken_gap (within : state.lexer.Within (form.literal start started))
    (space : ∀ each ∈ gap, each.isSpace = true) (solid : byte.isSpace = false)
    (here : state.input.rest = gap ++ byte :: more)
    (separates : started = true → gap ≠ [] →
      post ⟨.wordSeparator, ⟨state.input.position, state.input.position + gap.length⟩⟩
        { state with
          input := state.input.advance gap.length
          lexer := { state.lexer with
            literal := some (.quotation (form.literal start false)) } })
    (goesOn : (started = true → gap = []) →
      Yields (if (form.literal start started).closesAt byte then do
          advance 1
          closeLiteral (form.literal start started) (state.input.position + gap.length)
        else literalText (form.literal start started))
        { state with input := state.input.advance gap.length } post excused) :
    Yields nextToken state post excused := by
  have isList : (form.kind.isList && (0 == 0)) = true := by
    cases form <;> rfl
  have ahead : (state.input.advance gap.length).rest = byte :: more := by
    rw [Input.advance, here, List.drop_left]
  have first : (state.input.advance gap.length).peekByte = byte := by
    rw [Input.peekByte, ahead]
    rfl
  refine nextToken_within within (Yields.position_bind ?_)
  simp only [isList, if_true]
  refine (skipGap_yields space solid here).bind ?_
  rintro _ _ ⟨rfl, rfl⟩
  by_cases separated : started = true ∧ gap ≠ []
  · have isGap : (decide (0 < gap.length) && started) = true := by
      rw [separated.1, decide_eq_true (List.length_pos_iff.mpr separated.2)]
      rfl
    rw [if_pos isGap]
    exact Yields.setLexer_bind (Yields.token_bind (separates separated.1 separated.2))
  · have noGap : (decide (0 < gap.length) && started) = false := by
      cases started with
      | false => exact Bool.and_false _
      | true =>
          have empty : gap = [] := not_not.mp fun written => separated ⟨rfl, written⟩
          rw [empty]
          rfl
    rw [noGap]
    refine Yields.position_bind (Yields.hasMore_bind ahead (Yields.get_bind ?_))
    simp only [first, Bool.false_eq_true, if_false]
    exact goesOn fun begun => not_not.mp fun written => separated ⟨begun, written⟩

/-- The next token of a list is white space after a word, a word, or the end. -/
theorem listToken_yields (ahead : state.AtWords form start started words rest)
    (short : ∀ word ∈ words, word.length ≤ state.limits.tokenMax) :
    Yields nextToken state (fun token after => state.Reading after ∧
      WordToken form start rest started words token.kind after) excused := by
  obtain ⟨text, row, here⟩ := ahead.row
  have passes : ∀ {before after : Bytes}, text = before ++ after →
      (state.input.advance before.length).Sound ∧
        (state.input.advance before.length).rest = after ++ 0x5D :: rest := by
    intro before after split
    rw [split, List.append_assoc] at here
    refine ⟨ahead.sound.advance ?_, ?_⟩
    · rw [here, List.length_append]
      exact Nat.le_add_right ..
    · rw [Input.advance, here, List.drop_left]
  have between := ahead.within.between
  cases row with
  | done space =>
      obtain ⟨sound, left⟩ := passes (List.append_nil text).symm
      refine nextToken_gap ahead.within space (by decide) here (fun begun _ => ?_) fun _ => ?_
      · subst begun
        exact ⟨⟨_, _, rfl⟩, .gap ⟨⟨rfl, between⟩, ⟨[], .done (List.forall_mem_nil _), left⟩, sound⟩⟩
      · have closes : (form.literal start started).closesAt 0x5D = true := rfl
        rw [if_pos closes]
        have noRegexp : form.kind ≠ .regexp := by
          cases form <;> decide
        refine Yields.advance_bind (Yields.setLexer_bind (Yields.get_bind ?_))
        simp only [noRegexp, Bool.false_and, Bool.false_eq_true, if_false]
        refine Yields.setLexer_bind (Yields.token_bind ?_)
        refine ⟨⟨_, _, rfl⟩, .close ⟨between.change, rfl, ?_, ?_⟩⟩
        · change (state.input.advance text.length).rest.drop 1 = rest
          rw [left]
          rfl
        · refine sound.advance ?_
          rw [left]
          exact Nat.le_add_left ..
  | @next _ gap word others words space apart isWord more =>
      obtain ⟨sound, left⟩ := passes rfl
      obtain ⟨byte, tail, rfl⟩ := List.exists_cons_of_ne_nil isWord.written
      have inWord := isWord.plain byte List.mem_cons_self
      simp only [Byte.inWord, Bool.and_eq_true, Bool.not_eq_true', bne_iff_ne] at inWord
      obtain ⟨⟨⟨solid, -⟩, -⟩, noClosing⟩ := inWord
      have split : state.input.rest = gap ++ byte :: (tail ++ (others ++ 0x5D :: rest)) := by
        rw [here]
        simp
      refine nextToken_gap ahead.within space solid split (fun begun _ => ?_) fun begun => ?_
      · subst begun
        have row : WordRow false ((byte :: tail) :: words) ([] ++ (byte :: tail ++ others)) :=
          .next (List.forall_mem_nil _) (absurd · Bool.false_ne_true) isWord more
        exact ⟨⟨_, _, rfl⟩, .gap ⟨⟨rfl, between⟩, ⟨_, row, left⟩, sound⟩⟩
      · cases started with
        | true => exact absurd (begun rfl) (apart rfl)
        | false =>
            have opens : (form.literal start false).closesAt byte = false := by
              rw [Quotation.closesAt, beq_false_of_ne noClosing]
              rfl
            have stops := form.stops_of_row start false more rest
            let passed : State := { state with input := state.input.advance gap.length }
            have here : passed.input.rest = (byte :: tail) ++ (others ++ 0x5D :: rest) := by
              rw [left, List.append_assoc]
            have kept : (byte :: tail).length ≤ passed.limits.tokenMax :=
              short _ List.mem_cons_self
            rw [opens]
            refine (literalText_yields (form.reads_word start false isWord.plain _) isWord.written
              stops (by simp) kept here).mono ?_
            rintro _ _ ⟨rfl, rfl⟩
            refine ⟨⟨_, _, rfl⟩, .word isWord ⟨⟨rfl, between⟩, ⟨others, more, ?_⟩, ?_⟩⟩
            · change passed.input.rest.drop (byte :: tail).length = _
              rw [here, List.drop_left]
            · refine sound.advance ?_
              change (byte :: tail).length ≤ passed.input.rest.length
              rw [here, List.length_append]
              exact Nat.le_add_right ..

end Scan

/-! ### Elements -/

namespace Scan

variable {state : State} {form : WordForm} {word : Bytes} {span : Span}

theorem literalShape_word (isWord : word.IsWord) :
    Scan.Succeeds (literalShape form.element [.text word span false] "") state
      fun shape after => (∃ symbols, after = { state with symbols }) ∧ state.Builds 0 after ∧
        ∀ arena id, Arena.Shaped arena id shape → form.Stored arena after.symbols word id := by
  obtain ⟨byte, tail, rfl⟩ := List.exists_cons_of_ne_nil isWord.written
  cases form with
  | strings => exact yields_pure ⟨⟨_, rfl⟩, .refl state, fun _ _ shaped => shaped⟩
  | symbols =>
      refine (intern_yields (byte :: tail)).bind ?_
      rintro symbol _ ⟨-, symbols, rfl, known, named, grows⟩
      refine yields_pure ⟨⟨symbols, rfl⟩, ⟨⟨grows, rfl, rfl, rfl, rfl⟩, rfl⟩, ?_⟩
      intro arena id shaped
      exact ⟨symbol, shaped, known, named⟩

end Scan

namespace Parse

variable {table : RuleTable} {state begun : State} {form : WordForm} {start : Nat}
  {started : Bool} {words : List Bytes} {rest : Bytes}

theorem peekToken_list (unseen : state.lookahead = none)
    (ahead : state.AtWords form start started words rest)
    (short : ∀ word ∈ words, word.length ≤ state.limits.tokenMax) :
    Succeeds table peekToken state fun token after => after.lookahead = some token ∧
      state.Proceeds after ∧ WordToken form start rest started words token.kind after := by
  have read : Scan.Succeeds Scan.nextToken state fun token after =>
      token.kind ≠ .heredocBodies ∧ state.Reading after ∧
        WordToken form start rest started words token.kind after := by
    refine (Scan.listToken_yields ahead short).mono ?_
    rintro ⟨kind, span⟩ after ⟨reading, next⟩
    refine ⟨?_, reading, next⟩
    rintro rfl
    cases next
  refine (peekToken_reads unseen read).mono ?_
  rintro ⟨kind, span⟩ _ ⟨_, ⟨⟨input, lexer, rfl⟩, next⟩, rfl⟩
  exact ⟨rfl, ⟨_, _, _, _, _, rfl⟩, next.alike rfl rfl⟩

/-- A word is the only piece of its element, and the token after it has been seen. -/
theorem literalParts_word {word : Bytes} {span : Span}
    (seen : state.lookahead = some ⟨.content word false, span⟩)
    (ahead : state.AtWords form start true words rest)
    (short : ∀ word ∈ words, word.length ≤ state.limits.tokenMax) :
    Succeeds table literalParts state fun parts after => parts = [.text word span false] ∧
      state.Proceeds after ∧ ∃ token, after.lookahead = some token ∧
        WordToken form start rest true words token.kind after := by
  let taken : State := { state with lookahead := none, previousStop := span.stop }
  have passed : state.Proceeds taken := ⟨_, _, _, _, _, rfl⟩
  refine Yields.bind (repeatUntil_yields (fun parts current =>
      (parts = #[] ∧ current = state) ∨ (parts = #[.text word span false] ∧ current = taken))
    (fun parts after => parts = #[.text word span false] ∧ state.Proceeds after ∧
      ∃ token, after.lookahead = some token ∧
        WordToken form start rest true words token.kind after) (.inl ⟨rfl, rfl⟩) ?_) ?_
  · rintro _ _ (⟨rfl, rfl⟩ | ⟨rfl, rfl⟩)
    · exact Yields.peek_bind seen (Yields.skip_bind seen (yields_pure (.inr ⟨rfl, rfl⟩)))
    · have next : taken.AtWords form start true words rest := ahead.alike rfl rfl
      refine (peekToken_list rfl next short).bind ?_
      rintro ⟨kind, place⟩ after ⟨seen, proceeds, next⟩
      have found := passed.trans proceeds
      cases next with
      | gap ahead => exact yields_pure ⟨rfl, found, _, seen, .gap ahead⟩
      | close ended => exact yields_pure ⟨rfl, found, _, seen, .close ended⟩
  · rintro _ after ⟨rfl, whole⟩
    exact yields_pure ⟨rfl, whole⟩

/-! ### The list -/

structure WordsRead (begun : State) (form : WordForm) (start : Nat) (words : List Bytes)
    (rest : Bytes) (items : Array NodeId) (current : State) : Prop where
  stored : ∃ done left, words = done ++ left ∧
    List.Forall₂ (form.Stored current.arena current.symbols) done items.toList ∧
    begun.Builds done.length current ∧
    ((current.lookahead = none ∧ current.AtWords form start false left rest) ∨
      ∃ token, current.lookahead = some token ∧
        WordToken form start rest true left token.kind current)
  free : current.arena.FreeSound
  unlabelled : current.quotedKey = none

structure WordsEnded (begun : State) (form : WordForm) (words : List Bytes) (rest : Bytes)
    (items : List NodeId) (after : State) : Prop where
  stored : List.Forall₂ (form.Stored after.arena after.symbols) words items
  left : after.Left rest
  unseen : after.lookahead = none
  mode : after.lexer.mode = .operandEnd
  builds : begun.Builds words.length after

theorem peekToken_words {current : State} {left : List Bytes}
    (next : (current.lookahead = none ∧ current.AtWords form start false left rest) ∨
      ∃ token, current.lookahead = some token ∧
        WordToken form start rest true left token.kind current)
    (short : ∀ word ∈ left, word.length ≤ current.limits.tokenMax) :
    Succeeds table peekToken current fun token after => after.lookahead = some token ∧
      current.Proceeds after ∧ ∃ started,
        WordToken form start rest started left token.kind after := by
  rcases next with ⟨unseen, ahead⟩ | ⟨token, seen, next⟩
  · refine (peekToken_list unseen ahead short).mono ?_
    rintro token after ⟨seen, proceeds, next⟩
    exact ⟨seen, proceeds, false, next⟩
  · refine Yields.get_bind ?_
    rw [seen]
    exact yields_pure ⟨seen, .refl current, true, next⟩

theorem words_succeeds (ahead : state.AtWords form start false words rest)
    (unseen : state.lookahead = none) (free : state.arena.FreeSound)
    (unlabelled : state.quotedKey = none)
    (short : ∀ word ∈ words, word.length ≤ state.limits.tokenMax) (room : state.Room words.length) :
    Succeeds table (Parse.words form.element) state fun read after =>
      WordsEnded state form words rest read.1 after := by
  refine Yields.bind (repeatUntil_yields (WordsRead state form start words rest)
    (fun read after => WordsEnded state form words rest read.1.toList after) ?_ ?_) ?_
  · exact ⟨⟨[], words, rfl, .nil, .refl _, .inl ⟨unseen, ahead⟩⟩, free, unlabelled⟩
  · rintro items current ⟨⟨done, left, rfl, stored, builds, next⟩, free, unlabelled⟩
    have kept : ∀ word ∈ left, word.length ≤ current.limits.tokenMax := by
      intro word member
      rw [builds.limits]
      exact short word (List.mem_append_right _ member)
    refine (peekToken_words next kept).bind ?_
    rintro ⟨kind, span⟩ after ⟨seen, proceeds, started, token⟩
    have gained := builds.trans proceeds.builds
    obtain ⟨arena, key⟩ := proceeds.keeps
    have free : after.arena.FreeSound := arena ▸ free
    have unlabelled : after.quotedKey = none := key.trans unlabelled
    have stored := stored.imp fun _ _ stored => stored.kept proceeds.builds.toGains
    cases token with
    | gap ahead =>
        refine Yields.skip_bind seen (yields_pure ⟨⟨done, left, rfl, stored, ?_, ?_⟩, free,
          unlabelled⟩)
        · exact gained.alike rfl rfl rfl rfl rfl
        · exact .inl ⟨rfl, ahead.alike rfl rfl⟩
    | close ended =>
        refine Yields.skip_bind seen (yields_pure ?_)
        rw [List.append_nil]
        exact ⟨stored, ⟨ended.idle, ended.sound, ended.text, free, unlabelled⟩, rfl, ended.mode,
          gained.alike rfl rfl rfl rfl rfl⟩
    | @word word more _ isWord ahead =>
        have others : ∀ word ∈ more, word.length ≤ after.limits.tokenMax := by
          intro word member
          rw [proceeds.builds.limits]
          exact kept word (List.mem_cons_of_mem _ member)
        refine (literalParts_word seen ahead others).bind ?_
        rintro _ read ⟨rfl, passed, following, seen, next⟩
        obtain ⟨arena, key⟩ := passed.keeps
        refine Yields.lift_bind (Scan.literalShape_word isWord) ?_
        rintro shape _ ⟨⟨symbols, rfl⟩, named, fits⟩
        let spelled : State := { read with symbols }
        have free : spelled.arena.FreeSound := arena ▸ free
        have built := (gained.trans passed.builds).trans named
        have space : spelled.Room 1 := by
          refine State.Room.after (room.of_le ?_) built.toGains
          simp only [List.length_append, List.length_cons]
          omega
        refine Yields.spanSince_bind (Yields.lift_bind (Scan.alloc_succeeds free space _ _) ?_)
        intro id final stores
        have gains := (passed.builds.trans named).trans stores.builds
        obtain ⟨⟨arena, rfl⟩, -, shaped, last, sound, -⟩ := stores
        refine yields_pure ⟨⟨done ++ [word], more, ?_, ?_, ?_, ?_⟩, sound, key.trans unlabelled⟩
        · rw [List.append_assoc]
          rfl
        · rw [Array.toList_push]
          refine List.rel_append (stored.imp fun _ _ stored => stored.kept gains.toGains) ?_
          exact .cons (fits _ _ shaped) .nil
        · rw [List.length_append]
          exact built.trans last
        · exact .inr ⟨following, seen, next.alike rfl rfl⟩
  · rintro ⟨items, close⟩ after ended
    exact yields_pure ended

theorem literal_words {span : Span}
    (seen : state.lookahead = some ⟨.literalBegin form.kind, span⟩)
    (ahead : state.AtWords form start false words rest) (free : state.arena.FreeSound)
    (unlabelled : state.quotedKey = none)
    (short : ∀ word ∈ words, word.length ≤ state.limits.tokenMax)
    (room : state.Room (words.length + 1)) :
    Succeeds table (Parse.literal form.kind) state fun id after => ∃ items,
      List.Forall₂ (form.Stored after.arena after.symbols) words items ∧
        OperandStored state (words.length + 1) (form.shape items) rest [] id after := by
  let taken : State := { state with lookahead := none, previousStop := span.stop }
  have passed : state.Builds 0 taken := .of_same rfl rfl rfl rfl rfl
  have next : taken.AtWords form start false words rest := ahead.alike rfl rfl
  have space : taken.Room words.length := State.Room.of_le room (Nat.le_succ _)
  have closes : ∀ items after place, WordsEnded taken form words rest items after →
      Scan.Succeeds (Scan.alloc (form.shape items) place) after fun id after => ∃ items,
        List.Forall₂ (form.Stored after.arena after.symbols) words items ∧
          OperandStored state (words.length + 1) (form.shape items) rest [] id after := by
    intro items after place ended
    have built := passed.trans ended.builds
    rw [Nat.zero_add] at built
    refine (alloc_operand ended.left ended.mode ended.unseen room built _ place).mono ?_
    rintro id after ⟨stored, last⟩
    exact ⟨items, ended.stored.imp fun _ _ word => word.kept last.toGains, stored⟩
  have list : Succeeds table (Parse.words form.element) taken fun read after =>
      WordsEnded taken form words rest read.1 after :=
    words_succeeds next rfl free unlabelled short space
  refine Yields.take_bind seen ?_
  cases form with
  | strings =>
      refine list.bind ?_
      rintro ⟨items, close⟩ after ended
      exact yields_lift (closes items after _ ended)
  | symbols =>
      refine list.bind ?_
      rintro ⟨items, close⟩ after ended
      exact yields_lift (closes items after _ ended)

def WordListRead (before : State) (form : WordForm) (words : List Bytes) (id : NodeId)
    (after : State) : Prop :=
  (∃ items, after.arena.Shaped id (form.shape items) ∧
    List.Forall₂ (form.Stored after.arena after.symbols) words items) ∧
      before.EndSeen (words.length + 1) after

theorem statement_words {span : Span} {depth : Nat}
    (seen : state.lookahead = some ⟨.literalBegin form.kind, span⟩)
    (ahead : state.AtWords form start false words []) (free : state.arena.FreeSound)
    (unlabelled : state.quotedKey = none)
    (short : ∀ word ∈ words, word.length ≤ state.limits.tokenMax)
    (room : state.Room (words.length + 1)) (shallow : state.depth < state.limits.maxDepth) :
    Succeeds (Parse.table depth) statement state
      (Closed (WordListRead state form words)) := by
  let deeper : State := { state with depth := state.depth + 1 }
  have ahead : deeper.AtWords form start false words [] := ahead.alike rfl rfl
  have opened : deeper.lookahead = some ⟨.literalBegin form.kind, span⟩ := seen
  apply statement_of_delimited seen shallow fun _ =>
    literal_words opened ahead free unlabelled short room
  rintro depth id current ⟨items, stored, whole⟩
  refine (peekKind_end whole.left whole.unseen whole.mode).mono ?_
  rintro _ after ⟨span, rfl, seen, same, ended⟩
  have kept := stored.imp fun _ _ word => word.kept ended.builds.toGains
  exact ⟨_, rfl, seen, rfl, ended.unlabelled, ⟨items, same ▸ whole.stored, kept⟩,
    (ended.since whole.builds).shallower⟩

end Parse

/-- A list of words in square brackets gives its words in order, as strings or as symbols. White
space of any kind stands between them, and around them if there is any. The limits need room for
one level of nesting, for the nodes of the words, and for those of the list and the program. -/
theorem parse_word_list (form : WordForm) {words : List Bytes} {text : Bytes}
    (options : ParseOptions) (symbols : SymbolTable) (row : WordRow false words text)
    (short : ∀ word ∈ words, word.length ≤ options.tokenMax) (deep : 0 < options.maxDepth)
    (room : words.length + 2 ≤ options.maxNodes) :
    let parsed := parse (0x25 :: form.letter :: 0x5B :: (text ++ [0x5D])) options symbols
    parsed.Clean ∧ ∃ id items, parsed.statements? = some [id] ∧
      parsed.arena.Shaped id (form.shape items) ∧
      List.Forall₂ (form.Stored parsed.arena parsed.symbols) words items := by
  let source : Bytes := 0x25 :: form.letter :: 0x5B :: (text ++ [0x5D])
  let begun := State.start source options symbols
  let seen : State := { begun.opened 3 (form.literal 0 false) with
    tokens := [⟨.literalBegin form.kind, ⟨0, 3⟩⟩]
    lookahead := some ⟨.literalBegin form.kind, ⟨0, 3⟩⟩ }
  have left : begun.Left source := State.start_left source options symbols
  have isLetter : form.letter.isAlphanumeric = true ∧
      Scan.percentKind? form.letter.char = some (form.kind, false) := by
    cases form <;> decide
  have opens : Scan.Succeeds Scan.nextToken begun fun token after =>
      token = ⟨.literalBegin form.kind, ⟨0, 3⟩⟩ ∧
        after = begun.opened 3 (form.literal 0 false) :=
    Scan.percentMark_yields left.idle rfl isLetter.1 isLetter.2 rfl left.text
  have ahead : seen.AtWords form 0 false words [] := by
    refine ⟨State.opened_within 3 _ left.idle, ⟨text, row, rfl⟩, left.sound.advance ?_⟩
    rw [left.text]
    exact Nat.le_add_left ..
  have space : begun.Room (words.length + 2) := State.start_room room
  have peeks : ∀ table, Parse.Succeeds table Parse.peekKind begun fun kind after => ∃ token,
      kind = token.kind ∧ kind.opensOperand = true ∧ after.lookahead = some token ∧
        after = seen :=
    fun _ => Parse.peekKind_opener rfl opens
  have yields : ∀ depth token current, current.lookahead = some token →
      token.kind.opensOperand = true → current = seen →
      Parse.Succeeds (Parse.table depth) Parse.statement current (Closed fun id after =>
        (∃ items, after.arena.Shaped id (form.shape items) ∧
          List.Forall₂ (form.Stored after.arena after.symbols) words items) ∧
        begun.EndSeen (words.length + 1) after) := by
    rintro depth _ _ - - rfl
    have passed : begun.Builds 0 seen := .of_same rfl rfl rfl rfl rfl
    refine (Parse.statement_words rfl ahead left.free rfl short (space.of_le (Nat.le_succ _))
      deep).mono ?_
    rintro id after ⟨⟨whole, ended⟩, unlabelled, closes⟩
    have since := ended.since passed
    rw [Nat.zero_add] at since
    exact ⟨⟨whole, since⟩, unlabelled, closes⟩
  obtain ⟨fatal, quiet, id, state, after, ⟨items, shaped, stored⟩, builds, only, arena, names⟩ :=
    parse_statement peeks yields space fun id after ⟨items, shaped, _⟩ =>
      ⟨_, shaped, by cases form <;> nofun⟩
  refine ⟨.of_quiet fatal quiet, id, items, only, arena ▸ builds.shaped shaped, ?_⟩
  rw [arena, names]
  exact stored.imp fun _ _ word => word.kept builds.toGains

/-- Two symbols with white space of all kinds around them and between them. -/
theorem parse_word_list_symbols :
    let words : List Bytes := [ascii "a+", ascii "#b"]
    let text : Bytes := [0x20, 0x0A] ++ (ascii "a+" ++ ([0x09, 0x0B, 0x0D, 0x0C] ++ ascii "#b"))
    let options : ParseOptions := { maxNodes := 4 }
    WordRow false words text ∧ (∀ word ∈ words, word.length ≤ options.tokenMax) ∧
      0 < options.maxDepth ∧ words.length + 2 ≤ options.maxNodes ∧
      let parsed := parse (0x25 :: 0x69 :: 0x5B :: (text ++ [0x5D])) options {}
      parsed.Clean ∧ ∃ id items, parsed.statements? = some [id] ∧
        parsed.arena.Shaped id (.list .symbols items) ∧
        List.Forall₂ (WordForm.Stored .symbols parsed.arena parsed.symbols) words items := by
  intro words text options
  have first : Bytes.IsWord (ascii "a+") := ⟨by decide, List.all_eq_true.mp rfl⟩
  have second : Bytes.IsWord (ascii "#b") := ⟨by decide, List.all_eq_true.mp rfl⟩
  have row : WordRow false words text := by
    refine .next (List.all_eq_true.mp rfl) nofun first ?_
    exact .next (List.all_eq_true.mp rfl) (by decide) second (.done nofun)
  have short : ∀ word ∈ words, word.length ≤ options.tokenMax := by
    simp only [words, List.forall_mem_cons]
    exact ⟨by decide, by decide, nofun⟩
  exact ⟨row, short, by decide, by decide,
    parse_word_list .symbols options {} row short (by decide) (by decide)⟩

end RubySyntax
