/-
Heredocs whose text is taken as it stands, and the lines that open them.

A line is a row of lexemes. Each is read in certain modes, before certain bytes, and
leaves the lexer in certain modes; openers add to the heredocs that wait for their
bodies, parentheses open and close.
-/

import RubySyntax.Proofs.Heredoc.Margin
import RubySyntax.Proofs.Reading.Step

namespace RubySyntax

/-! ### Heredocs as they are written -/

/-- Whether a line closes a heredoc: it is the delimiter, with a carriage return at most
after it, and with blanks before it if the heredoc may be indented. -/
def RawHeredoc.closes (delimiter : Bytes) (dedented : Bool) (line : Bytes) : Bool :=
  let text := if dedented then line.dropWhile Margin.isBlank else line
  text == delimiter || text == delimiter ++ [0x0D]

structure RawHeredoc where
  delimiter : Bytes
  dedented : Bool := false
  lines : List Bytes
  quotable : ∀ byte ∈ delimiter, byte ≠ 0x27 ∧ byte ≠ 0x0A
  whole : ∀ line ∈ lines, 0x0A ∉ line
  inner : ∀ line ∈ lines, RawHeredoc.closes delimiter dedented line = false
  /-- The delimiter alone closes it: it does not start with blanks that are passed over. -/
  reached : RawHeredoc.closes delimiter dedented delimiter = true

namespace RawHeredoc

def opener (heredoc : RawHeredoc) : Bytes :=
  ascii (if heredoc.dedented then "<<~'" else "<<'") ++ heredoc.delimiter ++ ascii "'"

def body (heredoc : RawHeredoc) : Bytes :=
  heredoc.lines.flatMap (· ++ [0x0A]) ++ heredoc.delimiter ++ [0x0A]

def value (heredoc : RawHeredoc) : Bytes :=
  (if heredoc.dedented then Margin.stripAll heredoc.lines else heredoc.lines).flatMap
    (· ++ [0x0A])

def opened (heredoc : RawHeredoc) (start : Nat) : Heredoc where
  delimiter := heredoc.delimiter
  indented := heredoc.dedented
  dedented := heredoc.dedented
  quote := some '\''
  start := start

def mark (heredoc : RawHeredoc) : Bytes :=
  if heredoc.dedented then [0x7E] else []

theorem opener_eq (heredoc : RawHeredoc) :
    heredoc.opener =
      0x3C :: 0x3C :: (heredoc.mark ++ 0x27 :: (heredoc.delimiter ++ [0x27])) := by
  have squiggly : ascii "<<~'" = [0x3C, 0x3C, 0x7E, 0x27] := by decide
  have plain : ascii "<<'" = [0x3C, 0x3C, 0x27] := by decide
  have quote : ascii "'" = [0x27] := by decide
  unfold opener mark
  cases heredoc.dedented with
  | true => simp [squiggly, quote]
  | false => simp [plain, quote]

theorem read_opener (heredoc : RawHeredoc) (more : Bytes) :
    HeredocOpening.read (heredoc.mark ++ 0x27 :: (heredoc.delimiter ++ 0x27 :: more)) =
      .opened heredoc.delimiter heredoc.dedented heredoc.dedented (some '\'')
        (heredoc.mark.length + heredoc.delimiter.length + 2) := by
  have inside : ∀ byte ∈ heredoc.delimiter,
      (byte.char != '\n' && byte != 0x27) = true := by
    intro byte member
    obtain ⟨quote, line⟩ := heredoc.quotable byte member
    have other : byte.char ≠ (0x0A : Byte).char := fun same => line (Byte.char_injective same)
    simp only [Bool.and_eq_true, bne_iff_ne]
    exact ⟨other, quote⟩
  have taken : (heredoc.delimiter ++ 0x27 :: more).takeWhile
      (fun byte => byte.char != '\n' && byte != 0x27) = heredoc.delimiter := by
    rw [List.takeWhile_append_of_pos inside]
    simp
  have closed : (heredoc.delimiter ++ 0x27 :: more)[heredoc.delimiter.length]? = some 0x27 := by
    rw [List.getElem?_append_right (Nat.le_refl _), Nat.sub_self]
    rfl
  unfold mark
  cases heredoc.dedented with
  | true =>
      change (if _ == some 0x27 then _ else _) = _
      rw [taken, closed]
      rfl
  | false =>
      change (if _ == some 0x27 then _ else _) = _
      rw [taken, closed]
      rfl

theorem opener_length (heredoc : RawHeredoc) :
    heredoc.opener.length = 2 + (heredoc.mark.length + heredoc.delimiter.length + 2) := by
  rw [opener_eq]
  simp only [List.length_cons, List.length_append, List.length_nil]
  omega

end RawHeredoc

/-- The line of the openers has ended: the bodies of the heredocs that wait come next, and
after them a statement starts. -/
structure LexerState.Due (lexer : LexerState) (waiting : List PendingHeredoc) : Prop where
  due : lexer.heredocsDue = true
  starts : lexer.statementStart = true
  between : LexerState.Between { lexer with heredocsDue := false } 0 waiting

/-! ### The tokens of a line -/

namespace Scan

variable {state : State} {nesting constructs : Nat} {waiting : List PendingHeredoc}
  {excused : Fatal → State → Prop}

theorem openerToken_yields {heredoc : RawHeredoc} {blank more : Bytes}
    (between : state.lexer.Between nesting waiting) (blanks : blank = [] ∨ blank = [0x20])
    (mode : state.lexer.mode = .begin)
    (text : state.input.rest = blank ++ heredoc.opener ++ more) :
    Yields nextToken state (fun token after => token.kind = .heredocBegin ∧ ∃ start,
      state.TextRead (blank ++ heredoc.opener) after nesting
        (waiting ++ [{ heredoc := heredoc.opened start }]) ∧
      after.lexer.mode = .operandEnd) excused := by
  have start : state.input.rest = blank ++
      0x3C :: (0x3C :: (heredoc.mark ++ 0x27 :: (heredoc.delimiter ++ 0x27 :: more))) := by
    rw [text, heredoc.opener_eq]
    simp
  have here : (state.input.advance blank.length).rest =
      0x3C :: (0x3C :: (heredoc.mark ++ 0x27 :: (heredoc.delimiter ++ 0x27 :: more))) := by
    rw [Input.advance, start, List.drop_left]
  refine nextToken_yields between (tokenTurn_yields between.change blanks rfl start
    (tokenHere_mark_yields here rfl rfl rfl rfl (Yields.get_bind ?_)))
  have second : ((state.input.advance blank.length).peekAt 1 == '<') = true := by
    rw [Input.peekAt, here]
    rfl
  have opens : ∀ blank, Mode.allowsHeredoc .begin blank = true := fun _ => rfl
  simp only [second, mode, opens, Bool.and_self, if_true]
  refine Yields.bind (Yields.get_bind ?_ : Yields heredocOpener? _ (fun token? after =>
    ∃ token, token? = some token ∧ token.kind = .heredocBegin ∧ ∃ start,
      state.TextRead (blank ++ heredoc.opener) after nesting
        (waiting ++ [{ heredoc := heredoc.opened start }]) ∧
      after.lexer.mode = .operandEnd) excused) ?_
  · simp only [here, List.drop_succ_cons, List.drop_zero, heredoc.read_opener]
    refine Yields.advance_bind (Yields.position_bind (Yields.checkRange_bind ?_))
    refine Yields.setLexer_bind (Yields.token_bind (yields_pure ?_))
    refine ⟨_, rfl, rfl, (state.input.advance blank.length).position, .of_advance ?_ ?_, rfl⟩
    · rw [Input.advance_advance, List.length_append, heredoc.opener_length]
    · exact ⟨between.literal, by rw [between.heredocs]; rfl, between.due, between.contexts,
        between.brackets, between.constructs, between.running, between.unmarked⟩
  · rintro _ after ⟨token, rfl, holds⟩
    exact yields_pure holds

theorem lineEndToken_yields {more : Bytes} (between : state.lexer.Between 0 waiting)
    (opened : waiting ≠ []) (mode : state.lexer.mode.foldsNewline = false)
    (text : state.input.rest = 0x0A :: more) :
    Yields nextToken state (fun token after => token.kind = .newline ∧ ∃ lexer,
      after = { state with input := state.input.advance 1, lexer } ∧
        lexer.Due waiting) excused := by
  refine nextToken_yields between (Yields.get_bind ?_)
  have space : Space.length state.input.rest = 0 := by
    rw [text]
    rfl
  have here : (state.input.advance 0).rest = 0x0A :: more := text
  have byte : isEndMark (state.input.advance 0).peekByte = false := by
    rw [Input.peekByte, here]
    rfl
  have peek : ((state.input.advance 0).peek == '\n') = true := by
    rw [Input.peek, here]
    rfl
  have queued : state.lexer.heredocs.isEmpty = false := by
    rw [between.heredocs, List.isEmpty_eq_false_iff]
    exact opened
  dsimp only
  rw [space]
  refine Yields.advance_bind (Yields.get_bind ?_)
  simp only [between.running, byte, peek, Bool.false_eq_true, if_false, if_true]
  refine Yields.get_bind (Yields.advance_bind ?_)
  simp only [queued, mode, Bool.not_false, Bool.false_eq_true, if_false, if_true]
  refine Yields.setLexer_bind (Yields.bind (Yields.setLexer_bind (Yields.position_bind
    (yields_pure ?_))) fun token after holds => yields_pure ⟨token, rfl, holds⟩)
  refine ⟨rfl, _, by rw [Input.advance_advance], ?_⟩
  exact ⟨rfl, rfl, between.literal, between.heredocs, rfl, between.contexts, between.brackets,
    between.constructs, rfl, between.unmarked⟩

end Scan

/-! ### Lexemes -/

inductive Lexeme where
  | name (word : VariableName)
  | assign
  | callParen
  | comma
  | closeParen
  | opener (blank : Bool) (heredoc : RawHeredoc)

namespace Lexeme

def text : Lexeme → Bytes
  | .name word => word.text
  | .assign => [0x20, 0x3D]
  | .callParen => [0x28]
  | .comma => [0x2C]
  | .closeParen => [0x29]
  | .opener blank heredoc => (if blank then [0x20] else []) ++ heredoc.opener

def Announces (spells : Symbol → Bytes → Prop) : Lexeme → TokenKind → Prop
  | .name word, kind => ∃ symbol, kind = .identifier symbol ∧ spells symbol word.text
  | .assign, kind => kind = .punct .assign
  | .callParen, kind => kind = .punct .callParen
  | .comma, kind => kind = .punct .comma
  | .closeParen, kind => kind = .punct .rightParen
  | .opener .., kind => kind = .heredocBegin

def Suits (mode : Mode) (following : Bytes) : Lexeme → Prop
  | .name _ => mode = .begin ∧ ∃ stop more, following = stop :: more ∧ stop.endsName = true
  | .assign => mode.namesMethod = false ∧ ∃ more, following = 0x20 :: more
  | .callParen => mode.isBegin = false
  | .comma => True
  | .closeParen => True
  | .opener .. => mode = .begin

def Leaves : Lexeme → Mode → Prop
  | .name _, mode => mode.isBegin = false ∧ mode.namesMethod = false
  | .closeParen, mode => mode = .nameEnd
  | .opener .., mode => mode = .operandEnd
  | _, mode => mode = .begin

def nests (nesting : Nat) : Lexeme → Nat
  | .callParen => nesting + 1
  | .closeParen => nesting - 1
  | _ => nesting

def queues (start : Nat) : Lexeme → List PendingHeredoc
  | .opener _ heredoc => [{ heredoc := heredoc.opened start }]
  | _ => []

def Short (tokenMax : Nat) : Lexeme → Prop
  | .name word => word.text.length ≤ tokenMax
  | _ => True

def textOf (lexemes : List Lexeme) : Bytes :=
  lexemes.flatMap text

/-- Whether lexemes are read as they should be, one after the other, and the line can end
after them. -/
def Fits (tokenMax : Nat) (tail : Bytes) : List Lexeme → Mode → Prop
  | [], mode => mode.foldsNewline = false
  | first :: more, mode =>
      first.Suits mode (textOf more ++ tail) ∧ first.Short tokenMax ∧
        ∀ next, first.Leaves next → Fits tokenMax tail more next

theorem ne_heredocBodies {lexeme : Lexeme} {spells : Symbol → Bytes → Prop} {kind : TokenKind}
    (announced : lexeme.Announces spells kind) : kind ≠ .heredocBodies := by
  rintro rfl
  cases lexeme with
  | name word =>
      obtain ⟨symbol, same, -⟩ := announced
      cases same
  | _ => cases announced

end Lexeme

structure LexemeRead (lexeme : Lexeme) (before : State) (nesting : Nat)
    (waiting : List PendingHeredoc) (token : Token) (after : State) : Prop where
  kind : lexeme.Announces
    (fun symbol name => after.symbols.Spells symbol (name.take before.limits.tokenMax)) token.kind
  others : ∃ input lexer symbols, after = { before with input, lexer, symbols }
  input : after.input = before.input.advance lexeme.text.length
  between : ∃ start, after.lexer.Between (lexeme.nests nesting) (waiting ++ lexeme.queues start)
  mode : lexeme.Leaves after.lexer.mode
  grows : before.Grows 0 after

namespace Scan

variable {state : State} {nesting : Nat} {waiting : List PendingHeredoc}
  {excused : Fatal → State → Prop}

theorem lexemeToken_yields {lexeme : Lexeme} {following : Bytes}
    (between : state.lexer.Between nesting waiting) (sound : state.input.Sound)
    (text : state.input.rest = lexeme.text ++ following)
    (suits : lexeme.Suits state.lexer.mode following) (short : lexeme.Short state.limits.tokenMax) :
    Yields nextToken state (LexemeRead lexeme state nesting waiting) excused := by
  have mark {token : Token} {after : State} {queue : List PendingHeredoc} (start : Nat)
      (queued : waiting ++ lexeme.queues start = queue)
      (kind : lexeme.Announces (fun symbol name =>
        after.symbols.Spells symbol (name.take state.limits.tokenMax)) token.kind)
      (read : state.TextRead lexeme.text after (lexeme.nests nesting) queue)
      (mode : lexeme.Leaves after.lexer.mode) :
      LexemeRead lexeme state nesting waiting token after := by
    obtain ⟨⟨input, lexer, rfl⟩, moved, between⟩ := read
    exact ⟨kind, ⟨input, lexer, _, rfl⟩, moved, ⟨start, queued ▸ between⟩, mode,
      ⟨fun _ _ found => found, fun _ known => ⟨known, rfl⟩, rfl⟩⟩
  have still : waiting ++ [] = waiting := List.append_nil waiting
  cases lexeme with
  | name word =>
      obtain ⟨begins, stop, more, rfl, stops⟩ := suits
      refine (variableToken_yields between sound begins text stops).mono ?_
      rintro token after ⟨named, read, operand, callable⟩
      obtain ⟨⟨input, lexer, report, symbols, rfl⟩, moved, between, grows, quiet⟩ := read
      obtain rfl : report = state.report := quiet short
      exact ⟨named, ⟨input, lexer, symbols, rfl⟩, moved, ⟨0, still.symm ▸ between⟩,
        ⟨operand, callable⟩, grows⟩
  | assign =>
      obtain ⟨callable, more, rfl⟩ := suits
      refine (assignToken_yields between callable text).mono ?_
      rintro token after ⟨kind, read, -, mode⟩
      exact mark 0 still kind read mode
  | callParen =>
      refine (callParenToken_yields between suits text).mono ?_
      rintro token after ⟨kind, read, -, mode⟩
      exact mark 0 still kind read mode
  | comma =>
      refine (commaToken_yields between text).mono ?_
      rintro token after ⟨kind, read, -, mode⟩
      exact mark 0 still kind read mode
  | closeParen =>
      refine (closeParenToken_yields between text).mono ?_
      rintro token after ⟨kind, read, mode⟩
      exact mark 0 still kind read mode
  | opener blank heredoc =>
      have blanks : (if blank then [0x20] else [] : Bytes) = [] ∨
          (if blank then [0x20] else [] : Bytes) = [0x20] := by
        cases blank
        · exact .inl rfl
        · exact .inr rfl
      refine (openerToken_yields between blanks suits text).mono ?_
      rintro token after ⟨kind, start, read, mode⟩
      exact mark start rfl kind read mode

end Scan

end RubySyntax
