/-
Programs as rows of words.

A word is one token with the blank before it. Where it stands decides how it is read, and
what place the next word has is known from the word alone: variables that are known change
the mode after a name, but not what can come next.
-/

import RubySyntax.Proofs.Interning
import RubySyntax.Proofs.Reading.Token

namespace RubySyntax

/-! ### Places -/

inductive Place where
  | statement
  | operand
  | definition
  | after
deriving DecidableEq

def Place.Holds (lexer : LexerState) : Place → Prop
  | .statement => lexer.mode = .begin ∧ lexer.statementStart = true
  | .operand => lexer.mode = .begin ∧ lexer.statementStart = false
  | .definition => lexer.mode = .methodName
  | .after => lexer.mode.isBegin = false ∧ lexer.mode.namesMethod = false

namespace Place

variable {place : Place} {lexer : LexerState}

theorem Holds.begin (holds : place.Holds lexer) (starts : place = .statement ∨ place = .operand) :
    lexer.mode = .begin := by
  rcases starts with rfl | rfl <;> exact holds.1

theorem Holds.not_dot (holds : place.Holds lexer) : lexer.mode ≠ .dot := by
  intro same
  cases place <;> rw [Holds, same] at holds <;> simp [Mode.namesMethod] at holds

theorem foldsNewline_of_after (holds : Place.after.Holds lexer) :
    lexer.mode.foldsNewline = false := by
  obtain ⟨begins, names⟩ := holds
  cases same : lexer.mode <;> rw [same] at begins names <;>
    first | rfl | exact absurd begins (by decide) | exact absurd names (by decide)

theorem after_name (holds : place.Holds lexer) (starts : place ≠ .after) (known : Bool) :
    let mode := if known then Mode.operandEnd
      else Scan.modeAfterName lexer.mode lexer.statementStart
    mode.isBegin = false ∧ mode.namesMethod = false := by
  cases known with
  | true => exact ⟨rfl, rfl⟩
  | false =>
      have call (starts : Bool) : (Mode.afterCallName starts).isBegin = false ∧
          (Mode.afterCallName starts).namesMethod = false := by
        cases starts <;> exact ⟨rfl, rfl⟩
      cases place with
      | statement =>
          rw [holds.1]
          exact call _
      | operand =>
          rw [holds.1]
          exact call _
      | definition =>
          rw [Holds] at holds
          rw [holds]
          exact ⟨rfl, rfl⟩
      | after => exact absurd rfl starts

end Place

/-! ### Words -/

inductive GatherMark where
  | star
  | doubleStar
  | ampersand
deriving DecidableEq

namespace GatherMark

def text : GatherMark → Bytes
  | .star => ascii "*"
  | .doubleStar => ascii "**"
  | .ampersand => ascii "&"

def kind : GatherMark → Punct
  | .star => .splatStar
  | .doubleStar => .splatPower
  | .ampersand => .blockAmpersand

end GatherMark

inductive Word where
  | name (blank : Bool) (called : VariableName)
  | label (blank : Bool) (called : VariableName)
  | gather (blank : Bool) (mark : GatherMark)
  | number (value : Nat)
  | assign
  | comma
  | openParen
  | closeParen
  | lineFeed
  | defWord
  | endWord
deriving DecidableEq

namespace Word

def blanks (blank : Bool) : Bytes :=
  if blank then [0x20] else []

theorem blanks_cases (blank : Bool) : blanks blank = [] ∨ blanks blank = [0x20] := by
  cases blank
  · exact .inl rfl
  · exact .inr rfl

def text : Word → Bytes
  | .name blank called => blanks blank ++ called.text
  | .label blank called => blanks blank ++ called.text ++ [0x3A]
  | .gather blank mark => blanks blank ++ mark.text
  | .number value => 0x20 :: decimal value
  | .assign => [0x20, 0x3D]
  | .comma => [0x2C]
  | .openParen => [0x28]
  | .closeParen => [0x29]
  | .lineFeed => [0x0A]
  | .defWord => ascii "def"
  | .endWord => ascii "end"

def Announces (state : State) (token : Token) : Word → Prop
  | .name _ called => ∃ symbol, token.kind = .identifier symbol ∧
      state.symbols.Spells symbol called.text ∧ state.input.slice token.span = called.text ∧
      state.symbols.find? called.text = some symbol
  | .label _ called => ∃ symbol, token.kind = .label symbol ∧
      state.symbols.Spells symbol called.text
  | .gather _ mark => token.kind = .punct mark.kind
  | .number value => token.kind = .integer value
  | .assign => token.kind = .punct .assign
  | .comma => token.kind = .punct .comma
  | .openParen => token.kind = .punct .callParen
  | .closeParen => token.kind = .punct .rightParen
  | .lineFeed => token.kind = .newline
  | .defWord => token.kind = .keyword .defWord
  | .endWord => token.kind = .keyword .endWord

def Suits (place : Place) (following : Bytes) : Word → Prop
  | .name .. => place ≠ .after ∧ ∃ stop more, following = stop :: more ∧ stop.endsName = true
  | .label .. => place = .operand ∧ ((following.headD 0).char == ':') = false
  | .gather .. => (place = .statement ∨ place = .operand) ∧
      ∃ first more, following = first :: more ∧ first.isNameStart = true
  | .number _ => Ended following
  | .assign => place = .after ∧ ∃ more, following = 0x20 :: more
  | .openParen => place = .after
  | .lineFeed => place = .after ∧ Space.continuation? following = none
  | .defWord => place = .statement ∧ ∃ more, following = 0x20 :: more
  | .endWord => place = .statement ∧ following = []
  | _ => True

def leaves : Word → Place
  | .name .. => .after
  | .number _ => .after
  | .closeParen => .after
  | .endWord => .after
  | .lineFeed => .statement
  | .defWord => .definition
  | _ => .operand

def nests (nesting : Nat) : Word → Nat
  | .openParen => nesting + 1
  | .closeParen => nesting - 1
  | _ => nesting

def Short (tokenMax : Nat) : Word → Prop
  | .name _ called => called.text.length ≤ tokenMax
  | .label _ called => called.text.length ≤ tokenMax
  | _ => True

def textOf (words : List Word) : Bytes :=
  words.flatMap text

@[simp]
theorem textOf_nil : textOf [] = [] :=
  rfl

@[simp]
theorem textOf_cons (word : Word) (words : List Word) :
    textOf (word :: words) = word.text ++ textOf words :=
  List.flatMap_cons

@[simp]
theorem textOf_append (words more : List Word) :
    textOf (words ++ more) = textOf words ++ textOf more :=
  List.flatMap_append

/-- Whether words are read as they should be, one after the other, and the program can end
after them. -/
def Fits (tokenMax : Nat) : Place → Nat → List Word → Prop
  | place, nesting, [] => (place = .statement ∨ place = .after) ∧ nesting = 0
  | place, nesting, word :: more => word.Suits place (textOf more) ∧ word.Short tokenMax ∧
      Fits tokenMax word.leaves (word.nests nesting) more

/-- A name gathers values where a statement or an operand starts. -/
theorem gather_fit {tokenMax nesting : Nat} {place : Place} {words : List Word}
    {called : VariableName} (blank : Bool) (mark : GatherMark)
    (starts : place = .statement ∨ place = .operand)
    (later : Fits tokenMax .operand nesting (.name false called :: words)) :
    Fits tokenMax place nesting (.gather blank mark :: .name false called :: words) := by
  obtain ⟨first, rest, written, begins, -⟩ := called.first
  refine ⟨⟨starts, first, rest ++ textOf words, ?_, begins⟩, trivial, later⟩
  rw [textOf_cons, text, written]
  rfl

/-- The words of some items with commas between them, the first one perhaps after a blank. -/
def commaList {α : Type} (words : Bool → α → List Word) (blank : Bool) : List α → List Word
  | [] => []
  | item :: more => words blank item ++ more.flatMap fun other => .comma :: words true other

section

variable {α : Type} {words : Bool → α → List Word} {tokenMax nesting : Nat}

theorem commaList_cons_cons (blank : Bool) (item other : α) (more : List α) :
    commaList words blank (item :: other :: more) =
      words blank item ++ .comma :: commaList words true (other :: more) :=
  rfl

theorem textOf_commaList {text : α → Bytes}
    (spells : ∀ blank item, textOf (words blank item) = blanks blank ++ text item) (blank : Bool)
    (item : α) (more : List α) : textOf (commaList words blank (item :: more)) =
      blanks blank ++ (ascii ", ").intercalate ((item :: more).map text) := by
  induction more generalizing blank item with
  | nil => simp [commaList, spells]
  | cons other more ih =>
      rw [commaList_cons_cons, textOf_append, textOf_cons, ih, spells]
      simp only [List.map_cons, List.intercalate_cons_cons, List.append_assoc]
      rfl

theorem commaList_fit {last : Word} {rest : List Word} (blank : Bool) (first : α) (more : List α)
    (ends : Fits tokenMax last.leaves (last.nests nesting) rest)
    (one : ∀ blank, ∀ item ∈ first :: more, ∀ next others,
      next = .comma ∨ next = last ∧ others = rest →
      Fits tokenMax next.leaves (next.nests nesting) others →
      Fits tokenMax .operand nesting (words blank item ++ next :: others)) :
    Fits tokenMax .operand nesting (commaList words blank (first :: more) ++ last :: rest) := by
  induction more generalizing blank first with
  | nil =>
      rw [commaList, List.flatMap_nil, List.append_nil]
      exact one blank first List.mem_cons_self last rest (.inr ⟨rfl, rfl⟩) ends
  | cons other more ih =>
      rw [commaList_cons_cons, List.append_assoc]
      exact one blank first List.mem_cons_self .comma _ (.inl rfl)
        (ih true other fun blank item member => one blank item (List.mem_cons_of_mem _ member))

end

theorem ne_heredocBodies {word : Word} {state : State} {token : Token}
    (announced : word.Announces state token) : token.kind ≠ .heredocBodies := by
  intro same
  cases word with
  | name blank called =>
      obtain ⟨symbol, kind, -⟩ := announced
      rw [same] at kind
      cases kind
  | label blank called =>
      obtain ⟨symbol, kind, -⟩ := announced
      rw [same] at kind
      cases kind
  | _ =>
      rw [Announces, same] at announced
      cases announced

end Word

structure WordRead (word : Word) (before : State) (nesting constructs : Nat) (token : Token)
    (after : State) : Prop where
  kind : word.Announces after token
  others : ∃ input lexer symbols, after = { before with input, lexer, symbols }
  input : after.input = before.input.advance word.text.length
  between : after.lexer.Between (word.nests nesting) [] [] constructs
  place : word.leaves.Holds after.lexer
  grows : before.Grows 0 after

theorem VariableName.last_ne (name : VariableName) :
    (name.text.getLast?.map Byte.char != some '=') = true := by
  have noSign : ∀ byte : Byte, byte.isNamePart = true → byte.char ≠ '=' :=
    Byte.forall_of_lt (by decide +kernel)
  rw [bne_iff_ne]
  intro same
  obtain ⟨byte, last, sign⟩ := Option.map_eq_some_iff.mp same
  exact noSign byte (name.ascii byte (List.mem_of_getLast? last)).1 sign

namespace Scan

variable {state : State} {nesting constructs : Nat} {excused : Fatal → State → Prop}

/-- A name before a colon is a label where an operand starts in the middle of a statement. -/
theorem labelToken_yields {word : VariableName} {more : Bytes} (blank : Bytes)
    (between : state.lexer.Between nesting [] [] constructs) (sound : state.input.Sound)
    (blanks : blank = [] ∨ blank = [0x20]) (place : Place.operand.Holds state.lexer)
    (short : word.text.length ≤ state.limits.tokenMax)
    (text : state.input.rest = blank ++ (word.text ++ 0x3A :: more))
    (single : ((more.headD 0).char == ':') = false) :
    Yields nextToken state (fun token after =>
      (∃ symbol, token.kind = .label symbol ∧ after.symbols.Spells symbol word.text) ∧
      (∃ input lexer symbols, after = { state with input, lexer, symbols }) ∧
      after.input = state.input.advance (blank ++ word.text ++ [0x3A]).length ∧
      after.lexer.Between nesting [] [] constructs ∧ Place.operand.Holds after.lexer ∧
      state.Grows 0 after) excused := by
  obtain ⟨first, rest, written, starts, small⟩ := word.first
  have low : first < 0x80 := (word.ascii first (written ▸ List.mem_cons_self)).2
  obtain ⟨solid, notEquals, -⟩ := Byte.startsToken_of_isNameStart first starts low
  have here : state.input.rest = blank ++ first :: (rest ++ 0x3A :: more) := by
    rw [text, written]
    rfl
  have left : (state.input.advance blank.length).rest = word.text ++ 0x3A :: more := by
    rw [Input.advance, text, List.drop_left]
  have passed : (state.input.advance blank.length).Sound := by
    refine sound.advance ?_
    rw [text, List.length_append]
    exact Nat.le_add_right ..
  have length : Utf8.nameLength (word.text ++ 0x3A :: more) = word.text.length :=
    Utf8.nameLength_before rfl word.ascii
  have noSuffix (mode : Mode) : suffixLength mode (0x3A :: more) = 0 := rfl
  have after : ((state.input.advance blank.length).advance word.text.length).rest =
      0x3A :: more := by
    rw [Input.advance, left, List.drop_left]
  have colon : (((state.input.advance blank.length).advance word.text.length).peek == ':') =
      true := by
    rw [Input.peek, after]
    rfl
  have alone : (((state.input.advance blank.length).advance word.text.length).peekAt 1 != ':') =
      true := by
    rw [Input.peekAt, after, bne, Bool.not_eq_true']
    cases more <;> exact single
  have whole : word.text.take state.limits.tokenMax = word.text := List.take_of_length_le short
  refine letterToken_yields between blanks solid notEquals starts low here (Yields.get_bind ?_)
  simp only [left, length, List.drop_left, noSuffix, Nat.add_zero, List.take_left, place.1,
    place.2, colon, alone, word.last_ne, Mode.allowsLabel, beq_self_eq_true, Bool.not_false,
    Bool.and_self, Bool.true_or, if_true]
  refine Yields.set_bind (Yields.checkRange_bind (Yields.checkRange_bind ?_))
  refine (internFrom_yields (passed.slice_text left)).bind ?_
  rintro symbol _ ⟨-, ⟨report, symbols, rfl⟩, grows, spelled, quiet⟩
  rw [whole] at spelled
  obtain rfl : report = state.report := quiet short
  refine Yields.advance_bind (Yields.setLexer_bind (Yields.position_bind (yields_pure ?_)))
  refine ⟨⟨symbol, rfl, spelled⟩, ⟨_, _, symbols, rfl⟩, ?_, between.change, ⟨rfl, rfl⟩,
    grows.nodes, grows.names, grows.errors⟩
  simp only [Input.advance_advance, List.length_append, List.length_cons, List.length_nil]

theorem gatherToken_yields {mark : GatherMark} {first : Byte} {more : Bytes} (blank : Bytes)
    (between : state.lexer.Between nesting [] [] constructs)
    (blanks : blank = [] ∨ blank = [0x20]) (mode : state.lexer.mode = .begin)
    (starts : first.isNameStart = true)
    (text : state.input.rest = blank ++ (mark.text ++ first :: more)) :
    Yields nextToken state (fun token after => token.kind = .punct mark.kind ∧
      state.TextRead (blank ++ mark.text) after nesting [] constructs ∧
        after.lexer.statementStart = false ∧ after.lexer.mode = .begin) excused := by
  have others : ∀ byte : Byte, byte.isNameStart = true → (byte.char == '*') = false ∧
      (byte.char == '=') = false ∧ byte.char ≠ '&' ∧ byte.char ≠ '=' ∧ byte.char ≠ '.' :=
    Byte.forall_of_lt (by decide +kernel)
  obtain ⟨noStar, noSign, noAmpersand, noAssign, noDot⟩ := others first starts
  cases mark with
  | star =>
      refine plainMark_yields blank [] between blanks rfl rfl rfl rfl (fun before same => ?_)
        (fun _ => rfl) text
      change some (OperatorReading.star before.mode before.blank (first :: more)) = _
      rw [same, mode, OperatorReading.star, OperatorReading.head, List.headD_cons, noStar, noSign]
      rfl
  | doubleStar =>
      refine plainMark_yields blank [0x2A] between blanks rfl rfl rfl rfl (fun before same => ?_)
        (fun _ => rfl) text
      change some (OperatorReading.star before.mode before.blank (0x2A :: first :: more)) = _
      rw [same, mode, OperatorReading.star]
      simp only [OperatorReading.head, List.headD_cons, List.drop_succ_cons, List.drop_zero, noSign]
      rfl
  | ampersand =>
      refine plainMark_yields blank [] between blanks rfl rfl rfl rfl (fun before same => ?_)
        (fun _ => rfl) text
      change some (OperatorReading.ampersand before.mode before.blank (first :: more)) = _
      rw [same, mode, OperatorReading.ampersand, OperatorReading.head, List.headD_cons]
      split
      · next same => exact absurd same noAmpersand
      · next same => exact absurd same noAssign
      · next same => exact absurd same noDot
      · rfl

theorem keywordToken_yields {more : Bytes} (word : Keyword) (first : Byte) (rest : Bytes)
    (between : state.lexer.Between nesting [] [] constructs)
    (place : Place.statement.Holds state.lexer)
    (written : ascii word.spelling = first :: rest)
    (letters : (first :: rest).all (fun byte => byte.isNamePart && decide (byte < 0x80)) = true)
    (starts : first.isNameStart = true) (found : Keyword.ofName? (first :: rest) = some word)
    (inside : word.modeAfter ≠ .begin) (notDo : word ≠ .doWord)
    (notMarker : first :: rest ≠ Keyword.endMarker)
    (stops : Utf8.nameLength more = 0 ∧ suffixLength .begin more = 0)
    (text : state.input.rest = first :: rest ++ more) :
    Yields nextToken state (fun token after => token.kind = .keyword word ∧
      state.TextRead (ascii word.spelling) after nesting [] constructs ∧
        after.lexer.mode = word.modeAfter) excused := by
  simp only [List.all_eq_true, Bool.and_eq_true, decide_eq_true_eq] at letters
  have low : first < 0x80 := (letters first List.mem_cons_self).2
  obtain ⟨solid, notEquals, -⟩ := Byte.startsToken_of_isNameStart first starts low
  have length := Utf8.nameLength_before stops.1 letters
  refine letterToken_yields between (.inl rfl) solid notEquals starts low text
    (Yields.get_bind ?_)
  have here : (state.input.advance 0).rest = first :: rest ++ more := text
  simp only [List.length_nil, here, length, List.drop_left, stops.2, Nat.add_zero, List.take_left,
    place.1]
  refine Yields.set_bind (Yields.checkRange_bind (Yields.checkRange_bind ?_))
  simp only [Mode.allowsLabel, place.2, isEndLine, beq_false_of_ne notMarker, found, Bool.not_true,
    Mode.isArgument, Bool.and_false, Bool.false_and, Bool.or_self, Bool.false_eq_true, if_false,
    show (Mode.begin == .dot) = false from rfl]
  unfold keyword
  simp only [beq_false_of_ne inside, beq_false_of_ne notDo, Mode.prefersModifier,
    show (Mode.begin == .methodName) = false from rfl, Bool.false_eq_true, if_false]
  refine Yields.setLexer_bind (Yields.position_bind (yields_pure ⟨rfl, ?_, rfl⟩))
  refine .of_advance ?_ between.change
  rw [written, Input.advance_advance, Nat.zero_add]

theorem rowToken_yields {word : Word} {place : Place} {following : Bytes}
    (between : state.lexer.Between nesting [] [] constructs) (sound : state.input.Sound)
    (holds : place.Holds state.lexer) (text : state.input.rest = word.text ++ following)
    (suits : word.Suits place following) (short : word.Short state.limits.tokenMax) :
    Yields nextToken state (WordRead word state nesting constructs) excused := by
  have mark {token : Token} {after : State} (kind : word.Announces after token)
      (read : state.TextRead word.text after (word.nests nesting) [] constructs)
      (place : word.leaves.Holds after.lexer) :
      WordRead word state nesting constructs token after := by
    obtain ⟨⟨input, lexer, rfl⟩, moved, between⟩ := read
    exact ⟨kind, ⟨input, lexer, _, rfl⟩, moved, between, place,
      ⟨fun _ _ found => found, fun _ known => ⟨known, rfl⟩, rfl⟩⟩
  cases word with
  | name blank name =>
      obtain ⟨starts, stop, more, rfl, stops⟩ := suits
      rw [Word.text, List.append_assoc] at text
      refine (nameToken_yields _ between sound (Word.blanks_cases blank) holds.not_dot text
        stops).mono ?_
      rintro token after ⟨symbol, kind, -, slice, -, spelled, read, quiet, -, next⟩
      obtain ⟨⟨input, lexer, report, symbols, rfl⟩, moved, between, grows, -⟩ := read
      obtain rfl : report = state.report := quiet short
      rw [List.take_of_length_le short] at spelled
      have found : symbols.find? name.text = some symbol :=
        SymbolTable.find?_eq_some_iff.mpr ⟨spelled.known, spelled.name⟩
      refine ⟨⟨symbol, kind, spelled, slice, found⟩, ⟨input, lexer, symbols, rfl⟩, moved, between, ?_,
        grows⟩
      change lexer.mode.isBegin = false ∧ lexer.mode.namesMethod = false
      rw [show lexer.mode = _ from next]
      exact Place.after_name holds starts _
  | label blank name =>
      obtain ⟨rfl, single⟩ := suits
      rw [Word.text, List.append_assoc, List.append_assoc] at text
      refine (labelToken_yields _ between sound (Word.blanks_cases blank) holds short text
        single).mono ?_
      rintro token after ⟨kind, others, moved, between, place, grows⟩
      exact ⟨kind, others, moved, between, place, grows⟩
  | gather blank gathered =>
      obtain ⟨starts, first, more, rfl, begins⟩ := suits
      rw [Word.text, List.append_assoc] at text
      refine (gatherToken_yields _ between (Word.blanks_cases blank) (holds.begin starts) begins
        text).mono ?_
      rintro token after ⟨kind, read, within, mode⟩
      exact mark kind read ⟨mode, within⟩
  | number value =>
      refine (digitsToken_yields between (.inr rfl) suits text).mono ?_
      rintro token after ⟨kind, read, mode⟩
      refine mark kind read ?_
      rw [Word.leaves, Place.Holds, mode]
      exact ⟨rfl, rfl⟩
  | assign =>
      obtain ⟨rfl, more, rfl⟩ := suits
      refine (assignToken_yields between holds.2 text).mono ?_
      rintro token after ⟨kind, read, within, mode⟩
      exact mark kind read ⟨mode, within⟩
  | comma =>
      refine (commaToken_yields between text).mono ?_
      rintro token after ⟨kind, read, within, mode⟩
      exact mark kind read ⟨mode, within⟩
  | openParen =>
      obtain rfl : place = .after := suits
      refine (callParenToken_yields between holds.1 text).mono ?_
      rintro token after ⟨kind, read, within, mode⟩
      exact mark kind read ⟨mode, within⟩
  | closeParen =>
      refine (closeParenToken_yields between text).mono ?_
      rintro token after ⟨kind, read, mode⟩
      refine mark kind read ?_
      rw [Word.leaves, Place.Holds, mode]
      exact ⟨rfl, rfl⟩
  | lineFeed =>
      obtain ⟨rfl, alone⟩ := suits
      refine (lineFeedToken_yields between (Place.foldsNewline_of_after holds) alone text).mono ?_
      rintro token after ⟨kind, read, mode, starts⟩
      exact mark kind read ⟨mode, starts⟩
  | defWord =>
      obtain ⟨rfl, more, rfl⟩ := suits
      have text : state.input.rest = [0x64, 0x65, 0x66] ++ 0x20 :: more := text
      refine (keywordToken_yields .defWord 0x64 [0x65, 0x66] between holds (by decide)
        rfl rfl (by decide) nofun nofun (by decide) ⟨rfl, rfl⟩ text).mono ?_
      rintro token after ⟨kind, read, mode⟩
      exact mark kind read mode
  | endWord =>
      obtain ⟨rfl, rfl⟩ := suits
      have text : state.input.rest = [0x65, 0x6E, 0x64] ++ [] := text
      refine (keywordToken_yields .endWord 0x65 [0x6E, 0x64] between holds (by decide)
        rfl rfl (by decide) nofun nofun (by decide) ⟨rfl, rfl⟩ text).mono ?_
      rintro token after ⟨kind, read, mode⟩
      refine mark kind read ?_
      rw [Word.leaves, Place.Holds, mode]
      exact ⟨rfl, rfl⟩

end Scan

end RubySyntax
