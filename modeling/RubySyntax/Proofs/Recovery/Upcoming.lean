/-
What is left of a program of lines while it is read.

It is one of few forms, each with the token that comes next and with what is left
after it.
-/

import RubySyntax.Proofs.Recovery.Line

namespace RubySyntax

inductive Upcoming where
  | wholeLine (line : Line) (more : List Line)
  | assign (value : Int) (more : List Line)
  | assigned (value : Int) (more : List Line)
  | digits (value : Nat) (more : List Line)
  | numbers (others : List Nat) (more : List Line)

namespace Upcoming

def text : Upcoming → Bytes
  | .wholeLine line more => line.text ++ linesAfter more
  | .assign value more => ascii " = " ++ signedDecimal value ++ linesAfter more
  | .assigned value more => 0x20 :: signedDecimal value ++ linesAfter more
  | .digits value more => decimal value ++ linesAfter more
  | .numbers others more => numbersAfter others ++ linesAfter more

def next? : Upcoming → Option Upcoming
  | .wholeLine (.assignment _ value) more => some (.assign value more)
  | .wholeLine (.numbers _ second others) more => some (.numbers (second :: others) more)
  | .assign value more => some (.assigned value more)
  | .assigned (.ofNat _) more => some (.numbers [] more)
  | .assigned (.negSucc value) more => some (.digits (value + 1) more)
  | .digits _ more => some (.numbers [] more)
  | .numbers (_ :: others) more => some (.numbers others more)
  | .numbers [] (line :: more) => some (.wholeLine line more)
  | .numbers [] [] => none

def Announces (spells : Symbol → Bytes → Prop) : Upcoming → TokenKind → Prop
  | .wholeLine (.assignment name _) _, kind =>
      ∃ symbol, kind = .identifier symbol ∧ spells symbol name.text
  | .wholeLine (.numbers first _ _) _, kind => kind = .integer first
  | .assign _ _, kind => kind = .punct .assign
  | .assigned (.ofNat value) _, kind => kind = .integer value
  | .assigned (.negSucc _) _, kind => kind = .punct .numberMinus
  | .digits value _, kind => kind = .integer value
  | .numbers (value :: _) _, kind => kind = .integer value
  | .numbers [] (_ :: _), kind => kind = .newline
  | .numbers [] [], kind => kind = .endOfInput

def start : List Line → Upcoming
  | [] => .numbers [] []
  | line :: more => .wholeLine line more

theorem text_start (lines : List Line) : (start lines).text = linesText lines := by
  cases lines with
  | nil => rfl
  | cons line more => exact (linesText_cons line more).symm

def Suits : Upcoming → LexerState → Prop
  | .wholeLine .., lexer => lexer.mode = .begin
  | .assign .., lexer => lexer.mode.namesMethod = false
  | .assigned .., lexer => lexer.mode = .begin
  | .digits .., _ => True
  | .numbers [] [], lexer => lexer.mode = .operandEnd ∨ lexer.statementStart = true
  | .numbers _ _, lexer => lexer.mode = .operandEnd

theorem suits_numbers (others : List Nat) (more : List Line) {lexer : LexerState}
    (mode : lexer.mode = .operandEnd) : (numbers others more).Suits lexer := by
  cases others with
  | nil =>
      cases more with
      | nil => exact .inl mode
      | cons => exact mode
  | cons => exact mode

structure Unread (upcoming : Upcoming) (lexer : LexerState) (input : Input) : Prop where
  idle : lexer.Idle
  sound : input.Sound
  text : input.rest = upcoming.text
  suits : upcoming.Suits lexer

theorem Unread.after {upcoming later : Upcoming} {before after : State} {text : Bytes}
    (unread : upcoming.Unread before.lexer before.input) (read : before.TokenRead text after)
    (parts : upcoming.text = text ++ later.text) (suits : later.Suits after.lexer) :
    later.Unread after.lexer after.input where
  idle := read.between
  sound := by
    rw [read.input]
    refine unread.sound.advance ?_
    rw [unread.text, parts, List.length_append]
    exact Nat.le_add_right ..
  text := by
    rw [read.input, Input.advance, unread.text, parts, List.drop_left]
  suits := suits

end Upcoming

structure UpcomingRead (upcoming : Upcoming) (before : State) (token : Token) (after : State) :
    Prop where
  kind : upcoming.Announces
    (fun symbol name => after.symbols.Spells symbol (name.take before.limits.tokenMax)) token.kind
  others : ∃ input lexer report symbols, after = { before with input, lexer, report, symbols }
  grows : before.Grows 0 after
  unread : ∀ later ∈ upcoming.next?, later.Unread after.lexer after.input

theorem UpcomingRead.of_read {upcoming later : Upcoming} {before after : State} {token : Token}
    {text : Bytes} (unread : upcoming.Unread before.lexer before.input)
    (read : before.TokenRead text after)
    (kind : upcoming.Announces
      (fun symbol name => after.symbols.Spells symbol (name.take before.limits.tokenMax)) token.kind)
    (next : upcoming.next? = some later) (parts : upcoming.text = text ++ later.text)
    (suits : later.Suits after.lexer) : UpcomingRead upcoming before token after where
  kind := kind
  others := read.others
  grows := read.grows
  unread _ same := by
    rw [next] at same
    cases same
    exact unread.after read parts suits

namespace Scan

variable {state : State} {excused : Fatal → State → Prop}

theorem lineToken_yields {line : Line} {more : List Line}
    (unread : (Upcoming.wholeLine line more).Unread state.lexer state.input) :
    Yields nextToken state (UpcomingRead (.wholeLine line more) state) excused := by
  have text := unread.text
  cases line with
  | assignment name value =>
      have parts : (Upcoming.wholeLine (.assignment name value) more).text =
          name.text ++ (Upcoming.assign value more).text := by
        simp [Upcoming.text, Line.text]
      refine (variableToken_yields unread.idle unread.sound unread.suits (text.trans parts)
        rfl).mono ?_
      rintro token after ⟨named, read, -, callable⟩
      exact .of_read unread read named rfl parts callable
  | numbers first second others =>
      have parts : (Upcoming.wholeLine (.numbers first second others) more).text =
          decimal first ++ (Upcoming.numbers (second :: others) more).text := by
        simp [Upcoming.text, Line.text_numbers]
      refine (digitsToken_yields unread.idle (.inl rfl) (numbersAfter_ended _ more)
        (text.trans parts)).mono ?_
      rintro token after ⟨kind, read, mode⟩
      exact .of_read unread read.tokenRead kind rfl parts mode

theorem assignedToken_yields {value : Int} {more : List Line}
    (unread : (Upcoming.assigned value more).Unread state.lexer state.input) :
    Yields nextToken state (UpcomingRead (.assigned value more) state) excused := by
  have text := unread.text
  cases value with
  | ofNat value =>
      have parts : (Upcoming.assigned (.ofNat value) more).text =
          ([0x20] ++ decimal value) ++ (Upcoming.numbers [] more).text := rfl
      refine (digitsToken_yields unread.idle (.inr rfl) (linesAfter_ended more) text).mono ?_
      rintro token after ⟨kind, read, mode⟩
      exact .of_read unread read.tokenRead kind rfl parts (Upcoming.suits_numbers [] more mode)
  | negSucc value =>
      have parts : (Upcoming.assigned (.negSucc value) more).text =
          [0x20, 0x2D] ++ (Upcoming.digits (value + 1) more).text := rfl
      refine (signToken_yields unread.idle unread.suits (text.trans parts)).mono ?_
      rintro token after ⟨kind, read, -⟩
      exact .of_read unread read.tokenRead kind rfl parts trivial

theorem numbersToken_yields {others : List Nat} {more : List Line}
    (unread : (Upcoming.numbers others more).Unread state.lexer state.input) :
    Yields nextToken state (UpcomingRead (.numbers others more) state) excused := by
  have text := unread.text
  cases others with
  | cons value others =>
      have parts : (Upcoming.numbers (value :: others) more).text =
          ([0x20] ++ decimal value) ++ (Upcoming.numbers others more).text := by
        simp [Upcoming.text, numbersAfter]
      refine (digitsToken_yields unread.idle (.inr rfl) (numbersAfter_ended others more)
        (text.trans parts)).mono ?_
      rintro token after ⟨kind, read, mode⟩
      exact .of_read unread read.tokenRead kind rfl parts (Upcoming.suits_numbers others more mode)
  | nil =>
      cases more with
      | cons line more =>
          have parts : (Upcoming.numbers [] (line :: more)).text =
              [0x0A] ++ (Upcoming.wholeLine line more).text := by
            simp [Upcoming.text, numbersAfter, linesAfter]
          obtain ⟨byte, rest, written, solid, noDot, noSafeDot⟩ := line.text_cons
          have alone : Space.continuation? (Upcoming.wholeLine line more).text = none := by
            rw [Upcoming.text, written]
            exact Space.continuation?_eq_none solid noDot noSafeDot _
          refine (newlineToken_yields unread.idle unread.suits alone (text.trans parts)).mono ?_
          rintro token after ⟨kind, read, mode⟩
          exact .of_read unread read.tokenRead kind rfl parts mode
      | nil =>
          have complete : state.lexer.mode.isBegin = false ∧
              state.lexer.mode.namesMethod = false ∨ state.lexer.statementStart = true := by
            rcases unread.suits with mode | starts
            · rw [mode]
              exact .inl ⟨rfl, rfl⟩
            · exact .inr starts
          refine (endToken_yields unread.idle complete text).mono ?_
          rintro token _ ⟨kind, lexer, rfl⟩
          exact ⟨kind, ⟨_, _, _, _, rfl⟩, ⟨fun _ _ found => found, fun _ known => ⟨known, rfl⟩, rfl⟩,
            nofun⟩

theorem upcomingToken_yields {upcoming : Upcoming} (unread : upcoming.Unread state.lexer state.input) :
    Yields nextToken state (UpcomingRead upcoming state) excused := by
  cases upcoming with
  | wholeLine line more => exact lineToken_yields unread
  | assign value more =>
      have parts : (Upcoming.assign value more).text =
          [0x20, 0x3D] ++ (Upcoming.assigned value more).text := rfl
      refine (assignToken_yields unread.idle unread.suits unread.text).mono ?_
      rintro token after ⟨kind, read, -, mode⟩
      exact .of_read unread read.tokenRead kind rfl parts mode
  | assigned value more => exact assignedToken_yields unread
  | digits value more =>
      refine (digitsToken_yields unread.idle (.inl rfl) (linesAfter_ended more) unread.text).mono ?_
      rintro token after ⟨kind, read, mode⟩
      exact .of_read unread read.tokenRead kind rfl rfl (Upcoming.suits_numbers [] more mode)
  | numbers others more => exact numbersToken_yields unread

end Scan

end RubySyntax
