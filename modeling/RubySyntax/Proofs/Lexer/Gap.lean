/-
What the lexer passes over between two tokens.

White space, escaped line ends, comments and embedded documents are passed over, and
so are bytes that are no token, of which an error is reported. A comment ends at the
end of its line; where the input is supplied piece by piece, the end of a piece ends
a line as well.
-/

import Mathlib.Logic.Relation
import RubySyntax.Proofs.Lexer.Length
import RubySyntax.Proofs.Received
import RubySyntax.Report.Basic

namespace RubySyntax

open Relation (ReflTransGen)

/-! ### What may stand between tokens -/

def HasChar (bytes : Bytes) (position : Nat) (char : Char) : Prop :=
  (bytes[position]?).map Byte.char = some char

def LineStart (bytes : Bytes) (position : Nat) : Prop :=
  position = 0 ∨ HasChar bytes (position - 1) '\n'

structure RestOfLine (source : Bytes) (answers : List (Option Chunk)) (start stop : Nat) :
    Prop where
  ordered : start ≤ stop
  inside : ∀ position, start ≤ position → position < stop →
    ∃ byte : Byte, (supplied source answers)[position]? = some byte ∧ byte.char ≠ '\n'
  stops : HasChar (supplied source answers) stop '\n' ∨ PieceEnd source answers stop

def Problem.IsLexical (problem : Problem) : Prop :=
  problem = .invalidMultibyte ∨ ∃ byte, problem = .invalidByte byte

/-- What the lexer passes over at once, from one position to another. -/
inductive Skips (source : Bytes) (answers : List (Option Chunk)) (made : List Diagnostic) :
    Nat → Nat → Prop where
  | space {position : Nat} {byte : Byte} :
      (supplied source answers)[position]? = some byte → byte.isSpace = true →
      Skips source answers made position (position + 1)
  | escapedLine {position : Nat} :
      HasChar (supplied source answers) position '\\' →
      HasChar (supplied source answers) (position + 1) '\n' →
      Skips source answers made position (position + 2)
  | escapedReturn {position : Nat} :
      HasChar (supplied source answers) position '\\' →
      HasChar (supplied source answers) (position + 1) '\r' →
      HasChar (supplied source answers) (position + 2) '\n' →
      Skips source answers made position (position + 3)
  | comment {start stop : Nat} :
      HasChar (supplied source answers) start '#' → RestOfLine source answers start stop →
      Skips source answers made start stop
  /-- From `=begin` at the start of a line through the line of `=end`. -/
  | document {start last stop : Nat} :
      LineStart (supplied source answers) start →
      ascii "=begin" <+: (supplied source answers).drop start → start < last →
      LineStart (supplied source answers) last ∨ PieceEnd source answers last →
      ascii "=end" <+: (supplied source answers).drop last →
      RestOfLine source answers last stop → Skips source answers made start stop
  | invalid {diagnostic : Diagnostic} :
      diagnostic ∈ made → diagnostic.problem.IsLexical →
      Skips source answers made diagnostic.span.start diagnostic.span.stop

def Skipped (source : Bytes) (answers : List (Option Chunk)) (made : List Diagnostic) :
    Nat → Nat → Prop :=
  ReflTransGen (Skips source answers made)

variable {source : Bytes} {answers : List (Option Chunk)} {made : List Diagnostic}

theorem Skips.mono {later : List Diagnostic} (more : made <+: later) {start stop : Nat}
    (skips : Skips source answers made start stop) : Skips source answers later start stop := by
  cases skips with
  | space found isSpace => exact .space found isSpace
  | escapedLine mark line => exact .escapedLine mark line
  | escapedReturn mark first line => exact .escapedReturn mark first line
  | comment mark line => exact .comment mark line
  | document lineStart opening later head closing line =>
      exact .document lineStart opening later head closing line
  | invalid member lexical => exact .invalid (more.subset member) lexical

theorem Skipped.mono {later : List Diagnostic} (more : made <+: later) {start stop : Nat}
    (skipped : Skipped source answers made start stop) :
    Skipped source answers later start stop :=
  ReflTransGen.mono (fun _ _ => Skips.mono more) _ _ skipped

theorem Skips.then {position distance more : Nat}
    (first : Skips source answers made position (position + distance))
    (rest : Skipped source answers made (position + distance) (position + distance + more)) :
    Skipped source answers made position (position + (distance + more)) := by
  rw [← Nat.add_assoc]
  exact .head first rest

/-! ### Lines -/

namespace Space

variable {byte : Byte} {rest : Bytes}

theorem lineLength_cons_of_ne (other : byte.char ≠ '\n') :
    lineLength (byte :: rest) = lineLength rest + 1 := by
  unfold lineLength
  rw [List.takeWhile_cons, if_pos (by simpa using other), List.length_cons]

theorem lineLength_cons_of_eq (lineFeed : byte.char = '\n') : lineLength (byte :: rest) = 0 := by
  unfold lineLength
  rw [List.takeWhile_cons, if_neg (by simpa using lineFeed), List.length_nil]

theorem lineLength_inside {distance : Nat} (below : distance < lineLength rest) :
    ∃ byte : Byte, rest[distance]? = some byte ∧ byte.char ≠ '\n' := by
  induction rest generalizing distance with
  | nil => exact absurd below (Nat.not_lt_zero _)
  | cons byte rest ih =>
      by_cases lineFeed : byte.char = '\n'
      · rw [lineLength_cons_of_eq lineFeed] at below
        exact absurd below (Nat.not_lt_zero _)
      · cases distance with
        | zero => exact ⟨byte, rfl, lineFeed⟩
        | succ distance =>
            rw [lineLength_cons_of_ne lineFeed] at below
            exact ih (Nat.lt_of_succ_lt_succ below)

/-- A line goes up to its line feed, or takes up all bytes. -/
theorem lineLength_stops (rest : Bytes) :
    HasChar rest (lineLength rest) '\n' ∨ lineLength rest = rest.length := by
  induction rest with
  | nil => exact .inr rfl
  | cons byte rest ih =>
      by_cases lineFeed : byte.char = '\n'
      · rw [lineLength_cons_of_eq lineFeed]
        exact .inl (congrArg some lineFeed)
      · rw [lineLength_cons_of_ne lineFeed, List.length_cons]
        exact ih.imp_right (congrArg (· + 1))

end Space

/-! ### Unread bytes -/

structure Ahead (source : Bytes) (answers : List (Option Chunk)) (position : Nat)
    (rest : Bytes) : Prop where
  bytes : ∀ {distance byte}, rest[distance]? = some byte →
    (supplied source answers)[position + distance]? = some byte
  ends : rest ≠ [] → PieceEnd source answers (position + rest.length)

theorem Input.Received.ahead {input : Input} (received : input.Received source answers) :
    Ahead source answers input.position input.rest where
  bytes found := received.getElem?_rest found
  ends unread := by
    rw [received.position_add_length unread]
    exact received.pieceEnd

namespace Ahead

variable {position : Nat} {byte : Byte} {rest : Bytes}

theorem hasChar (ahead : Ahead source answers position rest) {distance : Nat} {char : Char}
    (found : HasChar rest distance char) :
    HasChar (supplied source answers) (position + distance) char := by
  obtain ⟨byte, here, same⟩ := Option.map_eq_some_iff.mp found
  unfold HasChar
  rw [ahead.bytes here]
  exact congrArg some same

theorem drop (ahead : Ahead source answers position rest) (distance : Nat) :
    Ahead source answers (position + distance) (rest.drop distance) where
  bytes found := by
    rw [List.getElem?_drop] at found
    rw [Nat.add_assoc]
    exact ahead.bytes found
  ends unread := by
    have inside : distance < rest.length := by
      rw [ne_eq, List.drop_eq_nil_iff] at unread
      omega
    have ends := ahead.ends (List.ne_nil_of_length_pos (by omega))
    rw [List.length_drop]
    have same : position + distance + (rest.length - distance) = position + rest.length := by
      omega
    rw [same]
    exact ends

theorem tail (ahead : Ahead source answers position (byte :: rest)) :
    Ahead source answers (position + 1) rest :=
  ahead.drop 1

theorem isPrefix (ahead : Ahead source answers position rest) {word : Bytes}
    (starts : word <+: rest) : word <+: (supplied source answers).drop position := by
  rw [List.prefix_iff_getElem?] at starts ⊢
  intro index inside
  rw [List.getElem?_drop]
  exact ahead.bytes (starts index inside)

/-- After the rest of a line stands its line feed, or a piece has ended there. -/
theorem afterLine (ahead : Ahead source answers position rest)
    (ended : rest = [] → PieceEnd source answers position) :
    HasChar (rest.drop (Space.lineLength rest)) 0 '\n' ∨
      PieceEnd source answers (position + Space.lineLength rest) := by
  cases rest with
  | nil => exact .inr (ended rfl)
  | cons byte tail =>
      apply (Space.lineLength_stops (byte :: tail)).imp
      · intro lineFeed
        unfold HasChar
        rw [List.getElem?_drop]
        exact lineFeed
      · intro whole
        rw [whole]
        exact ahead.ends (List.cons_ne_nil _ _)

/-- The rest of the line, unless nothing is unread. -/
theorem restOfLine (ahead : Ahead source answers position rest) (unread : rest ≠ []) :
    RestOfLine source answers position (position + Space.lineLength rest) where
  ordered := Nat.le_add_right _ _
  inside index above below := by
    obtain ⟨distance, rfl⟩ := Nat.exists_eq_add_of_le above
    obtain ⟨byte, found, other⟩ := Space.lineLength_inside (Nat.lt_of_add_lt_add_left below)
    exact ⟨byte, ahead.bytes found, other⟩
  stops := by
    cases Space.lineLength_stops rest with
    | inl lineFeed => exact .inl (ahead.hasChar lineFeed)
    | inr whole =>
        rw [whole]
        exact .inr (ahead.ends unread)

theorem skips_space (ahead : Ahead source answers position (byte :: rest))
    (isSpace : byte.isSpace = true) : Skips source answers made position (position + 1) := by
  have here : (byte :: rest)[0]? = some byte := rfl
  exact .space (ahead.bytes here) isSpace

end Ahead

theorem isSpace_of_isBlank {byte : Byte} (blank : byte.isBlank = true) : byte.isSpace = true :=
  (Bool.and_eq_true_iff.mp blank).1

theorem Byte.eq_of_lineFeed {byte : Byte} (lineFeed : byte.char = '\n') : byte = 0x0A :=
  UInt8.toNat.inj (congrArg Char.toNat lineFeed)

theorem isSpace_of_lineFeed {byte : Byte} (lineFeed : byte.char = '\n') :
    byte.isSpace = true := by
  rw [Byte.eq_of_lineFeed lineFeed]
  rfl

/-- The next byte is there unless it is read as 0. -/
theorem Input.Received.aheadByte {input : Input} (received : input.Received source answers)
    (proper : input.peekByte ≠ 0) :
    Ahead source answers input.position (input.peekByte :: input.rest.tail) := by
  have ahead := received.ahead
  unfold Input.peekByte at proper ⊢
  cases rest : input.rest with
  | nil =>
      rw [rest] at proper
      exact absurd rfl proper
  | cons byte tail =>
      rw [rest] at ahead
      exact ahead

theorem Input.Received.lineStart {input : Input} (received : input.Received source answers)
    (atStart : input.atLineStart = true) :
    LineStart (supplied source answers) input.position := by
  unfold Input.atLineStart at atStart
  rw [Bool.or_eq_true, beq_iff_eq, beq_iff_eq] at atStart
  apply atStart.imp_right
  intro previous
  unfold Input.previous? at previous
  split at previous
  · cases previous
  · unfold HasChar
    rw [received.getElem?_bytes previous]
    rfl

/-- A byte that is read as a character is there, unless it is that of code 0. -/
theorem Input.hasChar_of_peek {input : Input} {char : Char} (same : input.peek = char)
    (proper : char ≠ Byte.char 0) : HasChar input.rest 0 char := by
  unfold Input.peek at same
  cases rest : input.rest with
  | nil =>
      rw [rest] at same
      exact absurd same.symm proper
  | cons byte tail =>
      rw [rest] at same
      exact congrArg some same

theorem Input.peek_of_hasChar {input : Input} {char : Char}
    (here : HasChar input.rest 0 char) : input.peek = char := by
  unfold Input.peek
  cases rest : input.rest with
  | nil =>
      rw [rest] at here
      cases here
  | cons byte tail =>
      rw [rest] at here
      exact Option.some.inj here

theorem Input.Received.skips_space {input : Input} (received : input.Received source answers)
    (isSpace : input.peekByte.isSpace = true) :
    Skips source answers made input.position (input.position + 1) := by
  have proper : input.peekByte ≠ 0 := by
    intro zero
    rw [zero] at isSpace
    exact absurd isSpace (by decide)
  exact (received.aheadByte proper).skips_space isSpace

/-! ### White space -/

namespace Space

variable {position : Nat}

theorem skips_comment {byte : Byte} {rest : Bytes} (mark : byte.char = '#')
    (ahead : Ahead source answers position (byte :: rest)) :
    Skips source answers made position (position + (lineLength rest + 1)) := by
  have other : byte.char ≠ '\n' := by
    rw [mark]
    decide
  have line := ahead.restOfLine (List.cons_ne_nil _ _)
  rw [lineLength_cons_of_ne other] at line
  have here : HasChar (byte :: rest) 0 '#' := congrArg some mark
  exact .comment (ahead.hasChar here) line

theorem lengthFrom_comment (rest : Bytes) : lengthFrom true rest = lineLength rest := by
  induction rest with
  | nil => rfl
  | cons byte rest ih =>
      unfold lengthFrom
      rw [if_pos rfl]
      by_cases lineFeed : byte.char = '\n'
      · rw [lineLength_cons_of_eq lineFeed, if_pos (beq_iff_eq.mpr lineFeed)]
      · rw [lineLength_cons_of_ne lineFeed, if_neg (by simpa using lineFeed), ih, Nat.add_comm]

theorem skipped_lengthFrom {comment : Bool} (rest : Bytes) (code : comment = false)
    {position : Nat} (ahead : Ahead source answers position rest) :
    Skipped source answers made position (position + lengthFrom comment rest) := by
  fun_induction lengthFrom comment rest generalizing position
  case case1 => exact .refl
  case case2 => cases code
  case case3 => cases code
  case case4 byte rest _ mark _ =>
      rw [lengthFrom_comment, Nat.add_comm 1]
      exact .single (skips_comment mark ahead)
  case case5 byte _ mark rest ih =>
      have backslash : HasChar (byte :: 0x0A :: rest) 0 '\\' := congrArg some mark
      have lineFeed : HasChar (byte :: 0x0A :: rest) 1 '\n' := rfl
      exact (Skips.escapedLine (ahead.hasChar backslash) (ahead.hasChar lineFeed)).then
        (ih rfl (ahead.drop 2))
  case case6 byte _ mark rest ih =>
      have backslash : HasChar (byte :: 0x0D :: 0x0A :: rest) 0 '\\' := congrArg some mark
      have carriage : HasChar (byte :: 0x0D :: 0x0A :: rest) 1 '\r' := rfl
      have lineFeed : HasChar (byte :: 0x0D :: 0x0A :: rest) 2 '\n' := rfl
      exact (Skips.escapedReturn (ahead.hasChar backslash) (ahead.hasChar carriage)
        (ahead.hasChar lineFeed)).then (ih rfl (ahead.drop 3))
  case case7 => exact .refl
  case case8 byte rest _ blank _ _ ih =>
      exact (ahead.skips_space (isSpace_of_isBlank blank)).then (ih rfl ahead.tail)
  case case9 => exact .refl

theorem skipped_length {rest : Bytes} {position : Nat}
    (ahead : Ahead source answers position rest) :
    Skipped source answers made position (position + length rest) :=
  skipped_lengthFrom rest rfl ahead

/-- A comment goes up to the end of its line, and the lines after it are looked at in
the same way. -/
theorem commentLinesFrom_comment (rest : Bytes) :
    commentLinesFrom true rest = lineLength rest ∨
      ∃ lineFeed after, rest.drop (lineLength rest) = lineFeed :: after ∧
        lineFeed.char = '\n' ∧
        commentLinesFrom true rest = lineLength rest + (1 + commentLinesFrom false after) := by
  induction rest with
  | nil => exact .inl rfl
  | cons byte rest ih =>
      have step : commentLinesFrom true (byte :: rest) =
          1 + commentLinesFrom (byte.char != '\n') rest := rfl
      rw [step]
      by_cases lineFeed : byte.char = '\n'
      · rw [lineLength_cons_of_eq lineFeed, bne_eq_false_iff_eq.mpr lineFeed]
        exact .inr ⟨byte, rest, rfl, lineFeed, (Nat.zero_add _).symm⟩
      · rw [lineLength_cons_of_ne lineFeed, bne_iff_ne.mpr lineFeed]
        apply ih.imp
        · intro same
          rw [same, Nat.add_comm]
        · rintro ⟨found, after, dropped, newline, same⟩
          refine ⟨found, after, dropped, newline, ?_⟩
          rw [same, ← Nat.add_assoc, Nat.add_comm 1]

/-- Lines that hold just a comment are passed over. -/
theorem skipped_commentLines : ∀ (rest : Bytes) {position : Nat},
    Ahead source answers position rest →
      Skipped source answers made position (position + commentLinesFrom false rest)
  | [], _, _ => .refl
  | byte :: rest, position, ahead => by
      unfold commentLinesFrom
      rw [if_neg Bool.false_ne_true]
      split
      · next mark =>
          have comment : Skips source answers made position (position + (lineLength rest + 1)) :=
            skips_comment (eq_of_beq mark) ahead
          cases commentLinesFrom_comment rest with
          | inl whole =>
              rw [whole, Nat.add_comm 1]
              exact .single comment
          | inr goesOn =>
              obtain ⟨lineFeed, after, dropped, newline, same⟩ := goesOn
              have next := ahead.drop (lineLength rest + 1)
              rw [List.drop_succ_cons, dropped] at next
              have shorter : after.length < rest.length := by
                have length := congrArg List.length dropped
                rw [List.length_drop, List.length_cons] at length
                omega
              have whole : 1 + commentLinesFrom true rest =
                  lineLength rest + 1 + (1 + commentLinesFrom false after) := by omega
              rw [whole]
              exact comment.then ((next.skips_space (isSpace_of_lineFeed newline)).then
                (skipped_commentLines after next.tail))
      · split
        · next blank =>
            exact (ahead.skips_space (isSpace_of_isBlank blank)).then
              (skipped_commentLines rest ahead.tail)
        · exact .refl
termination_by rest => rest.length

end Space

end RubySyntax
