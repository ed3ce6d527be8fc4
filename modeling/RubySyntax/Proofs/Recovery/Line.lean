/-
Programs with a statement on each line, some of them broken.

A line either assigns a number to a variable or holds several numbers in a row,
which is no statement.
-/

import RubySyntax.Proofs.Reading.Token

namespace RubySyntax

def signedDecimal : Int → Bytes
  | .ofNat value => decimal value
  | .negSucc value => 0x2D :: decimal (value + 1)

inductive Line where
  | assignment (name : VariableName) (value : Int)
  /-- Two numbers or more in a row, which is no statement. They have no sign: one
  between two numbers would be an operator. -/
  | numbers (first second : Nat) (more : List Nat)
deriving DecidableEq

namespace Line

def text : Line → Bytes
  | .assignment name value => name.text ++ ascii " = " ++ signedDecimal value
  | .numbers first second more =>
      [0x20].intercalate ((first :: second :: more).map decimal)

/-- The statement on the line is followed by something that cannot follow it. -/
def isBroken : Line → Bool
  | .assignment .. => false
  | .numbers .. => true

end Line

def linesText (lines : List Line) : Bytes :=
  [0x0A].intercalate (lines.map Line.text)

/-! ### What follows the first of several -/

def linesAfter (lines : List Line) : Bytes :=
  lines.flatMap fun line => 0x0A :: line.text

def numbersAfter (numbers : List Nat) : Bytes :=
  numbers.flatMap fun value => 0x20 :: decimal value

theorem linesText_cons (line : Line) (more : List Line) :
    linesText (line :: more) = line.text ++ linesAfter more := by
  unfold linesText linesAfter
  rw [List.map_cons, intercalate_cons_eq_flatMap, List.flatMap_map]
  rfl

theorem linesText_single (line : Line) : linesText [line] = line.text := by
  rw [linesText_cons]
  exact List.append_nil line.text

theorem Line.text_numbers (first second : Nat) (more : List Nat) :
    (Line.numbers first second more).text = decimal first ++ numbersAfter (second :: more) := by
  change [0x20].intercalate ((first :: second :: more).map decimal) = _
  unfold numbersAfter
  rw [List.map_cons, intercalate_cons_eq_flatMap, List.flatMap_map]
  rfl

theorem Line.text_cons (line : Line) :
    ∃ byte more, line.text = byte :: more ∧ byte.startsToken = true ∧
      (byte.char == '.') = false ∧ (byte.char == '&') = false := by
  cases line with
  | assignment name value =>
      obtain ⟨first, rest, written, starts, -⟩ := name.first
      have low := (name.ascii first (written ▸ List.mem_cons_self)).2
      obtain ⟨solid, -, noDot⟩ := Byte.startsToken_of_isNameStart first starts low
      exact ⟨first, _, by rw [text, written]; rfl, solid, noDot⟩
  | numbers first second more =>
      obtain ⟨digit, rest, written, small, -⟩ := decimal_cons first
      have digits : ∀ digit < 10, (digitByte digit).startsToken = true ∧
          ((digitByte digit).char == '.') = false ∧ ((digitByte digit).char == '&') = false := by
        decide
      exact ⟨digitByte digit, _, by rw [text_numbers, written]; rfl, digits digit small⟩

theorem linesAfter_ended (lines : List Line) : Ended (linesAfter lines) := by
  cases lines with
  | nil => exact .inl rfl
  | cons line more => exact .inr ⟨_, _, rfl, rfl⟩

theorem numbersAfter_ended (numbers : List Nat) (lines : List Line) :
    Ended (numbersAfter numbers ++ linesAfter lines) := by
  cases numbers with
  | nil => exact linesAfter_ended lines
  | cons value more => exact .inr ⟨_, _, rfl, rfl⟩

end RubySyntax
