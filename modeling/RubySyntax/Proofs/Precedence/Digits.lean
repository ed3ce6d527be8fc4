/-
Numbers that are written in base ten are read as what they are.
-/

import RubySyntax.Lexer.Number
import RubySyntax.Proofs.Precedence.Tree

namespace RubySyntax

def digitByte (digit : Nat) : Byte :=
  (Nat.digitChar digit).toUInt8

theorem decimal_eq (value : Nat) :
    decimal value =
      if value < 10 then [digitByte value] else decimal (value / 10) ++ [digitByte (value % 10)] := by
  unfold decimal ascii
  change (Nat.repr value).toList.map Char.toUInt8 =
    if value < 10 then _ else (Nat.repr (value / 10)).toList.map Char.toUInt8 ++ _
  simp only [Nat.repr_eq_ofList_toDigits, String.toList_ofList]
  rw [Nat.toDigits_eq_if (by decide)]
  split
  · rfl
  · rw [List.map_append]
    rfl

/-- A number is a row of digits, and it starts with a zero if it is zero
alone. -/
theorem decimal_cons (value : Nat) :
    ∃ digit more, decimal value = digitByte digit :: more ∧ digit < 10 ∧
      (∀ byte ∈ more, ∃ other < 10, byte = digitByte other) ∧ (0 < value → 0 < digit) := by
  induction value using Nat.strongRecOn with
  | ind value ih =>
      rw [decimal_eq]
      by_cases small : value < 10
      · rw [if_pos small]
        exact ⟨value, [], rfl, small, nofun, id⟩
      · rw [if_neg small]
        obtain ⟨digit, more, written, short, digits, leading⟩ := ih (value / 10) (by omega)
        refine ⟨digit, more ++ [digitByte (value % 10)], by rw [written, List.cons_append],
          short, ?_, fun _ => leading (by omega)⟩
        intro byte member
        rcases List.mem_append.mp member with member | member
        · exact digits byte member
        · exact ⟨value % 10, Nat.mod_lt _ (by decide), List.mem_singleton.mp member⟩

theorem decimal_digits (value : Nat) :
    ∀ byte ∈ decimal value, ∃ digit < 10, byte = digitByte digit := by
  obtain ⟨digit, more, written, small, digits, -⟩ := decimal_cons value
  rw [written]
  intro byte member
  rcases List.mem_cons.mp member with rfl | member
  · exact ⟨digit, small, rfl⟩
  · exact digits byte member

theorem positionalValue_decimal (value : Nat) : positionalValue 10 (decimal value) = value := by
  have digitValue : ∀ digit < 10, Byte.digitValue? (digitByte digit) = some digit := by decide
  induction value using Nat.strongRecOn with
  | ind value ih =>
      rw [decimal_eq]
      split
      · next small =>
          unfold positionalValue
          simp [digitValue value small]
      · have before := ih (value / 10) (by omega)
        unfold positionalValue at before ⊢
        rw [List.foldl_append, before]
        simp only [List.foldl_cons, List.foldl_nil,
          digitValue (value % 10) (Nat.mod_lt _ (by decide)), Option.getD_some]
        omega

/-- A blank, the end of the line, a comma or a closing parenthesis: each ends a number that
stands before it. -/
def Byte.endsNumber (byte : Byte) : Bool :=
  byte == 0x20 || byte == 0x0A || byte == 0x2C || byte == 0x29

def Ended (text : Bytes) : Prop :=
  text = [] ∨ ∃ byte more, text = byte :: more ∧ byte.endsNumber = true

theorem Byte.endsNumber_cases {byte : Byte} (ends : byte.endsNumber = true) :
    byte = 0x20 ∨ byte = 0x0A ∨ byte = 0x2C ∨ byte = 0x29 := by
  simpa only [endsNumber, Bool.or_eq_true, beq_iff_eq, or_assoc] using ends

theorem operatorText_ended (rest : List (Operator × Nat)) : Ended (operatorText rest) := by
  cases rest with
  | nil => exact .inl rfl
  | cons => exact .inr ⟨_, _, rfl, rfl⟩

theorem DigitRun.scan_digits {digits tail : Bytes} (ended : Ended tail)
    (all : ∀ byte ∈ digits, ∃ digit < 10, byte = digitByte digit) :
    DigitRun.scan Byte.isDigit true (digits ++ tail) =
      { digits, length := digits.length, trailing := false } := by
  induction digits with
  | nil =>
      rcases ended with rfl | ⟨_, more, rfl, stop⟩
      · rfl
      · rcases Byte.endsNumber_cases stop with rfl | rfl | rfl | rfl <;> rfl
  | cons byte digits ih =>
      obtain ⟨digit, small, rfl⟩ := all byte List.mem_cons_self
      have isDigit : ∀ digit < 10, (digitByte digit).isDigit = true ∧
          ((digitByte digit).char == '_') = false := by decide
      obtain ⟨accepted, solid⟩ := isDigit digit small
      rw [List.cons_append, DigitRun.scan, solid, accepted,
        ih fun other member => all other (List.mem_cons_of_mem _ member)]
      rfl

namespace NumberReading

theorem decimal_of_digits {digits tail : Bytes} (ended : Ended tail)
    (all : ∀ byte ∈ digits, ∃ digit < 10, byte = digitByte digit) :
    NumberReading.decimal (digits ++ tail) =
      { length := digits.length
        value := .integer (positionalValue 10 digits)
        remarks := [] } := by
  unfold NumberReading.decimal
  rw [DigitRun.scan_digits ended all]
  have noFraction (offset : Nat) : fraction offset tail = {} := by
    rcases ended with rfl | ⟨_, _ | ⟨next, more⟩, rfl, stop⟩
    · rfl
    all_goals rcases Byte.endsNumber_cases stop with rfl | rfl | rfl | rfl <;> rfl
  have noExponent (offset : Nat) : exponent offset tail = {} := by
    rcases ended with rfl | ⟨_, more, rfl, stop⟩
    · rfl
    · rcases Byte.endsNumber_cases stop with rfl | rfl | rfl | rfl <;> rfl
  simp only [List.drop_left, noFraction, noExponent, Nat.add_zero, DigitRun.remarks,
    List.append_nil, Bool.false_eq_true, if_false, if_true]

theorem ofDigits_decimal {tail : Bytes} (ended : Ended tail) (value : Nat) :
    ofDigits (RubySyntax.decimal value ++ tail) =
      { length := (RubySyntax.decimal value).length
        value := .integer value
        remarks := [] } := by
  have whole := decimal_of_digits ended (decimal_digits value)
  rw [positionalValue_decimal] at whole
  rw [← whole]
  obtain ⟨digit, more, written, small, -, leading⟩ := decimal_cons value
  by_cases zero : value = 0
  · subst zero
    rcases ended with rfl | ⟨_, more, rfl, stop⟩
    · rfl
    · rcases Byte.endsNumber_cases stop with rfl | rfl | rfl | rfl <;> rfl
  · have nonzero : ∀ digit < 10, 0 < digit → ((digitByte digit).char == '0') = false := by
      decide
    have mark := nonzero digit small (leading (Nat.pos_of_ne_zero zero))
    rw [written, List.cons_append]
    unfold ofDigits
    split
    · next first _ _ same =>
        rw [List.cons.injEq] at same
        rw [← same.1, mark]
        rfl
    · rfl

end NumberReading

end RubySyntax
