/-
Integer literals.

A literal is a mark that announces the base, and a written number of that base. It is read
as the value of the number. With an underscore out of place, whatever else is written after
the mark, the reading remarks on it.
-/

import Mathlib.Tactic.IntervalCases
import RubySyntax.Proofs.Integer.Digits

namespace RubySyntax

def baseMarks : Nat → List Bytes
  | 2 => [ascii "0b", ascii "0B"]
  | 8 => [ascii "0o", ascii "0O", ascii "0", ascii "0_"]
  | 10 => [[], ascii "0d", ascii "0D"]
  | 16 => [ascii "0x", ascii "0X"]
  | _ => []

/-- A mark that is not needed may be left out before a zero alone, and before a digit other
than zero. -/
def WrittenNumber.FitsMark {base : Nat} (number : WrittenNumber base) (mark : Bytes) : Prop :=
  mark = [] → number.first.value = 0 → number.more = []

/-- What may stand after a mark once underscores may stand anywhere. Without a mark a digit
comes first. -/
def RowAfterMark (base : Nat) (mark row : Bytes) : Prop :=
  (∀ byte ∈ row, byte = 0x5F ∨ byte.isDigitIn base = true) ∧
    (mark = [] → ∃ digit others, row = digit :: others ∧ digit.isDigit = true)

theorem baseMarks_cases {base : Nat} {mark : Bytes} (announced : mark ∈ baseMarks base) :
    (mark = [] ∧ base = 10) ∨
    ((mark = [0x30] ∨ mark = [0x30, 0x5F]) ∧ base = 8) ∨
    ∃ letter : Byte, mark = [0x30, letter] ∧ letter ≠ 0x5F ∧ base ≤ 16 ∧
      ∀ rest, NumberReading.ofDigits (mark ++ rest) = NumberReading.based base 2 (mark ++ rest) := by
  unfold baseMarks at announced
  split at announced
  all_goals simp only [List.mem_cons, List.not_mem_nil, or_false] at announced
  · rcases announced with rfl | rfl
    all_goals exact .inr (.inr ⟨_, rfl, by decide, by decide, fun rest => rfl⟩)
  · rcases announced with rfl | rfl | rfl | rfl
    · exact .inr (.inr ⟨_, rfl, by decide, by decide, fun rest => rfl⟩)
    · exact .inr (.inr ⟨_, rfl, by decide, by decide, fun rest => rfl⟩)
    · exact .inr (.inl ⟨.inl rfl, rfl⟩)
    · exact .inr (.inl ⟨.inr rfl, rfl⟩)
  · rcases announced with rfl | rfl | rfl
    · exact .inl ⟨rfl, rfl⟩
    · exact .inr (.inr ⟨_, rfl, by decide, by decide, fun rest => rfl⟩)
    · exact .inr (.inr ⟨_, rfl, by decide, by decide, fun rest => rfl⟩)
  · rcases announced with rfl | rfl
    all_goals exact .inr (.inr ⟨_, rfl, by decide, by decide, fun rest => rfl⟩)

theorem baseMarks_startsDigit {base : Nat} {mark row : Bytes} (announced : mark ∈ baseMarks base)
    (bare : mark = [] → base = 10 →
      ∃ digit others, row = digit :: others ∧ digit.isDigit = true) :
    ∃ digit others, mark ++ row = digit :: others ∧ digit.isDigit = true := by
  rcases baseMarks_cases announced with ⟨rfl, decimal⟩ | ⟨rfl | rfl, -⟩ | ⟨letter, rfl, -⟩
  · exact bare rfl decimal
  · exact ⟨_, _, rfl, rfl⟩
  · exact ⟨_, _, rfl, rfl⟩
  · exact ⟨_, _, rfl, rfl⟩

theorem Byte.isDigitIn_mono {byte : Byte} {base larger : Nat} (within : base ≤ larger)
    (isDigit : byte.isDigitIn base = true) : byte.isDigitIn larger = true := by
  unfold isDigitIn at isDigit ⊢
  split at isDigit
  · exact decide_eq_true (Nat.lt_of_lt_of_le (of_decide_eq_true isDigit) within)
  · cases isDigit

theorem Byte.isDigitIn_ten (byte : Byte) : byte.isDigitIn 10 = byte.isDigit := by
  revert byte
  exact Byte.forall_of_lt (by decide +kernel)

def Faulty (remarks : List (Option Nat × Problem)) : Prop :=
  ∃ remark ∈ remarks, remark.2.severity = .error

namespace Faulty

variable {some : List (Option Nat × Problem)}

theorem append (faulty : Faulty some) (more : List (Option Nat × Problem)) :
    Faulty (some ++ more) := by
  obtain ⟨remark, member, severe⟩ := faulty
  exact ⟨remark, List.mem_append_left _ member, severe⟩

theorem last {place : Option Nat} {problem : Problem} (severe : problem.severity = .error)
    (some : List (Option Nat × Problem)) : Faulty (some ++ [(place, problem)]) :=
  ⟨_, List.mem_append_right _ List.mem_cons_self, severe⟩

end Faulty

theorem DigitRun.remarks_of_trailing {run : DigitRun} (trailing : run.trailing = true)
    (offset : Nat) : Faulty (run.remarks offset) := by
  rw [remarks, if_pos trailing]
  exact ⟨_, List.mem_cons_self, rfl⟩

theorem DigitRun.length_digits_le (accept : Byte → Bool) (separable : Bool) (text : Bytes) :
    (scan accept separable text).digits.length ≤ (scan accept separable text).length := by
  induction text generalizing separable with
  | nil => exact Nat.le_refl _
  | cons byte rest ih =>
      rw [scan]
      split
      · split
        · exact Nat.le_succ_of_le (ih false)
        · exact Nat.le_refl _
      · split
        · exact Nat.succ_le_succ (ih true)
        · exact Nat.le_refl _

namespace NumberReading

variable {base : Nat}

/-! ### Numbers that are written well -/

theorem based_number (mark : Bytes) {text : Bytes} {number : WrittenNumber base}
    (scanned : DigitRun.scan (Byte.isDigitIn (if base = 8 then 10 else base))
      (mark.length == 1) text =
        { digits := number.digits.map WrittenDigit.byte, length := text.length }) :
    based base mark.length (mark ++ text) =
      { length := (mark ++ text).length, value := .integer number.value, remarks := [] } := by
  have all : (number.digits.map WrittenDigit.byte).all (Byte.isDigitIn base) = true := by
    rw [List.all_map]
    exact List.all_eq_true.mpr fun digit _ => digit.isDigitIn (Nat.le_refl _)
  have some : (number.digits.map WrittenDigit.byte).isEmpty = false := rfl
  unfold based
  simp only [List.drop_left, scanned, some, all, positionalValue_written, DigitRun.remarks,
    Bool.false_eq_true, if_false, if_true, List.length_append]
  rfl

theorem accepts_based (digit : WrittenDigit base) :
    digit.byte.isDigitIn (if base = 8 then 10 else base) = true := by
  apply digit.isDigitIn
  split <;> omega

theorem ofDigits_nonzero {first : Byte} {others : Bytes} (nonzero : first ≠ 0x30) :
    ofDigits (first :: others) = decimal (first :: others) := by
  have only : ∀ byte : Byte, (byte.char == '0') = true → byte = 0x30 :=
    Byte.forall_of_lt (by decide +kernel)
  have other : (first.char == '0') = false :=
    Bool.eq_false_iff.mpr fun same => nonzero (only first same)
  unfold ofDigits
  split
  · next same =>
      rw [← (List.cons.inj same).1, other]
      rfl
  · rfl

/-- A number in base ten that starts with no zero, or is zero alone. -/
theorem ofDigits_decimal_number {number : WrittenNumber 10} (fits : number.FitsMark []) :
    ofDigits number.text =
      { length := number.text.length, value := .integer number.value, remarks := [] } := by
  have scanned : DigitRun.scan Byte.isDigit true number.text =
      { digits := number.digits.map WrittenDigit.byte, length := number.text.length } :=
    DigitRun.scan_number (fun digit => digit.isDigit (Nat.le_refl _)) number true
  have whole : decimal number.text =
      { length := number.text.length, value := .integer number.value, remarks := [] } := by
    unfold decimal
    have value : positionalValue 10 (number.digits.map WrittenDigit.byte) = number.value :=
      positionalValue_written _
    simp only [scanned, List.drop_length, fraction, exponent, value, Nat.add_zero, DigitRun.remarks,
      Bool.false_eq_true, if_false, if_true, List.append_nil]
  rw [← whole]
  by_cases zero : number.first.value = 0
  · have alone : number.text = [number.first.byte] := by
      rw [WrittenNumber.text, fits rfl zero]
      rfl
    rw [alone]
    rfl
  · refine ofDigits_nonzero fun same => zero ?_
    have spells := number.first.spells
    rw [same] at spells
    exact (Option.some.inj spells).symm

/-- A zero before a digit or an underscore announces base eight. -/
theorem ofDigits_octal {first : Byte} {others : Bytes}
    (goesOn : first = 0x5F ∨ first.isDigit = true) :
    ofDigits (0x30 :: first :: others) = based 8 1 (0x30 :: first :: others) := by
  have digits : ∀ byte : Byte, byte.isDigit = true → ∃ digit < 10, byte = digitByte digit :=
    Byte.forall_of_lt (by decide +kernel)
  rcases goesOn with rfl | isDigit
  · rfl
  · obtain ⟨digit, small, rfl⟩ := digits first isDigit
    interval_cases digit <;> rfl

theorem ofDigits_number {mark : Bytes} (announced : mark ∈ baseMarks base)
    {number : WrittenNumber base} (fits : number.FitsMark mark) :
    ofDigits (mark ++ number.text) =
      { length := (mark ++ number.text).length
        value := .integer number.value
        remarks := [] } := by
  rcases baseMarks_cases announced with
    ⟨rfl, rfl⟩ | ⟨octal, rfl⟩ | ⟨letter, rfl, -, -, announces⟩
  · exact ofDigits_decimal_number fits
  · have accepts : ∀ digit : WrittenDigit 8, digit.byte.isDigitIn 10 = true := accepts_based
    have scanned := DigitRun.scan_number accepts number true
    rcases octal with rfl | rfl
    · change ofDigits (0x30 :: number.first.byte :: WrittenNumber.separated number.more) = _
      rw [ofDigits_octal (.inr (number.first.isDigit (by decide)))]
      exact based_number [0x30] scanned
    · change ofDigits (0x30 :: 0x5F :: number.text) = _
      rw [ofDigits_octal (.inl rfl)]
      have scanned := DigitRun.scan_separated accepts ((true, number.first) :: number.more)
      rw [show (((true, number.first) :: number.more).map fun digit => digit.2.byte) =
        number.digits.map WrittenDigit.byte by simp [WrittenNumber.digits]] at scanned
      exact based_number [0x30] scanned
  · rw [announces]
    exact based_number [0x30, letter]
      (DigitRun.scan_number (fun digit => accepts_based digit) number false)

/-! ### Underscores out of place -/

/-- After a mark a row with an underscore out of place has no digits, or it ends after an
underscore. -/
theorem based_remarks {marked : Nat} {text : Bytes}
    (within : ∀ byte ∈ text.drop marked, byte = 0x5F ∨
      byte.isDigitIn (if base = 8 then 10 else base) = true)
    (misplaced : MisplacedUnderscore (text.drop marked)) :
    Faulty (based base marked text).remarks := by
  let run := DigitRun.scan (Byte.isDigitIn (if base = 8 then 10 else base)) (marked == 1)
    (text.drop marked)
  have stops : run.length = 0 ∨ run.trailing = true := by
    obtain ⟨anywhere, afterDigit⟩ := DigitRun.trailing_scan within
    change (DigitRun.scan _ (marked == 1) _).length = 0 ∨ (DigitRun.scan _ (marked == 1) _).trailing = true
    cases marked == 1 with
    | true => exact .inr (anywhere misplaced)
    | false => exact afterDigit (.inr (.inr misplaced))
  have found : run.digits.isEmpty = false → Faulty (run.remarks marked) := by
    intro some
    refine DigitRun.remarks_of_trailing (stops.resolve_left fun none => ?_) marked
    have short : run.digits.length ≤ run.length := DigitRun.length_digits_le ..
    have empty : run.digits = [] := List.length_eq_zero_iff.mp (by omega)
    rw [empty] at some
    cases some
  unfold based
  change Faulty (if run.digits.isEmpty then _ else
    if run.digits.all (Byte.isDigitIn base) then _ else _ : NumberReading).remarks
  split
  · exact Faulty.last rfl _
  · next some =>
      have found := found (Bool.eq_false_iff.mpr some)
      split
      · exact found
      · exact found.append _

theorem decimal_remarks {text : Bytes} (within : ∀ byte ∈ text, byte = 0x5F ∨ byte.isDigit = true)
    (misplaced : MisplacedUnderscore text) : Faulty (decimal text).remarks := by
  let run := DigitRun.scan Byte.isDigit true text
  have found : Faulty (run.remarks 0) :=
    DigitRun.remarks_of_trailing ((DigitRun.trailing_scan within).1 misplaced) 0
  have all (point scale : List (Option Nat × Problem)) :
      Faulty (run.remarks 0 ++ point ++ scale) :=
    (found.append point).append scale
  unfold decimal
  dsimp only
  split
  · exact all _ _
  · unfold float
    dsimp only
    split
    · exact (all _ _).append _
    · exact all _ _

/-- After a zero alone an underscore may stand before a digit. -/
theorem ofDigits_zero_remarks {row : Bytes}
    (within : ∀ byte ∈ row, byte = 0x5F ∨ byte.isDigit = true) (misplaced : MisplacedUnderscore row) :
    Faulty (ofDigits (0x30 :: row)).remarks := by
  cases row with
  | nil =>
      rcases misplaced with inside | last
      · exact absurd (List.infix_nil.mp inside) (by decide)
      · exact absurd (List.suffix_nil.mp last) (by decide)
  | cons first others =>
      rw [ofDigits_octal (within first List.mem_cons_self)]
      refine based_remarks (fun byte member => ?_) misplaced
      rw [if_pos rfl, Byte.isDigitIn_ten]
      exact within byte member

/-- With an underscore out of place a literal is remarked on. -/
theorem ofDigits_remarks {mark row : Bytes} (announced : mark ∈ baseMarks base)
    (after : RowAfterMark base mark row) (misplaced : MisplacedUnderscore (mark ++ row)) :
    Faulty (ofDigits (mark ++ row)).remarks := by
  obtain ⟨within, bare⟩ := after
  have decimals (small : base ≤ 10) : ∀ byte ∈ row, byte = 0x5F ∨ byte.isDigit = true := by
    intro byte member
    refine (within byte member).imp_right fun isDigit => ?_
    exact Byte.isDigitIn_ten byte ▸ Byte.isDigitIn_mono small isDigit
  rcases baseMarks_cases announced with
    ⟨rfl, rfl⟩ | ⟨octal, rfl⟩ | ⟨letter, rfl, other, -, announces⟩
  · obtain ⟨first, others, rfl, isDigit⟩ := bare rfl
    have decimals := decimals (Nat.le_refl _)
    by_cases zero : first = 0x30
    · subst zero
      exact ofDigits_zero_remarks (List.forall_mem_cons.mp decimals).2
        (misplaced.of_cons (by decide))
    · rw [List.nil_append, ofDigits_nonzero zero]
      exact decimal_remarks decimals misplaced
  · rcases octal with rfl | rfl
    · exact ofDigits_zero_remarks (decimals (by decide)) (misplaced.of_cons (by decide))
    · exact ofDigits_zero_remarks (List.forall_mem_cons.mpr ⟨.inl rfl, decimals (by decide)⟩)
        (misplaced.of_cons (by decide))
  · rw [announces]
    refine based_remarks (fun byte member => ?_) ((misplaced.of_cons (by decide)).of_cons other)
    refine (within byte member).imp_right fun isDigit => Byte.isDigitIn_mono ?_ isDigit
    split <;> omega

end NumberReading

end RubySyntax
